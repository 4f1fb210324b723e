/-
Arenas.

An arena carves the blocks it hands out of one memory.  All it knows of them is in the
memory itself: each block, free or allocated, is led by a header that links to both
neighbours.  So whoever can write to the memory can damage the arena, and what an arena
says of its chain is read from the bytes each time it is asked.

Here are the arena itself, its creation, and the questions that change nothing.
-/
import FirstFit.Config
import FirstFit.Event
import FirstFit.Stats
import FirstFit.Tracer
import FirstFit.Walk

namespace FirstFit

/-- A memory that is handed out in blocks, with what is kept beside it. -/
structure Arena (τ : Type) where
  config : Config
  memory : Memory
  tracer : τ
  stats : Stats := {}
  /-- What has happened since somebody last took notice, the last event last. -/
  journal : Array Event := #[]

namespace Arena

variable {τ : Type}

/-- The part of the memory that blocks can lie in. -/
def region (arena : Arena τ) : Region := .within arena.config.unit arena.memory

/-- Lays out an arena: every byte of the memory becomes zero, and one free block covers the
region if there is room for it.  The unit must not be so large that the first address
aligned to it, or the least capacity that would do, might be no machine word. -/
def create (config : Config) (memory : Memory) (tracer : τ) : Except Fault (Arena τ) := do
  let region := Region.within config.unit memory
  discard <| Word.add memory.start config.unit.bytes
  discard <| Word.add region.footprint config.unit.bytes
  let memory := memory.cleared
  if region.Usable then
    let whole := Header.fresh (region.capacity - region.footprint) none none
    return {
      config, tracer
      memory := memory.setHeader region.base whole
      journal := #[.created region.capacity region.base region.footprint] }
  else
    return { config, tracer, memory, journal := #[.tooSmall memory.size] }

/-- The header at an offset of the region. -/
def headerAt (arena : Arena τ) (offset : Nat) : Header :=
  arena.memory.header (arena.region.base + offset)

/-- Writes a header at an offset of the region. -/
def setHeaderAt (arena : Arena τ) (offset : Nat) (h : Header) : Arena τ :=
  { arena with memory := arena.memory.setHeader (arena.region.base + offset) h }

/-- Makes every byte zero that a header at an offset takes up. -/
def wipeAt (arena : Arena τ) (offset : Nat) : Arena τ :=
  { arena with
    memory := arena.memory.fill (arena.region.base + offset) arena.region.footprint 0 }

/-- The walk along the chain as it is now. -/
def walk (arena : Arena τ) : Walk := .through arena.region arena.memory

/-- What is wrong with the chain, if anything. -/
def verify (arena : Arena τ) : Except Corruption Unit := arena.walk.verdict

/-- The blocks of the chain, up to the first damaged header. -/
def blocks (arena : Arena τ) : List Block := arena.walk.sound

/-- The free blocks of the chain. -/
def freeBlocks (arena : Arena τ) : List Block := arena.blocks.filter Block.isFree

/-- How many bytes of payload the free blocks have. -/
def freeBytes (arena : Arena τ) : Except Fault Nat :=
  arena.freeBlocks.foldlM (fun sum b => Word.add sum b.size) 0

/-- The largest request that a free block could answer. -/
def largestFree (arena : Arena τ) : Nat :=
  arena.freeBlocks.foldl (fun most b => max most (arena.config.unit.floor b.size)) 0

/-- The peak counters start again from what is in use now. -/
def resetPeaks (arena : Arena τ) : Arena τ := { arena with stats := arena.stats.resetPeaks }

/-- The events of the journal are taken out. -/
def takeJournal (arena : Arena τ) : List Event × Arena τ :=
  (arena.journal.toList, { arena with journal := #[] })

@[simp] theorem region_setHeaderAt (arena : Arena τ) (offset : Nat) (h : Header) :
    (arena.setHeaderAt offset h).region = arena.region := by
  simp only [setHeaderAt, region]
  exact Region.within_congr (Memory.start_setHeader ..) (Memory.size_setHeader ..)

@[simp] theorem region_wipeAt (arena : Arena τ) (offset : Nat) :
    (arena.wipeAt offset).region = arena.region := by
  simp only [wipeAt, region]
  exact Region.within_congr (Memory.start_fill ..) (Memory.size_fill ..)

end Arena

end FirstFit
