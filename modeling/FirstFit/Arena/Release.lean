/-
Release.

A pointer that is given back is held against the header it should belong to before
anything changes.  The block is then marked free and merged with each neighbour that is
free too, so that no two free blocks follow each other.
-/
import FirstFit.Arena.Act

namespace FirstFit

namespace Act

variable {τ : Type} [Tracer τ]

/-- Makes a block part of the one before it and wipes its header. -/
def absorb (into victim : Nat) : Act τ Unit := do
  let taken ← header victim
  let grown ← header into
  let footprint := (← get).region.footprint
  let size ← checked do Word.add grown.size (← Word.add footprint taken.size)
  amend into fun h => { h with size, next := taken.next }
  if let some next := taken.next then
    amend next fun h => { h with prev := some into }
  discard taken.trace
  erase victim
  note (.merged victim into)

/-- The free block behind a link, if the block there is free; its header must be sound. -/
def freeNeighbour (link : Link) : Act τ (Option Nat) := do
  match link with
  | none => return none
  | some offset =>
    let h ← header offset
    match h.check? offset with
    | some cause => corrupt cause
    | none => return if h.isFree then some offset else none

/-- Merges a free block with its free neighbours. -/
def merge (offset : Nat) (prev : Link) : Act τ Unit := do
  let start ← match ← freeNeighbour prev with
    | some before =>
      absorb before offset
      pure before
    | none => pure offset
  if let some after ← freeNeighbour (← header start).next then
    absorb start after

/-- Marks the block at an offset, whose header is given, as free. -/
def reclaim (offset : Nat) (h : Header) : Act τ Unit := do
  amend offset fun h => { h with flag := 0, trace := none }
  discard h.trace
  tally (Stats.dropUsed h.size)
  tally Stats.dropLive
  tally Stats.addRelease

/-- The block whose payload starts at an address, which must be an allocated one. -/
def allocatedAt (address : Nat) : Act τ (Nat × Header) := do
  let region := (← get).region
  if address < region.payload 0 ∨ region.base + region.capacity < address then
    corrupt (.foreignPointer address)
  let offset := address - region.payload 0
  unless region.Admits offset do
    corrupt (.foreignPointer address)
  let h ← header offset
  if let some cause := h.check? offset then
    corrupt cause
  if h.isFree then
    corrupt (.doubleRelease address)
  return (offset, h)

end Act

namespace Arena

variable {τ : Type} [Tracer τ]

/-- Takes back the block whose payload starts at an address.  Zero is the address of no
block and is ignored. -/
def release (address : Nat) : Act τ Unit := do
  let arena ← get
  if address = 0 ∨ ¬ arena.region.Usable then
    return
  let (offset, h) ← Act.allocatedAt address
  Act.reclaim offset h
  Act.note (.released address offset h.size)
  Act.merge offset h.prev
  if arena.config.verify.afterRelease then
    Act.verify

end Arena

end FirstFit
