/-
A heap for a whole process.

The heap has no memory until an arena is installed, and an arena that is installed later
takes the place of the one before.  Callers say what they need by a layout.  A layout
without bytes is answered without the arena, by an address that is aligned but belongs to
nobody; one that is aligned to more than the unit cannot be answered at all.

The heap cannot record callers, since the snapshots would have to be kept on it.
-/
import FirstFit.Arena.Abort
import FirstFit.Layout

namespace FirstFit

/-- The arena of a process, once there is one. -/
structure Heap where
  arena : Option (Arena Silent) := none
  /-- What has happened since somebody last took notice, the last event last. -/
  journal : Array Event := #[]

instance : Inhabited Heap := ⟨{}⟩

/-- An operation on the heap. -/
abbrev HeapAct := EStateM Exit Heap

namespace Heap

/-- The settings of the arena. -/
def config? (heap : Heap) : Option Config := heap.arena.map (·.config)

/-- The counters of the arena. -/
def stats? (heap : Heap) : Option Stats := heap.arena.map (·.stats)

/-- What is wrong with the chain of the arena, if anything. -/
def verify (heap : Heap) : Except Corruption Unit :=
  heap.arena.elim (.ok ()) Arena.verify

/-- The events of the journal are taken out. -/
def takeJournal (heap : Heap) : List Event × Heap :=
  (heap.journal.toList, { heap with journal := #[] })

/-- An arena is installed, with its journal continuing that of the heap. -/
def install (arena : Arena Silent) (heap : Heap) : Heap where
  arena := some { arena with journal := #[] }
  journal := heap.journal ++ arena.journal

/-- Installs a new arena over a memory. -/
def init (config : Config) (memory : Memory) : HeapAct Unit := do
  if config.capture then
    modify fun heap => { heap with journal := heap.journal.push .captureUnavailable }
  match Arena.create { config with capture := false } memory Silent.mk with
  | .ok arena => modify (install arena)
  | .error f => throw (.fault f)

/-- Lets an arena of the heap act; damage ends the process. -/
def serve (act : Act Silent α) (arena : Arena Silent) : HeapAct α := fun heap =>
  match (act.orEnd Corruption.abort).run arena with
  | .ok a arena => .ok a (heap.install arena)
  | .error e arena => .error e (heap.install arena)

/-- The address of memory for a layout; nothing if there is none to have. -/
def alloc (layout : Layout) : HeapAct (Option Nat) := do
  if layout.size = 0 then
    return some layout.align
  match (← get).arena with
  | none => return none
  | some arena =>
    if arena.config.unit.bytes < layout.align then
      return none
    serve (Arena.allocate layout.size) arena

/-- Gives memory of a layout back. -/
def dealloc (address : Nat) (layout : Layout) : HeapAct Unit := do
  if layout.size = 0 then
    return
  if let some arena := (← get).arena then
    serve (Arena.release address) arena

/-- Changes the memory of the arena, if there is one. -/
def modifyMemory (change : Memory → Memory) (heap : Heap) : Heap :=
  { heap with arena := heap.arena.map fun arena => { arena with memory := change arena.memory } }

/-- The bytes at an address, as many as the arena has of them. -/
def read (address count : Nat) (heap : Heap) : List UInt8 :=
  heap.arena.elim [] fun arena => arena.memory.read address count

/-- Memory for a layout with every byte zero. -/
def allocZeroed (layout : Layout) : HeapAct (Option Nat) := do
  let address? ← alloc layout
  if let some address := address? then
    modify (modifyMemory (·.fill address layout.size 0))
  return address?

/-- Moves memory to where there is room for `newSize` bytes.  If there is no such place,
nothing happens to what there is. -/
def realloc (address : Nat) (layout : Layout) (newSize : Nat) : HeapAct (Option Nat) := do
  match Layout.of? newSize layout.align with
  | none => return none
  | some layout' =>
    let moved? ← alloc layout'
    if let some moved := moved? then
      let kept := read address (min layout.size newSize) (← get)
      modify (modifyMemory (·.write moved kept))
      dealloc address layout
    return moved?

end Heap

end FirstFit
