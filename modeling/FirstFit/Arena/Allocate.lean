/-
Allocation.

A request is rounded up to the unit and answered by the first free block that is long
enough.  If what is left of the block has room for a header and one unit, it is cut off
and becomes a free block of its own.
-/
import FirstFit.Arena.Act

namespace FirstFit

namespace Act

variable {τ : Type}

/-- Cuts off what a block has behind its first `length` bytes and puts it into the chain as
a free block. -/
def split (b : Block) (length : Nat) : Act τ Unit := do
  let footprint := (← get).region.footprint
  let rest ← checked do Word.add (← Word.add b.offset footprint) length
  stamp rest (.fresh (b.size - length - footprint) (some b.offset) b.header.next)
  if let some next := b.header.next then
    amend next fun h => { h with prev := some rest }
  amend b.offset fun h => { h with size := length, next := some rest }
  note (.split b.offset rest)

variable [Tracer τ]

/-- Marks the block at an offset as allocated, counts it, and gives its size. -/
def grant (offset : Nat) : Act τ Nat := do
  let token ← capture
  amend offset fun h => { h with flag := 1, trace := token }
  let size := (← header offset).size
  tally (Stats.addUsed size)
  tally Stats.addLive
  tally Stats.addAlloc
  tally fun s => .ok s.raisePeaks
  return size

end Act

namespace Arena

variable {τ : Type} [Tracer τ]

/-- The address of at least `request` bytes that now belong to the caller; nothing if no free
block is long enough. -/
def allocate (request : Nat) : Act τ (Option Nat) := do
  let arena ← get
  let region := arena.region
  if ¬ region.Usable ∨ region.capacity < request then
    return none
  let length ← Act.checked (roundUp request region.unit.bytes)
  match ← Act.sound (arena.walk.firstFit length) with
  | none =>
    Act.note (.noRoom request length)
    return none
  | some b =>
    if region.footprint + region.unit.bytes ≤ b.size - length then
      Act.split b length
    let size ← Act.grant b.offset
    if arena.config.verify.afterAllocate then
      Act.verify
    Act.note (.allocated request b.offset size)
    return some (region.payload b.offset)

end Arena

end FirstFit
