/-
First fit on a list.

This is what an arena does, without headers, links or bytes: its blocks are a list of
cells, and where a cell lies is the sum of what comes before it.  An arena that nobody
damages does the same as these functions.
-/
import Mathlib.Algebra.GroupWithZero.Nat
import FirstFit.Region

namespace FirstFit

/-- A block without its place. -/
structure Cell where
  /-- How many bytes of payload it has. -/
  size : Nat
  allocated : Bool
  deriving DecidableEq, Repr

namespace Cells

/-- How many bytes the cells take up, with a footprint each. -/
def extent (footprint : Nat) (cells : List Cell) : Nat :=
  (cells.map fun c => footprint + c.size).sum

/-- The cells with their offsets, the first of them at `offset`. -/
def place (footprint offset : Nat) : List Cell → List (Nat × Cell)
  | [] => []
  | c :: rest => (offset, c) :: place footprint (offset + footprint + c.size) rest

/-- What becomes of a free cell when its first `length` bytes are handed out: the rest is a
free cell if it has room for a footprint and one unit, and is handed out too if not. -/
def carve (r : Region) (length : Nat) (c : Cell) : List Cell :=
  if r.footprint + r.unit.bytes ≤ c.size - length then
    [⟨length, true⟩, ⟨c.size - length - r.footprint, false⟩]
  else
    [⟨c.size, true⟩]

/-- The offset of the first free cell of at least `length` bytes, and the cells after they
were handed out; the first cell given is at `offset`. -/
def take? (r : Region) (length offset : Nat) : List Cell → Option (Nat × List Cell)
  | [] => none
  | c :: rest =>
    if !c.allocated ∧ length ≤ c.size then
      some (offset, carve r length c ++ rest)
    else
      (take? r length (offset + r.footprint + c.size) rest).map fun (found, rest) =>
        (found, c :: rest)

/-- Allocation: the address of the answer and the cells afterwards. -/
def allocate? (r : Region) (request : Nat) (cells : List Cell) : Option (Nat × List Cell) :=
  if r.capacity < request then none
  else (take? r (r.unit.ceil request) 0 cells).map fun (found, cells) => (r.payload found, cells)

/-- A free cell of `size` bytes behind others: it becomes part of the last of them if that is
free too. -/
def mergeBefore (footprint size : Nat) (before : List Cell) : List Cell :=
  match before.getLast? with
  | some ⟨s, false⟩ => before.dropLast ++ [⟨s + footprint + size, false⟩]
  | _ => before ++ [⟨size, false⟩]

/-- Cells that become free behind others: the first of them, of `size` bytes, takes in a
free cell that follows and becomes part of one that precedes. -/
def merge (footprint size : Nat) (before : List Cell) : List Cell → List Cell
  | ⟨s, false⟩ :: after => mergeBefore footprint (size + footprint + s) before ++ after
  | after => mergeBefore footprint size before ++ after

/-- The cells after the allocated one at `target` became free; nothing if there is none.
The cells before those given are `before`, and the first given is at `offset`. -/
def free? (footprint target offset : Nat) (before : List Cell) : List Cell → Option (List Cell)
  | [] => none
  | c :: rest =>
    if offset = target then
      if c.allocated then some (merge footprint c.size before rest) else none
    else
      free? footprint target (offset + footprint + c.size) (before ++ [c]) rest

/-- Release of the allocated cell whose payload starts at an address. -/
def release? (r : Region) (address : Nat) (cells : List Cell) : Option (List Cell) :=
  if address < r.payload 0 then none
  else free? r.footprint (address - r.payload 0) 0 [] cells

/-- The cells of a region before anything was handed out. -/
def whole (r : Region) : List Cell := [⟨r.capacity - r.footprint, false⟩]

end Cells

end FirstFit
