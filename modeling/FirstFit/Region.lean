/-
Where the blocks of an arena can lie.

A region is the part of a memory that starts and ends at a multiple of the unit, counted
from the start of the address space and from the region's base.  Blocks are named by the
offset of their header, and `Admits` says which offsets can be one: multiples of the unit
from which a whole footprint still fits.
-/
import FirstFit.AlignUnit
import FirstFit.Header

namespace FirstFit

/-- A stretch of addresses that is divided into units. -/
structure Region where
  unit : AlignUnit
  /-- The address of offset zero. -/
  base : Nat
  /-- How many bytes there are. -/
  capacity : Nat
  deriving DecidableEq

/-- The bytes a header takes up: whole units, so that payloads are aligned as headers are. -/
def AlignUnit.footprint (unit : AlignUnit) : Nat := unit.ceil Header.byteCount

namespace Region

/-- The largest region inside a memory: the base is rounded up, the end down. -/
def within (unit : AlignUnit) (m : Memory) : Region :=
  let base := min (unit.ceil m.start) m.stop
  { unit, base, capacity := unit.floor (m.stop - base) }

/-- The bytes a header takes up. -/
def footprint (r : Region) : Nat := r.unit.footprint

/-- Whether there is room for a header and one unit of payload.  Only then is there a
chain of blocks. -/
def Usable (r : Region) : Prop := r.footprint + r.unit.bytes ≤ r.capacity

instance (r : Region) : Decidable r.Usable := inferInstanceAs (Decidable (_ ≤ _))

/-- Whether a header can start at an offset. -/
def Admits (r : Region) (offset : Nat) : Prop :=
  offset % r.unit.bytes = 0 ∧ offset ≤ r.capacity - r.footprint

instance (r : Region) (offset : Nat) : Decidable (r.Admits offset) :=
  inferInstanceAs (Decidable (_ ∧ _))

/-- The address of the payload of the block at an offset. -/
def payload (r : Region) (offset : Nat) : Nat := r.base + offset + r.footprint

theorem footprint_pos (r : Region) : 0 < r.footprint := by
  have := r.unit.le_ceil Header.byteCount
  simp only [Header.byteCount] at this
  simp only [footprint, AlignUnit.footprint, Header.byteCount]
  omega

theorem payload_pos (r : Region) (offset : Nat) : 0 < r.payload offset :=
  Nat.lt_of_lt_of_le r.footprint_pos (Nat.le_add_left _ _)

theorem within_le_stop (unit : AlignUnit) (m : Memory) :
    (within unit m).base + (within unit m).capacity ≤ m.stop := by
  have := unit.floor_le (m.stop - min (unit.ceil m.start) m.stop)
  simp only [within]
  omega

theorem start_le_within (unit : AlignUnit) (m : Memory) : m.start ≤ (within unit m).base := by
  have := unit.le_ceil m.start
  simp only [within, Memory.stop]
  omega

theorem within_congr {unit : AlignUnit} {m m' : Memory} (hstart : m.start = m'.start)
    (hsize : m.size = m'.size) : within unit m = within unit m' := by
  simp only [within, Memory.stop, hstart, hsize]

/-- The footprint of a header that is admitted lies in the region. -/
theorem Admits.footprint_le {r : Region} {offset : Nat} (h : r.Admits offset)
    (usable : r.Usable) : offset + r.footprint ≤ r.capacity := by
  have hle := h.2
  unfold Usable at usable
  omega

end Region

end FirstFit
