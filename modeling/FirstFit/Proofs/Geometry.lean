/-
Rounding, and where a region lies.

Two facts carry all arithmetic of the arena.  The bit formula of `roundUp` is the integer
ceiling, as long as its sum is a word.  And a region that has room for a block starts and
ends at a multiple of its unit and lies inside its memory (`Region.Lies`), so offsets,
footprints and payload sizes are all counted in units and no sum of them leaves the words.
-/
import Mathlib.Data.Nat.Bitwise
import FirstFit.Region

namespace FirstFit

/-! ### Rounding -/

/-- Clearing the low bits of a word falls back on a multiple of a power of two. -/
theorem and_complement_mask {x k : Nat} (hx : x < 2 ^ 64) (hk : k ≤ 64) :
    x &&& Word.complement (2 ^ k - 1) = x / 2 ^ k * 2 ^ k := by
  have hpow : 2 ^ k ≤ 2 ^ 64 := Nat.pow_le_pow_right (by decide) hk
  have hpos : 0 < 2 ^ k := Nat.two_pow_pos k
  have hcomplement : Word.complement (2 ^ k - 1) = 2 ^ 64 - ((2 ^ k - 1) + 1) := by
    unfold Word.complement
    omega
  rw [hcomplement, ← Nat.shiftRight_eq_div_pow, ← Nat.shiftLeft_eq]
  refine Nat.eq_of_testBit_eq fun i => ?_
  rw [Nat.testBit_and, Nat.testBit_two_pow_sub_succ (by omega), Nat.testBit_two_pow_sub_one,
    Nat.testBit_shiftLeft, Nat.testBit_shiftRight]
  by_cases hi : i < 64
  · by_cases hki : k ≤ i
    · simp [hi, hki, Nat.not_lt_of_le hki]
    · simp [hki, Nat.lt_of_not_le hki]
  · have hbit : x.testBit i = false :=
      Nat.testBit_lt_two_pow (Nat.lt_of_lt_of_le hx (Nat.pow_le_pow_right (by decide) (by omega)))
    by_cases hki : k ≤ i <;> simp [hbit, hki, show k + (i - k) = i by omega]

/-- **Rounding gives the ceiling, if the sum in it is a word.** -/
theorem roundUp_of_lt {value unit : Nat} (hunit : unit.isPowerOfTwo) (h : value + unit < 2 ^ 64) :
    roundUp value unit = .ok ((value + unit - 1) / unit * unit) := by
  obtain ⟨k, rfl⟩ := hunit
  have hpos : 0 < 2 ^ k := Nat.two_pow_pos k
  have hk : k < 64 := (Nat.pow_lt_pow_iff_right (a := 2) (by decide)).mp (by omega)
  have hsum : Word.add value (2 ^ k) = .ok (value + 2 ^ k) := Word.add_eq_ok_iff.mpr ⟨rfl, h⟩
  have hlast : Word.sub (value + 2 ^ k) 1 = .ok (value + 2 ^ k - 1) :=
    Word.sub_eq_ok_iff.mpr ⟨by omega, rfl⟩
  have hmask : Word.sub (2 ^ k) 1 = .ok (2 ^ k - 1) := Word.sub_eq_ok_iff.mpr ⟨by omega, rfl⟩
  unfold roundUp
  rw [hsum]
  show (Word.sub (value + 2 ^ k) 1 >>= _) = _
  rw [hlast]
  show (Word.sub (2 ^ k) 1 >>= _) = _
  rw [hmask]
  show Except.ok _ = _
  rw [and_complement_mask (by omega) (Nat.le_of_lt hk)]

/-- A request is rounded to its ceiling. -/
theorem roundUp_eq_ok {unit : AlignUnit} {n : Nat} (h : n + unit.bytes < 2 ^ 64) :
    roundUp n unit.bytes = .ok (unit.ceil n) := roundUp_of_lt unit.isPowerOfTwo h

/-! ### Regions in a memory -/

namespace Region

/-- A region that has room for a block and lies in a memory. -/
structure Lies (r : Region) (m : Memory) : Prop where
  usable : r.Usable
  /-- The base is aligned, so that an offset is aligned exactly if its address is. -/
  base_dvd : r.unit.bytes ∣ r.base
  capacity_dvd : r.unit.bytes ∣ r.capacity
  start_le : m.start ≤ r.base
  le_stop : r.base + r.capacity ≤ m.stop

theorem dvd_footprint (r : Region) : r.unit.bytes ∣ r.footprint := r.unit.dvd_ceil _

theorem byteCount_le_footprint (r : Region) : Header.byteCount ≤ r.footprint := r.unit.le_ceil _

theorem lies_within {unit : AlignUnit} {m : Memory} (h : (within unit m).Usable) :
    (within unit m).Lies m := by
  refine ⟨h, ?_, unit.dvd_floor _, start_le_within unit m, within_le_stop unit m⟩
  by_cases hle : unit.ceil m.start ≤ m.stop
  · have hbase : (within unit m).base = unit.ceil m.start := Nat.min_eq_left hle
    rw [hbase]
    exact unit.dvd_ceil _
  · -- A start that cannot be aligned inside the memory leaves no room for a block.
    have hbase : (within unit m).base = m.stop := Nat.min_eq_right (Nat.le_of_not_le hle)
    have hfloor := unit.floor_le (m.stop - (within unit m).base)
    have hcapacity : (within unit m).capacity = 0 := by
      rw [hbase, Nat.sub_self] at hfloor
      show unit.floor (m.stop - (within unit m).base) = 0
      rw [hbase, Nat.sub_self]
      omega
    have hpos := (within unit m).footprint_pos
    unfold Usable at h
    omega

variable {r : Region} {m : Memory}

theorem Lies.congr {m' : Memory} (h : r.Lies m) (hstart : m'.start = m.start)
    (hsize : m'.size = m.size) : r.Lies m' :=
  ⟨h.usable, h.base_dvd, h.capacity_dvd, by rw [hstart]; exact h.start_le, by
    unfold Memory.stop
    rw [hstart, hsize]
    exact h.le_stop⟩

theorem Lies.capacity_lt (h : r.Lies m) : r.capacity < 2 ^ 63 := by
  have hsize := m.size_lt
  have hstart := h.start_le
  have hstop := h.le_stop
  simp only [Memory.stop, Memory.size] at hstop
  omega

theorem Lies.admits_iff (h : r.Lies m) {offset : Nat} :
    r.Admits offset ↔ r.unit.bytes ∣ offset ∧ offset + r.footprint ≤ r.capacity := by
  have husable := h.usable
  unfold Usable at husable
  unfold Admits
  rw [Nat.dvd_iff_mod_eq_zero]
  exact ⟨fun ⟨hd, hle⟩ => ⟨hd, by omega⟩, fun ⟨hd, hle⟩ => ⟨hd, by omega⟩⟩

theorem exists_payload {address : Nat} (h : r.payload 0 ≤ address) :
    ∃ offset, address = r.payload offset :=
  ⟨address - r.payload 0, by unfold payload at h ⊢; omega⟩

@[simp] theorem payload_sub_payload {offset : Nat} : r.payload offset - r.payload 0 = offset := by
  unfold payload
  omega

/-- Where a header could be, its payload is aligned and starts in the region or at its end. -/
theorem Lies.inside_iff (h : r.Lies m) {offset : Nat} :
    ¬ (r.payload offset < r.payload 0 ∨ r.base + r.capacity < r.payload offset ∨
      ¬ r.unit.bytes ∣ r.payload offset - r.base) ↔ r.Admits offset := by
  have hsum : r.payload offset - r.base = offset + r.footprint := by
    unfold payload
    omega
  have hlow : r.payload 0 ≤ r.payload offset := by
    unfold payload
    omega
  have hhigh : r.payload offset ≤ r.base + r.capacity ↔ offset + r.footprint ≤ r.capacity := by
    unfold payload
    omega
  rw [h.admits_iff, hsum, Nat.dvd_add_left r.dvd_footprint, not_or, not_or, not_not, Nat.not_lt,
    Nat.not_lt, hhigh]
  tauto

/-- The words of a header that has room are in the memory. -/
theorem Lies.covers (h : r.Lies m) {offset : Nat} (hroom : offset + r.footprint ≤ r.capacity) :
    m.Covers (r.base + offset) Header.byteCount := by
  have hbytes := r.byteCount_le_footprint
  have hstart := h.start_le
  have hstop := h.le_stop
  unfold Memory.Covers
  omega

/-- The request that a usable region does not refuse outright can be rounded, and does not
become larger than the region. -/
theorem Lies.roundUp (h : r.Lies m) {n : Nat} (hn : n ≤ r.capacity) :
    FirstFit.roundUp n r.unit.bytes = .ok (r.unit.ceil n) ∧ r.unit.ceil n ≤ r.capacity := by
  have husable := h.usable
  have hcapacity := h.capacity_lt
  unfold Usable at husable
  exact ⟨roundUp_eq_ok (by omega), r.unit.ceil_le h.capacity_dvd hn⟩

end Region

end FirstFit
