/-
Alignment units and rounding to them.

Everything an arena lays out is a multiple of its unit: the base, the offsets of the
headers, the sizes of the payloads.  `roundUp` is the rounding of a request, in
checked machine words and for any unit; `AlignUnit.ceil` and `AlignUnit.floor` are
the two nearest multiples of a unit that is known to be sound.
-/
import FirstFit.Word

namespace FirstFit

/-- `value` rounded up to a multiple of `unit`: with `unit` a power of two, adding
`unit - 1` passes the next multiple exactly if `value` is not one itself, and clearing
the low bits falls back on it. -/
def roundUp (value unit : Nat) : Except Fault Nat := do
  let sum ← Word.add value unit
  let last ← Word.sub sum 1
  let mask ← Word.sub unit 1
  return last &&& Word.complement mask

/-- A number that sizes and offsets may be rounded to.  Headers are read in place, so
it is at least the size of the words they consist of. -/
@[ext] structure AlignUnit where
  bytes : Nat
  isPowerOfTwo : bytes.isPowerOfTwo
  word_le : 8 ≤ bytes
  lt_limit : bytes < 0x10000000000000000

namespace AlignUnit

instance : DecidableEq AlignUnit := fun _ _ => decidable_of_iff _ AlignUnit.ext_iff.symm

/-- The least number that is a unit. -/
def least : Nat := 8

/-- The unit of `bytes` bytes, if there is one. -/
def ofBytes? (bytes : Nat) : Option AlignUnit :=
  if h : bytes.isPowerOfTwo ∧ least ≤ bytes ∧ bytes < 0x10000000000000000 then
    some ⟨bytes, h.1, h.2.1, h.2.2⟩
  else
    none

/-- The unit of a fresh configuration, a machine word. -/
def default : AlignUnit := ⟨8, ⟨3, rfl⟩, by decide, by decide⟩

instance : Inhabited AlignUnit := ⟨default⟩

/-- The least multiple of the unit that is not below `n`. -/
def ceil (unit : AlignUnit) (n : Nat) : Nat :=
  (n + unit.bytes - 1) / unit.bytes * unit.bytes

/-- The greatest multiple of the unit that is not above `n`. -/
def floor (unit : AlignUnit) (n : Nat) : Nat :=
  n / unit.bytes * unit.bytes

variable (unit : AlignUnit) (n : Nat)

theorem bytes_pos : 0 < unit.bytes := by
  have := unit.word_le
  omega

/-- A unit is a whole number of words. -/
theorem word_dvd : 8 ∣ unit.bytes := by
  obtain ⟨k, hk⟩ := unit.isPowerOfTwo
  have hle := unit.word_le
  rw [hk] at hle ⊢
  have hexponent : 3 ≤ k := (Nat.pow_le_pow_iff_right (by omega : 1 < 2)).mp hle
  exact Nat.pow_dvd_pow 2 hexponent

theorem dvd_ceil : unit.bytes ∣ unit.ceil n := Nat.dvd_mul_left _ _

theorem dvd_floor : unit.bytes ∣ unit.floor n := Nat.dvd_mul_left _ _

theorem floor_le : unit.floor n ≤ n := Nat.div_mul_le_self _ _

theorem lt_floor_add : n < unit.floor n + unit.bytes := by
  have h := Nat.div_add_mod n unit.bytes
  have hlt := Nat.mod_lt n unit.bytes_pos
  rw [Nat.mul_comm] at h
  unfold floor
  omega

theorem le_ceil : n ≤ unit.ceil n := by
  have := unit.lt_floor_add (n + unit.bytes - 1)
  have hpos := unit.bytes_pos
  unfold floor at this
  unfold ceil
  omega

theorem ceil_lt : unit.ceil n < n + unit.bytes := by
  have := unit.floor_le (n + unit.bytes - 1)
  have hpos := unit.bytes_pos
  unfold floor at this
  unfold ceil
  omega

variable {n}

/-- No other multiple comes between a number and its ceiling. -/
theorem ceil_le {m : Nat} (hdvd : unit.bytes ∣ m) (hle : n ≤ m) : unit.ceil n ≤ m := by
  obtain ⟨k, rfl⟩ := hdvd
  have hlt := unit.ceil_lt n
  unfold ceil at hlt ⊢
  have hk : (n + unit.bytes - 1) / unit.bytes < k + 1 := by
    refine Nat.lt_of_mul_lt_mul_right (a := unit.bytes) ?_
    rw [Nat.add_mul, Nat.one_mul, Nat.mul_comm k]
    omega
  rw [Nat.mul_comm unit.bytes]
  exact Nat.mul_le_mul_right _ (Nat.le_of_lt_succ hk)

/-- No other multiple comes between a number and its floor. -/
theorem le_floor {m : Nat} (hdvd : unit.bytes ∣ m) (hle : m ≤ n) : m ≤ unit.floor n := by
  obtain ⟨k, rfl⟩ := hdvd
  unfold floor
  rw [Nat.mul_comm unit.bytes]
  refine Nat.mul_le_mul_right _ ((Nat.le_div_iff_mul_le unit.bytes_pos).2 ?_)
  rwa [Nat.mul_comm]

/-- To round one side of a comparison up is to round the other side down. -/
theorem ceil_le_iff {m : Nat} : unit.ceil n ≤ m ↔ n ≤ unit.floor m := by
  constructor
  · intro h
    exact Nat.le_trans (unit.le_ceil n) (unit.le_floor (unit.dvd_ceil n) h)
  · intro h
    exact Nat.le_trans (unit.ceil_le (unit.dvd_floor m) h) (unit.floor_le m)

end AlignUnit

end FirstFit
