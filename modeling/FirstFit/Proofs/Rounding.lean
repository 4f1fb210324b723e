/-
Rounding, and the sums that an allocation makes with it.

`roundUp` is a bit formula in checked words.  For every unit that is a power of two, also one that
no header could have, it gives the least multiple that is not below the value, and of its checks
only the first can fail, the one of value and unit together (`roundUp_eq_ok_iff`,
`roundUp_eq_error_iff`).

An allocation rounds its request and adds up where the header of what it cuts off has to be.  In a
region that has room for a block neither can fail, whatever the bytes are: the request has been
compared with the capacity, the walk has come to the offset, and the capacity is less than half of
the words.  So the checks might as well not be there.  This is said by changing the arithmetic:
`Arena.allocateBy` is an allocation that reckons in some other way, and to reckon with integers,
where there is nothing to check, is the same (`Arena.rounding_exact_and_safe`).
-/
import Mathlib.Algebra.Order.Floor.Div
import FirstFit.Proofs.Overhang

namespace FirstFit

/-! ### Any value, and any power of two -/

section Any

variable {value unit : Nat}

theorem isLeast_multiple (hpos : 0 < unit) :
    IsLeast {m | unit ∣ m ∧ value ≤ m} ((value + unit - 1) / unit * unit) := by
  rw [← Nat.ceilDiv_eq_add_pred_div, Nat.mul_comm]
  refine ⟨⟨Nat.dvd_mul_right _ _, le_smul_ceilDiv hpos⟩, ?_⟩
  intro m hm
  obtain ⟨⟨count, rfl⟩, hle⟩ := hm
  exact Nat.mul_le_mul_left unit ((ceilDiv_le_iff_le_mul hpos).mpr hle)

theorem roundUp_of_le (h : 2 ^ 64 ≤ value + unit) : roundUp value unit = .error .addition := by
  have hsum : Word.add value unit = .error .addition := if_neg (by omega)
  unfold roundUp
  rw [hsum]
  rfl

theorem roundUp_eq_error_iff (hunit : unit.isPowerOfTwo) {fault : Fault} :
    roundUp value unit = .error fault ↔ fault = .addition ∧ 2 ^ 64 ≤ value + unit := by
  by_cases h : value + unit < 2 ^ 64
  · rw [roundUp_of_lt hunit h]
    constructor
    · intro heq
      cases heq
    · intro hfault
      exact absurd h (Nat.not_lt.mpr hfault.2)
  · have hle : 2 ^ 64 ≤ value + unit := Nat.le_of_not_lt h
    rw [roundUp_of_le hle, Except.error.injEq]
    constructor
    · intro heq
      exact ⟨heq.symm, hle⟩
    · intro hfault
      exact hfault.1.symm

theorem roundUp_eq_ok_iff (hunit : unit.isPowerOfTwo) {length : Nat} :
    roundUp value unit = .ok length ↔
      value + unit < 2 ^ 64 ∧ IsLeast {m | unit ∣ m ∧ value ≤ m} length := by
  have hleast : IsLeast {m | unit ∣ m ∧ value ≤ m} ((value + unit - 1) / unit * unit) :=
    isLeast_multiple (Nat.pos_of_isPowerOfTwo hunit)
  by_cases h : value + unit < 2 ^ 64
  · rw [roundUp_of_lt hunit h, Except.ok.injEq]
    constructor
    · intro heq
      exact ⟨h, heq ▸ hleast⟩
    · intro hanswer
      exact hleast.unique hanswer.2
  · rw [roundUp_of_le (Nat.le_of_not_lt h)]
    constructor
    · intro heq
      cases heq
    · intro hanswer
      exact absurd hanswer.1 h

end Any

/-! ### Another arithmetic -/

/-- How an allocation computes: what it rounds a request to, and where it puts the header of what
is behind the first `length` bytes of a block. -/
structure Reckoning where
  round : (request unit : Nat) → Except Fault Nat
  rest : (offset footprint length : Nat) → Except Fault Nat

namespace Reckoning

/-- With machine words, and checks that sums are such. -/
def words : Reckoning where
  round := roundUp
  rest offset footprint length := do Word.add (← Word.add offset footprint) length

/-- With integers, where there is nothing to check. -/
def integers : Reckoning where
  round request unit := .ok ((request + unit - 1) / unit * unit)
  rest offset footprint length := .ok (offset + footprint + length)

/-- Two arithmetics compute the same for the requests and the headers that a region can have. -/
structure Agree (a b : Reckoning) (r : Region) : Prop where
  round : ∀ n, n ≤ r.capacity → a.round n r.unit.bytes = b.round n r.unit.bytes
  rest : ∀ n length offset, n ≤ r.capacity → b.round n r.unit.bytes = .ok length →
    r.Admits offset → a.rest offset r.footprint length = b.rest offset r.footprint length

end Reckoning

/-- The place of the header of a rest is a word: up to the payload of its block and from there on
it is no further than the region is long. -/
theorem Region.Lies.rest_eq {r : Region} {m : Memory} (h : r.Lies m) {offset length : Nat}
    (hoffset : r.Admits offset) (hlength : length ≤ r.capacity) :
    Reckoning.words.rest offset r.footprint length = .ok (offset + r.footprint + length) := by
  have hcapacity := h.capacity_lt
  have hroom := (h.admits_iff.mp hoffset).2
  exact Word.add_bind_add (by omega)

theorem Region.Lies.words_agree {r : Region} {m : Memory} (h : r.Lies m) :
    Reckoning.words.Agree .integers r := by
  refine ⟨fun n hn => (h.roundUp hn).1, fun n length offset hn hround hoffset => ?_⟩
  have hlength : r.unit.ceil n = length := Except.ok.inj hround
  exact h.rest_eq hoffset (hlength ▸ (h.roundUp hn).2)

variable {τ : Type} {arena : Arena τ} {a b : Reckoning}

namespace Act

/-- A cut that finds the place of the new header by some arithmetic. -/
def splitBy (reckoning : Reckoning) (b : Block) (length : Nat) : Act τ Unit := do
  let footprint := (← get).region.footprint
  let rest ← checked (reckoning.rest b.offset footprint length)
  stamp rest (.fresh (b.size - length - footprint) (some b.offset) b.header.next)
  if let some next := b.header.next then
    amend next fun h => { h with prev := some rest }
  amend b.offset fun h => { h with size := length, next := some rest }
  note (.split b.offset rest)

theorem run_splitBy_congr {block : Block} {length : Nat}
    (h : a.rest block.offset arena.region.footprint length =
      b.rest block.offset arena.region.footprint length) :
    (splitBy a block length).run arena = (splitBy b block length).run arena := by
  unfold splitBy
  rw [run_bind_ok (EStateM.run_get _), run_bind_ok (EStateM.run_get _)]
  simp only [h]

end Act

namespace Arena

variable [Tracer τ]

/-- An allocation that rounds and cuts by some arithmetic. -/
def allocateBy (reckoning : Reckoning) (request : Nat) : Act τ (Option Nat) := do
  let arena ← get
  let region := arena.region
  if ¬ region.Usable ∨ region.capacity < request then
    return none
  let length ← Act.checked (reckoning.round request region.unit.bytes)
  match ← Act.sound (arena.walk.firstFit length) with
  | none =>
    Act.note (.noRoom request length)
    return none
  | some b =>
    if region.footprint + region.unit.bytes ≤ b.size - length then
      Act.splitBy reckoning b length
    let size ← Act.grant b.offset
    if arena.config.verify.afterAllocate then
      Act.verify
    Act.note (.allocated request b.offset size)
    return some (region.payload b.offset)

theorem allocateBy_words : allocateBy (τ := τ) .words = allocate := rfl

/-- An allocation computes nothing but what arithmetics may agree on: the refusal comes before the
rounding, and the search stops where a header can be. -/
theorem run_allocateBy_congr (h : a.Agree b arena.region) (n : Nat) :
    (allocateBy a n).run arena = (allocateBy b n).run arena := by
  unfold allocateBy
  rw [Act.run_bind_ok (EStateM.run_get _), Act.run_bind_ok (EStateM.run_get _)]
  dsimp only
  by_cases hrefused : ¬ arena.region.Usable ∨ arena.region.capacity < n
  · rw [if_pos hrefused, if_pos hrefused]
  rw [if_neg hrefused, if_neg hrefused]
  have hn : n ≤ arena.region.capacity := Nat.le_of_not_lt fun hlt => hrefused (.inr hlt)
  rw [h.round n hn]
  cases hround : b.round n arena.region.unit.bytes with
  | error fault => rfl
  | ok length =>
    rw [Act.run_bind_ok (Act.run_checked_ok _), Act.run_bind_ok (Act.run_checked_ok _)]
    rcases hfit : arena.walk.firstFit length with c | (_ | block)
    · rfl
    · rfl
    · obtain ⟨hadmits, -, -⟩ := Walk.of_firstFit_eq_some hfit
      have hsplit := Act.run_splitBy_congr (h.rest n length block.offset hn hround hadmits)
      rw [Act.run_bind_ok (Act.run_sound_ok _), Act.run_bind_ok (Act.run_sound_ok _)]
      dsimp only
      split
      · simp only [EStateM.run_bind, hsplit]
      · rfl

/-- **Rounding is exact, and safe where an allocation uses it.**  It fails if value and unit
together are no word, and gives the least multiple that is not below the value otherwise.  In an
arena that has a chain, whatever its bytes are, no request up to the capacity is rounded to more
than the capacity, and the sum of an offset that can have a header, a footprint and a rounded
request is a word; so every allocation is as it would be with integers. -/
theorem rounding_exact_and_safe :
    (∀ value unit : Nat, unit.isPowerOfTwo →
      (∀ fault, roundUp value unit = .error fault ↔
        fault = .addition ∧ 2 ^ 64 ≤ value + unit) ∧
      ∀ length, roundUp value unit = .ok length ↔
        value + unit < 2 ^ 64 ∧ IsLeast {m | unit ∣ m ∧ value ≤ m} length) ∧
    ∀ arena : Arena τ, arena.region.Usable →
      (∀ n, n ≤ arena.region.capacity → ∃ length,
        roundUp n arena.region.unit.bytes = .ok length ∧ length ≤ arena.region.capacity ∧
        ∀ offset, arena.region.Admits offset →
          Reckoning.words.rest offset arena.region.footprint length =
            .ok (offset + arena.region.footprint + length)) ∧
      ∀ n, (allocate n).run arena = (allocateBy .integers n).run arena := by
  constructor
  · intro value unit hunit
    exact ⟨fun _ => roundUp_eq_error_iff hunit, fun _ => roundUp_eq_ok_iff hunit⟩
  · intro arena husable
    have hlies : arena.region.Lies arena.memory := Region.lies_within husable
    constructor
    · intro n hn
      obtain ⟨hround, hlength⟩ := hlies.roundUp hn
      exact ⟨_, hround, hlength, fun _ hoffset => hlies.rest_eq hoffset hlength⟩
    · intro n
      rw [← allocateBy_words]
      exact run_allocateBy_congr hlies.words_agree n

/-- At the end of the words, below the least unit of an arena, and at the end of a region. -/
theorem rounding_exact_and_safe_sample :
    roundUp (2 ^ 64 - 8) 8 = .error .addition ∧ IsLeast {m | 4 ∣ m ∧ 13 ≤ m} 16 ∧
      ∃ first : Arena Silent, create {} sample ⟨⟩ = .ok first ∧ first.region.Usable ∧
        roundUp 199 first.region.unit.bytes = .ok 200 ∧ 200 ≤ first.region.capacity ∧
        Reckoning.words.rest 144 first.region.footprint 200 =
          .ok (144 + first.region.footprint + 200) ∧
        ∀ n, (allocate n).run first = (allocateBy .integers n).run first := by
  obtain ⟨hrounding, hsafe⟩ := @rounding_exact_and_safe Silent _
  have hend := ((hrounding (2 ^ 64 - 8) 8 ⟨3, rfl⟩).1 .addition).mpr ⟨rfl, by decide⟩
  have hsmall := ((hrounding 13 4 ⟨2, rfl⟩).2 16).mp (by decide)
  obtain ⟨first, hcreate⟩ := @exists_create Silent {} sample ⟨⟩ (by decide +kernel)
    (by decide +kernel)
  have hregion : first.region = .within ({} : Config).unit sample := (create_eq hcreate).1
  have husable : first.region.Usable := by
    rw [hregion]
    decide +kernel
  have hrounded : roundUp 199 first.region.unit.bytes = .ok 200 := by
    rw [hregion]
    decide +kernel
  have hadmits : first.region.Admits 144 := by
    rw [hregion]
    decide +kernel
  obtain ⟨hcomputed, hsame⟩ := hsafe first husable
  obtain ⟨length, hround, hlength, hrest⟩ := hcomputed 199 (by
    rw [hregion]
    decide +kernel)
  obtain rfl : length = 200 := Except.ok.inj (hround.symm.trans hrounded)
  exact ⟨hend, hsmall.2, first, hcreate, husable, hrounded, hlength, hrest 144 hadmits, hsame⟩

end Arena

end FirstFit
