/-
Arithmetic in machine words.

Sizes, offsets, addresses and counters are natural numbers below `2 ^ 64`, which is
written out as a numeral.  A sum or difference that leaves that range is never wrapped:
it is a `Fault`, and the step that asked for it goes no further.
-/
namespace FirstFit

/-- A check of the allocator on itself that failed.  Unlike damage found in the
memory, a fault says that a step was about to compute or write nonsense. -/
inductive Fault
  /-- A sum does not fit in a machine word. -/
  | addition
  /-- A difference would be negative. -/
  | subtraction
  /-- A header was about to be written where the arena has no room for one. -/
  | headerOutside
  deriving DecidableEq, Repr

namespace Word

/-- The sum of two words, if it is one. -/
def add (a b : Nat) : Except Fault Nat :=
  if a + b < 0x10000000000000000 then .ok (a + b) else .error .addition

/-- The difference of two words, if it is not negative. -/
def sub (a b : Nat) : Except Fault Nat :=
  if b ≤ a then .ok (a - b) else .error .subtraction

/-- All bits of a word inverted. -/
def complement (a : Nat) : Nat := 0x10000000000000000 - 1 - a

theorem add_eq_ok_iff {a b c : Nat} : add a b = .ok c ↔ a + b = c ∧ c < 0x10000000000000000 := by
  unfold add
  split <;> simp <;> omega

theorem sub_eq_ok_iff {a b c : Nat} : sub a b = .ok c ↔ b ≤ a ∧ a - b = c := by
  unfold sub
  split <;> simp <;> omega

/-- Three words are added from the left if their sum is a word. -/
theorem add_bind_add {a b c : Nat} (h : a + b + c < 0x10000000000000000) :
    (add a b >>= fun sum => add sum c) = .ok (a + b + c) := by
  have hfirst : add a b = .ok (a + b) := add_eq_ok_iff.mpr ⟨rfl, by omega⟩
  rw [hfirst]
  exact add_eq_ok_iff.mpr ⟨rfl, h⟩

/-- And from the right. -/
theorem bind_add_add {a b c : Nat} (h : a + (b + c) < 0x10000000000000000) :
    (add b c >>= fun sum => add a sum) = .ok (a + (b + c)) := by
  have hlast : add b c = .ok (b + c) := add_eq_ok_iff.mpr ⟨rfl, by omega⟩
  rw [hlast]
  exact add_eq_ok_iff.mpr ⟨rfl, h⟩

theorem bind_add_add_eq_error {a b c : Nat} (h : ¬ a + (b + c) < 0x10000000000000000) :
    (add b c >>= fun sum => add a sum) = .error .addition := by
  unfold add
  by_cases hlast : b + c < 0x10000000000000000
  · rw [if_pos hlast]
    exact if_neg h
  · rw [if_neg hlast]
    rfl

end Word

end FirstFit
