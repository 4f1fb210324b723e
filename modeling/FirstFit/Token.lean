/-
Tokens.

A tracer names each snapshot it keeps by a token, and the header of an allocated
block has one word for it.  Zero in that word says that nothing was recorded, so a
token is any other word.
-/
namespace FirstFit

/-- The name of a snapshot: a word other than zero. -/
structure Token where
  word : UInt64
  ne_zero : word ≠ 0
  deriving DecidableEq

namespace Token

/-- The token a word holds, if any. -/
def ofWord? (w : UInt64) : Option Token :=
  if h : w ≠ 0 then some ⟨w, h⟩ else none

/-- The word that holds a token, or the lack of one. -/
def toWord : Option Token → UInt64
  | none => 0
  | some token => token.word

/-- The token numbered `n`, if `n` is a word other than zero. -/
def ofNat? (n : Nat) : Option Token :=
  if n < 0x10000000000000000 then ofWord? (UInt64.ofNat n) else none

/-- The number of a token. -/
def toNat (token : Token) : Nat := token.word.toNat

@[simp] theorem ofWord?_toWord (t : Option Token) : ofWord? (toWord t) = t := by
  cases t with
  | none => rfl
  | some t => simp [ofWord?, toWord, t.ne_zero]

@[simp] theorem toWord_ofWord? (w : UInt64) : toWord (ofWord? w) = w := by
  unfold ofWord?
  split
  · rfl
  · next h => simpa [toWord, eq_comm] using h

end Token

end FirstFit
