/-
Layouts.

A layout is what a program asks of a heap: how many bytes, and what their address should be
a multiple of.
-/

namespace FirstFit

/-- A size and an alignment.  The size, rounded up to the alignment, is less than half of the
address space. -/
structure Layout where
  size : Nat
  align : Nat
  isPowerOfTwo : align.isPowerOfTwo
  size_le : size + align ≤ 0x8000000000000000
  deriving DecidableEq

/-- The layout of a size and an alignment, if there is one. -/
def Layout.of? (size align : Nat) : Option Layout :=
  if h : align.isPowerOfTwo ∧ size + align ≤ 0x8000000000000000 then
    some ⟨size, align, h.1, h.2⟩
  else
    none

end FirstFit
