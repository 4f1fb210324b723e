/-
Numbers in base sixteen, as addresses and offsets are written.
-/
namespace FirstFit.Text

/-- `n` in lower-case hexadecimal digits behind `0x`, without leading zeros. -/
def hex (n : Nat) : String := "0x" ++ String.ofList (Nat.toDigits 16 n)

end FirstFit.Text
