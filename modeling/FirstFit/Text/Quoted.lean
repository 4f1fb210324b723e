/-
Text in quotes, so that a reader sees every character of it.

A quote or a backslash is written behind a backslash, and so are the few controls that
have a letter.  Any other character that would not show, or would join the quote before
it, is written by its code.
-/
import FirstFit.Text.Printable
import FirstFit.Text.GraphemeExtend

namespace FirstFit.Text

/-- The code of a character between braces, in lower-case hexadecimal digits. -/
def charCode (c : Char) : List Char :=
  '\\' :: 'u' :: '\x7b' :: Nat.toDigits 16 c.toNat ++ ['\x7d']

/-- A character as it is written between quotes. -/
def quotedChar (c : Char) : List Char :=
  if c = '\x00' then ['\\', '0']
  else if c = '\t' then ['\\', 't']
  else if c = '\n' then ['\\', 'n']
  else if c = '\r' then ['\\', 'r']
  else if c = '\\' ∨ c = '"' then ['\\', c]
  else if isPrintable c && !isAttached c then [c]
  else charCode c

/-- The text in quotes. -/
def quoted (text : String) : String :=
  String.ofList ('"' :: text.toList.flatMap quotedChar ++ ['"'])

end FirstFit.Text
