/-
Damage and misuse that an arena can notice.

Offsets count from the base of the arena; addresses are absolute.
-/
import FirstFit.Text.Hex

namespace FirstFit

open Text (hex)

/-- What is wrong with a chain of headers, or with a pointer that was given back. -/
inductive Corruption
  /-- The first word of a header is not the leading canary. -/
  | leadingCanary (offset : Nat)
  /-- The last word of a header is not the trailing canary. -/
  | trailingCanary (offset : Nat)
  /-- A header is marked neither free nor allocated. -/
  | flag (offset value : Nat)
  /-- The first header names a predecessor. -/
  | firstBackLink (found : Nat)
  /-- A header names another predecessor than the one it was reached from. -/
  | backLink (offset expected found : Nat)
  /-- No header can start at the offset that a link names. -/
  | linkOutside (offset : Nat)
  /-- A block does not end where the next one starts, or the last one not with the arena. -/
  | tiling (offset : Nat)
  /-- Two free blocks follow each other; the offset is that of the first. -/
  | unmerged (offset : Nat)
  /-- A released pointer is none the arena could have handed out. -/
  | foreignPointer (address : Nat)
  /-- A released pointer is that of a free block. -/
  | doubleRelease (address : Nat)
  deriving DecidableEq, Repr

namespace Corruption

/-- The text for a reader. -/
def message : Corruption → String
  | leadingCanary offset =>
    "leading canary overwritten in header at offset " ++ hex offset
  | trailingCanary offset =>
    "trailing canary overwritten in header at offset " ++ hex offset
  | flag offset value =>
    "allocation flag has illegal value " ++ toString value ++ " in header at offset " ++ hex offset
  | firstBackLink found =>
    "first header links back to offset " ++ hex found
  | backLink offset expected found =>
    "header at offset " ++ hex offset ++ " links back to " ++ hex found ++ ", expected "
      ++ hex expected
  | linkOutside offset =>
    "link to offset " ++ hex offset ++ " leaves the arena"
  | tiling offset =>
    "header at offset " ++ hex offset ++ " does not tile with its successor"
  | unmerged offset =>
    "free block at offset " ++ hex offset ++ " was not merged with its free successor"
  | foreignPointer address =>
    "release of pointer " ++ hex address ++ " outside of managed space"
  | doubleRelease address =>
    "release of unallocated block at " ++ hex address

/-- The line a process leaves behind when it ends over the damage. -/
def diagnostic (c : Corruption) : String :=
  "bufalloc: FATAL: " ++ c.message ++ "\n"

end Corruption

end FirstFit
