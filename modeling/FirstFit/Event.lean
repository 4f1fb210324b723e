/-
What an arena tells about its work.

An event is something that happened, with the numbers that belong to it; its text and the
level it is logged at follow from that.
-/
import FirstFit.Corruption

namespace FirstFit

open Text (hex)

/-- How urgent a record is. -/
inductive Level
  | error
  | warn
  | debug
  | trace
  deriving DecidableEq, Repr

/-- The name of a level. -/
def Level.name : Level → String
  | error => "ERROR"
  | warn => "WARN"
  | debug => "DEBUG"
  | trace => "TRACE"

/-- Something that happened. -/
inductive Event
  /-- An arena was laid out. -/
  | created (capacity base footprint : Nat)
  /-- A buffer has no room for an arena. -/
  | tooSmall (size : Nat)
  /-- No free block is as long as a request, rounded up. -/
  | noRoom (request length : Nat)
  /-- What a request leaves of a block became a block of its own. -/
  | split (block rest : Nat)
  /-- A request was answered by a block. -/
  | allocated (request block size : Nat)
  /-- The block of a pointer was given back. -/
  | released (pointer block size : Nat)
  /-- A free block became part of the one before it. -/
  | merged (victim into : Nat)
  /-- A heap was asked to record callers. -/
  | captureUnavailable
  /-- Damage was found that the process will not survive. -/
  | corrupted (cause : Corruption)
  deriving DecidableEq, Repr

namespace Event

/-- The level an event is logged at. -/
def level : Event → Level
  | created .. | tooSmall _ | split .. | merged .. => .debug
  | noRoom .. | allocated .. | released .. => .trace
  | captureUnavailable => .warn
  | corrupted _ => .error

/-- The text of an event. -/
def message : Event → String
  | created capacity base footprint =>
    "arena of " ++ toString capacity ++ " bytes at " ++ hex base ++ ", header "
      ++ toString footprint ++ " bytes"
  | tooSmall size =>
    "buffer of " ++ toString size ++ " bytes too small for an arena"
  | noRoom request length =>
    "allocate(" ++ toString request ++ "): no free block of " ++ toString length ++ " bytes"
  | split block rest =>
    "split block " ++ hex block ++ ", remainder at " ++ hex rest
  | allocated request block size =>
    "allocate(" ++ toString request ++ ") -> block " ++ hex block ++ " of " ++ toString size
      ++ " bytes"
  | released pointer block size =>
    "release(" ++ hex pointer ++ ") -> block " ++ hex block ++ " of " ++ toString size ++ " bytes"
  | merged victim into =>
    "merged block " ++ hex victim ++ " into " ++ hex into
  | captureUnavailable =>
    "call-site capture is not available through the global allocator"
  | corrupted cause =>
    "heap corruption: " ++ cause.message

/-- The line of an event in a log. -/
def line (event : Event) : String := event.level.name ++ " " ++ event.message

end Event

end FirstFit
