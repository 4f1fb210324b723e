/-
Operations that do not return over damage.

A caller that asked for memory has no use for a report on the chain, and nothing can be
trusted any more, so the process ends.  `Abort` is what it leaves behind.
-/
import FirstFit.Arena.Allocate
import FirstFit.Arena.Release

namespace FirstFit

/-- The end of a process: what it still logs, and what it writes to its error output. -/
structure Abort where
  journal : List Event
  diagnostic : String
  deriving DecidableEq, Repr

namespace Corruption

/-- The end over damage, announced in the log. -/
def fatal (c : Corruption) : Abort := ⟨[.corrupted c], c.diagnostic⟩

/-- The end over damage where the log must not be used. -/
def abort (c : Corruption) : Abort := ⟨[], c.diagnostic⟩

end Corruption

/-- Why an operation never returned. -/
inductive Exit
  | abort (left : Abort)
  | fault (cause : Fault)
  deriving DecidableEq, Repr

namespace Act

/-- The same operation, with damage ending the process. -/
def orEnd (ending : Corruption → Abort) (act : Act τ α) : EStateM Exit (Arena τ) α := fun arena =>
  match act.run arena with
  | .ok a arena => .ok a arena
  | .error (.corrupt c) arena => .error (.abort (ending c)) arena
  | .error (.fault f) arena => .error (.fault f) arena

end Act

namespace Arena

variable {τ : Type} [Tracer τ]

/-- Allocates, or ends the process. -/
def allocateOrAbort (request : Nat) : EStateM Exit (Arena τ) (Option Nat) :=
  (allocate request).orEnd Corruption.fatal

/-- Releases, or ends the process. -/
def releaseOrAbort (address : Nat) : EStateM Exit (Arena τ) Unit :=
  (release address).orEnd Corruption.fatal

end Arena

end FirstFit
