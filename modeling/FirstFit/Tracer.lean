/-
Tracers.

An arena does not know what a snapshot of a caller is.  It asks its tracer for one at
each allocation, keeps the token it gets in the header of the block, and hands the token
back when the block is released.
-/
import FirstFit.Token

namespace FirstFit

/-- A collaborator that keeps snapshots of callers. -/
class Tracer (τ : Type) where
  /-- Takes a snapshot of the current caller; no token says that nothing was recorded. -/
  capture : τ → Option Token × τ
  /-- Drops the snapshot of a token. -/
  discard : τ → Token → τ
  /-- The text of a snapshot, empty if there is none; nothing if it cannot be written. -/
  describe? : τ → Token → Option String

/-- The tracer that never records anything. -/
structure Silent where
  deriving DecidableEq, Inhabited

instance : Tracer Silent where
  capture tracer := (none, tracer)
  discard tracer _ := tracer
  describe? _ _ := some ""

end FirstFit
