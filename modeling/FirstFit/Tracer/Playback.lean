/-
A tracer that follows a script.

It hands out the tokens it was given, one for each capture, and remembers what was asked of
it.  As a script can be any list, no tracer answers in a way that this one could not.
-/
import FirstFit.Tracer

namespace FirstFit

/-- A script of captures, and what has become of it. -/
structure Playback where
  /-- What the coming captures answer; nothing is recorded after the last. -/
  script : List (Option Token)
  /-- The tokens whose snapshots cannot be written. -/
  unwritable : List Token := []
  /-- How many captures there were. -/
  captures : Nat := 0
  /-- The tokens that were given back, the last one last. -/
  discarded : List Token := []
  deriving DecidableEq

instance : Tracer Playback where
  capture playback :=
    (playback.script.head?.join,
      { playback with script := playback.script.tail, captures := playback.captures + 1 })
  discard playback token := { playback with discarded := playback.discarded ++ [token] }
  describe? playback token :=
    if token ∈ playback.unwritable then none else some ("<" ++ toString token.toNat ++ ">")

end FirstFit
