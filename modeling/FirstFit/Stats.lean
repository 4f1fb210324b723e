/-
What an arena counts.
-/
import FirstFit.Word

namespace FirstFit

/-- Counters of what is handed out.  Sizes are those of the blocks, not of the requests. -/
structure Stats where
  /-- Bytes of payload in allocated blocks. -/
  used : Nat := 0
  /-- The highest `used` since the last reset. -/
  maxUsed : Nat := 0
  /-- Allocated blocks. -/
  live : Nat := 0
  /-- The highest `live` since the last reset. -/
  maxLive : Nat := 0
  /-- Allocations that succeeded. -/
  allocs : Nat := 0
  /-- Releases that succeeded. -/
  releases : Nat := 0
  deriving DecidableEq, Repr, Inhabited

namespace Stats

/-- `size` more bytes are in use. -/
def addUsed (size : Nat) (s : Stats) : Except Fault Stats := do
  return { s with used := ← Word.add s.used size }

/-- One more block is allocated. -/
def addLive (s : Stats) : Except Fault Stats := do
  return { s with live := ← Word.add s.live 1 }

/-- One more allocation has succeeded. -/
def addAlloc (s : Stats) : Except Fault Stats := do
  return { s with allocs := ← Word.add s.allocs 1 }

/-- `size` bytes are no longer in use. -/
def dropUsed (size : Nat) (s : Stats) : Except Fault Stats := do
  return { s with used := ← Word.sub s.used size }

/-- One block is no longer allocated. -/
def dropLive (s : Stats) : Except Fault Stats := do
  return { s with live := ← Word.sub s.live 1 }

/-- One more release has succeeded. -/
def addRelease (s : Stats) : Except Fault Stats := do
  return { s with releases := ← Word.add s.releases 1 }

/-- The peaks take notice of what is in use now. -/
def raisePeaks (s : Stats) : Stats :=
  { s with maxUsed := max s.maxUsed s.used, maxLive := max s.maxLive s.live }

/-- The peaks fall to what is in use now. -/
def resetPeaks (s : Stats) : Stats :=
  { s with maxUsed := s.used, maxLive := s.live }

end Stats

end FirstFit
