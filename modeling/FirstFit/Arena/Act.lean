/-
The steps that operations on an arena consist of.

An operation is a sequence of small steps, and where a step fails the operation stops: what
the steps before it have changed stays changed.  Two things can stop it.  Damage in the
memory is a `Corruption`; a check of the allocator on itself is a `Fault`.
-/
import FirstFit.Arena

namespace FirstFit

/-- Why an operation stopped before its end. -/
inductive Halt
  | corrupt (cause : Corruption)
  | fault (cause : Fault)
  deriving DecidableEq, Repr

/-- An operation on an arena. -/
abbrev Act (τ : Type) := EStateM Halt (Arena τ)

namespace Act

variable {τ α : Type}

/-- Stops over damage. -/
def corrupt (cause : Corruption) : Act τ α := throw (.corrupt cause)

/-- Goes on with a value if the memory is sound as far as it was looked at. -/
def sound : Except Corruption α → Act τ α
  | .ok a => pure a
  | .error cause => corrupt cause

/-- Goes on with a number if it is one. -/
def checked : Except Fault α → Act τ α
  | .ok a => pure a
  | .error cause => throw (.fault cause)

/-- Writes an event into the journal. -/
def note (event : Event) : Act τ Unit :=
  modify fun arena => { arena with journal := arena.journal.push event }

/-- The header at an offset, which must be one that can have a header. -/
def header (offset : Nat) : Act τ Header := do
  let arena ← get
  if arena.region.Admits offset then
    return arena.headerAt offset
  else
    corrupt (.linkOutside offset)

/-- Changes the header at an offset, which must be one that can have a header. -/
def amend (offset : Nat) (change : Header → Header) : Act τ Unit := do
  let h ← header offset
  modify fun arena => arena.setHeaderAt offset (change h)

/-- Makes sure that no header is written or wiped where there is no room for one. -/
def insist (offset : Nat) : Act τ Unit := do
  unless (← get).region.Admits offset do
    throw (.fault .headerOutside)

/-- Writes a new header. -/
def stamp (offset : Nat) (h : Header) : Act τ Unit := do
  insist offset
  modify fun arena => arena.setHeaderAt offset h

/-- Wipes the whole footprint of a header. -/
def erase (offset : Nat) : Act τ Unit := do
  insist offset
  modify fun arena => arena.wipeAt offset

/-- Changes the counters. -/
def tally (change : Stats → Except Fault Stats) : Act τ Unit := do
  let stats ← checked (change (← get).stats)
  modify fun arena => { arena with stats }

/-- Stops if anything is wrong with the chain. -/
def verify : Act τ Unit := do
  sound (← get).verify

section Tracing

variable [Tracer τ]

/-- Asks the tracer for a token, if callers are to be recorded. -/
def capture : Act τ (Option Token) := do
  let arena ← get
  if arena.config.capture then
    let (token, tracer) := Tracer.capture arena.tracer
    set { arena with tracer }
    return token
  else
    return none

/-- Gives a token back to the tracer. -/
def discard : Option Token → Act τ Unit
  | none => pure ()
  | some token => modify fun arena => { arena with tracer := Tracer.discard arena.tracer token }

end Tracing

/-! ### What the steps do -/

section Runs

variable {arena : Arena τ} {offset : Nat}

@[simp] theorem run_corrupt (c : Corruption) :
    (corrupt c : Act τ α).run arena = .error (.corrupt c) arena := rfl

@[simp] theorem run_sound_ok (a : α) : (sound (.ok a) : Act τ α).run arena = .ok a arena := rfl

@[simp] theorem run_sound_error (c : Corruption) :
    (sound (.error c) : Act τ α).run arena = .error (.corrupt c) arena := rfl

@[simp] theorem run_checked_ok (a : α) : (checked (.ok a) : Act τ α).run arena = .ok a arena := rfl

@[simp] theorem run_checked_error (f : Fault) :
    (checked (.error f) : Act τ α).run arena = .error (.fault f) arena := rfl

@[simp] theorem run_note (event : Event) :
    (note event).run arena = .ok () { arena with journal := arena.journal.push event } := rfl

theorem run_header (h : arena.region.Admits offset) :
    (header offset).run arena = .ok (arena.headerAt offset) arena := by
  simp [header, h]

theorem run_header_of_not_admits (h : ¬ arena.region.Admits offset) :
    (header offset).run arena = .error (.corrupt (.linkOutside offset)) arena := by
  simp [header, h]

theorem run_amend (change : Header → Header) (h : arena.region.Admits offset) :
    (amend offset change).run arena =
      .ok () (arena.setHeaderAt offset (change (arena.headerAt offset))) := by
  simp [amend, run_header h]

theorem run_amend_of_not_admits (change : Header → Header) (h : ¬ arena.region.Admits offset) :
    (amend offset change).run arena = .error (.corrupt (.linkOutside offset)) arena := by
  simp [amend, run_header_of_not_admits h]

theorem run_stamp (new : Header) (h : arena.region.Admits offset) :
    (stamp offset new).run arena = .ok () (arena.setHeaderAt offset new) := by
  simp [stamp, insist, h]

theorem run_stamp_of_not_admits (new : Header) (h : ¬ arena.region.Admits offset) :
    (stamp offset new).run arena = .error (.fault .headerOutside) arena := by
  simp [stamp, insist, h]

theorem run_erase (h : arena.region.Admits offset) :
    (erase offset).run arena = .ok () (arena.wipeAt offset) := by
  simp [erase, insist, h]

theorem run_tally {change : Stats → Except Fault Stats} {stats : Stats}
    (h : change arena.stats = .ok stats) :
    (tally change).run arena = .ok () { arena with stats } := by
  simp [tally, h]

theorem run_tally_of_error {change : Stats → Except Fault Stats} {f : Fault}
    (h : change arena.stats = .error f) : (tally change).run arena = .error (.fault f) arena := by
  simp [tally, h]

end Runs

end Act

end FirstFit
