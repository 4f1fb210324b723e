/-
Clients that keep to the rules.

A client may ask for any number of bytes, may give back what it still has, and may write to
what it still has.  `Allows` says this of one step in one state of the arena, and `Runs` of
a whole history.  What holds after every run holds however an arena is used, short of a
client that breaks the rules.
-/
import FirstFit.Arena.Allocate
import FirstFit.Arena.Release

namespace FirstFit

/-- Something a client does. -/
inductive Step
  /-- Asks for a number of bytes. -/
  | allocate (request : Nat)
  /-- Gives an address back. -/
  | release (address : Nat)
  /-- Starts the peak counters anew. -/
  | resetPeaks
  /-- Writes bytes from an address on. -/
  | write (address : Nat) (bytes : List UInt8)
  deriving DecidableEq, Repr

namespace Arena

variable {τ : Type}

/-- Whether a block of the chain is allocated with its payload at an address. -/
def Live (arena : Arena τ) (b : Block) (address : Nat) : Prop :=
  b ∈ arena.blocks ∧ b.isFree = false ∧ address = arena.region.payload b.offset

/-- Whether a client that keeps to the rules can take a step. -/
def Allows (arena : Arena τ) : Step → Prop
  | .allocate request => request < 0x10000000000000000
  | .release address => address = 0 ∨ ∃ b, arena.Live b address
  | .resetPeaks => True
  | .write address bytes =>
    ∃ b payload, arena.Live b payload ∧ payload ≤ address ∧
      address + bytes.length ≤ payload + b.size

variable [Tracer τ]

/-- What a step does, and the address it answers with, if any. -/
def step : Step → Act τ (Option Nat)
  | .allocate request => allocate request
  | .release address => do
    release address
    return none
  | .resetPeaks => do
    modify resetPeaks
    return none
  | .write address bytes => do
    modify fun arena => { arena with memory := arena.memory.write address bytes }
    return none

/-- A history of steps that were allowed and came to their end, from one state to another,
with the answers. -/
inductive Runs : Arena τ → List (Step × Option Nat) → Arena τ → Prop
  | nil (arena : Arena τ) : Runs arena [] arena
  | cons {arena mid last : Arena τ} {s : Step} {answer : Option Nat}
      {rest : List (Step × Option Nat)} :
      arena.Allows s → (step s).run arena = .ok answer mid → Runs mid rest last →
      Runs arena ((s, answer) :: rest) last

/-- Histories follow each other. -/
theorem Runs.append {arena mid last : Arena τ} {xs ys : List (Step × Option Nat)}
    (hxs : Runs arena xs mid) (hys : Runs mid ys last) : Runs arena (xs ++ ys) last := by
  induction hxs with
  | nil => exact hys
  | cons hallows hstep _ ih => exact .cons hallows hstep (ih hys)

end Arena

end FirstFit
