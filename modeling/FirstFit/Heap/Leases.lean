/-
The clients of a heap.

However many clients share a heap, each call comes to its end before the next one starts, so
what all of them do together is one sequence of calls.  What they have is a list of leases: a
client may use the memory of a lease as its own, until it gives the lease back.  `Ledger` is
the list as the clients know it, and no look into the heap is needed to keep it.  What they
may do is written in terms of the ledger alone, and so is what they may rely on.
-/
import FirstFit.Heap

namespace FirstFit

/-- Memory that a client was handed, and has not given back. -/
structure Lease where
  address : Nat
  layout : Layout
  /-- What the client will find there. -/
  bytes : List UInt8
  deriving DecidableEq

namespace Lease

/-- The lease after its holder wrote bytes at some distance from its start. -/
def written (lease : Lease) (distance : Nat) (bytes : List UInt8) : Lease :=
  { lease with
    bytes := lease.bytes.take distance ++ bytes ++ lease.bytes.drop (distance + bytes.length) }

/-- Whether the lease covers bytes from an address on. -/
def Covers (lease : Lease) (address count : Nat) : Prop :=
  lease.address ≤ address ∧ address + count ≤ lease.address + lease.layout.size

instance (lease : Lease) (address count : Nat) : Decidable (lease.Covers address count) :=
  inferInstanceAs (Decidable (_ ∧ _))

/-- Whether the lease is the one of an address and a layout. -/
def IsFor (lease : Lease) (address : Nat) (layout : Layout) : Prop :=
  lease.address = address ∧ lease.layout = layout

instance (lease : Lease) (address : Nat) (layout : Layout) :
    Decidable (lease.IsFor address layout) :=
  inferInstanceAs (Decidable (_ ∧ _))

end Lease

namespace Heap

/-- Something that is done with a heap. -/
inductive Call
  /-- Installs an arena. -/
  | init (config : Config) (memory : Memory)
  | alloc (layout : Layout)
  | allocZeroed (layout : Layout)
  | realloc (address : Nat) (layout : Layout) (newSize : Nat)
  | dealloc (address : Nat) (layout : Layout)
  /-- Writes to memory, for which the heap is not asked. -/
  | write (address : Nat) (bytes : List UInt8)

namespace Call

/-- What a call does, and the address it answers with, if any. -/
def act : Call → HeapAct (Option Nat)
  | init config memory => do
    Heap.init config memory
    return none
  | alloc layout => Heap.alloc layout
  | allocZeroed layout => Heap.allocZeroed layout
  | realloc address layout newSize => Heap.realloc address layout newSize
  | dealloc address layout => do
    Heap.dealloc address layout
    return none
  | write address bytes => do
    modify (modifyMemory (·.write address bytes))
    return none

/-- The layout a call asks memory for, if it asks for any. -/
def layout? : Call → Option Layout
  | alloc layout => some layout
  | allocZeroed layout => some layout
  | realloc _ layout newSize => Layout.of? newSize layout.align
  | _ => none

end Call

/-- What the clients know: what was installed last, and who has what. -/
structure Ledger where
  installed : Option (Config × Memory) := none
  leases : List Lease := []

namespace Ledger

/-- Whether clients that keep to the rules can make a call.  They give back or have moved only
what they have, and with its layout, and they write only to what they have. -/
def Allows (ledger : Ledger) : Call → Prop
  | .init config memory =>
    ∃ arena, Arena.create { config with capture := false } memory Silent.mk = .ok arena
  | .alloc _ => True
  | .allocZeroed _ => True
  | .realloc address layout newSize =>
    (∃ lease ∈ ledger.leases, lease.IsFor address layout) ∧
      (Layout.of? newSize layout.align).isSome
  | .dealloc address layout => ∃ lease ∈ ledger.leases, lease.IsFor address layout
  | .write address bytes => ∃ lease ∈ ledger.leases, lease.Covers address bytes.length

/-- A new lease. -/
def grant (ledger : Ledger) (lease : Lease) : Ledger :=
  { ledger with leases := lease :: ledger.leases }

/-- The ledger without the lease of an address and a layout. -/
def giveBack (ledger : Ledger) (address : Nat) (layout : Layout) : Ledger :=
  match ledger.leases.find? fun lease => lease.IsFor address layout with
  | none => ledger
  | some lease => { ledger with leases := ledger.leases.erase lease }

/-- A lease is moved to another address, with a new size: as much of it as fits is there, and
what comes behind it is taken as it is found. -/
def move (ledger : Ledger) (address : Nat) (layout layout' : Layout) (moved : Nat)
    (found : List UInt8) : Ledger :=
  match ledger.leases.find? fun lease => lease.IsFor address layout with
  | none => ledger
  | some lease =>
    { ledger with
      leases := ⟨moved, layout', lease.bytes.take layout'.size ++ found.drop layout.size⟩ ::
        ledger.leases.erase lease }

/-- The ledger after bytes were written to a lease. -/
def overwrite (ledger : Ledger) (address : Nat) (bytes : List UInt8) : Ledger :=
  match ledger.leases.find? fun lease => lease.Covers address bytes.length with
  | none => ledger
  | some lease =>
    { ledger with
      leases := lease.written (address - lease.address) bytes :: ledger.leases.erase lease }

/-- The ledger after a call with its answer.  The bytes of a new lease are what its holder finds
in the heap as it is then, if the call promises nothing about them. -/
def after (ledger : Ledger) (heap : Heap) : Call → (answer : Option Nat) → Ledger
  | .init config memory, _ => { installed := some (config, memory) }
  | .alloc layout, some address =>
    ledger.grant ⟨address, layout, heap.read address layout.size⟩
  | .allocZeroed layout, some address =>
    ledger.grant ⟨address, layout, List.replicate layout.size 0⟩
  | .realloc address layout newSize, some moved =>
    match Layout.of? newSize layout.align with
    | none => ledger
    | some layout' => ledger.move address layout layout' moved (heap.read moved newSize)
  | .dealloc address layout, _ => ledger.giveBack address layout
  | .write address bytes, _ => ledger.overwrite address bytes
  | _, none => ledger

end Ledger

/-- A history of calls that were allowed and came to their end, from one state of the heap and
the ledger to another, with the answers. -/
inductive Runs : Heap → Ledger → List (Call × Option Nat) → Heap → Ledger → Prop
  | nil (heap : Heap) (ledger : Ledger) : Runs heap ledger [] heap ledger
  | cons {heap mid last : Heap} {ledger final : Ledger} {call : Call} {answer : Option Nat}
      {rest : List (Call × Option Nat)} :
      ledger.Allows call → call.act.run heap = .ok answer mid →
        Runs mid (ledger.after mid call answer) rest last final →
        Runs heap ledger ((call, answer) :: rest) last final

end Heap

end FirstFit
