/-
Snapshots in slots.

A snapshot is put into the slot that fell vacant last, or into a new one if there is no
vacant slot, and is known by the number of its slot, counted from one.
-/
import FirstFit.Tracer

namespace FirstFit

/-- What is kept of a caller: the how-manieth one it was to be recorded. -/
structure Snapshot where
  ordinal : Nat
  deriving DecidableEq, Repr

/-- The text of a snapshot, never empty. -/
def Snapshot.text (snapshot : Snapshot) : String := "caller " ++ toString snapshot.ordinal

/-- A row of slots, each with a snapshot or empty. -/
structure SlotStore where
  slots : Array (Option Snapshot) := #[]
  /-- The indices of the empty slots, the one that was emptied last in front. -/
  vacant : List Nat := []
  /-- How many snapshots have been taken so far. -/
  taken : Nat := 0
  deriving DecidableEq

namespace SlotStore

instance : Inhabited SlotStore := ⟨{}⟩

/-- How many snapshots the store holds. -/
def live (store : SlotStore) : Nat := store.slots.size - store.vacant.length

/-- Stores a new snapshot and gives the number of its slot. -/
def capture (store : SlotStore) : Nat × SlotStore :=
  let snapshot : Snapshot := ⟨store.taken⟩
  match store.vacant with
  | index :: vacant =>
    (index + 1, ⟨store.slots.setIfInBounds index (some snapshot), vacant, store.taken + 1⟩)
  | [] => (store.slots.size + 1, ⟨store.slots.push (some snapshot), [], store.taken + 1⟩)

/-- Empties the slot of a number; one that is empty or does not exist is left alone. -/
def discard (store : SlotStore) : Nat → SlotStore
  | 0 => store
  | index + 1 =>
    match store.slots[index]? with
    | some (some _) =>
      { store with slots := store.slots.setIfInBounds index none, vacant := index :: store.vacant }
    | _ => store

/-- The snapshot in the slot of a number. -/
def snapshot? (store : SlotStore) : Nat → Option Snapshot
  | 0 => none
  | index + 1 => store.slots[index]?.join

end SlotStore

instance : Tracer SlotStore where
  capture store := (Token.ofNat? store.capture.1, store.capture.2)
  discard store token := store.discard token.toNat
  describe? store token := some ((store.snapshot? token.toNat).elim "" Snapshot.text)

end FirstFit
