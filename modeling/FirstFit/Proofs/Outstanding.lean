/-
Numbers that are out.

A slot store is asked for snapshots and given numbers back, in any order, and the numbers need not
be its own.  `Usage` keeps beside the store what its callers can tell without looking into it: which
numbers they got and have not given back since.

One call keeps the two together, because a number that is out is that of a full slot
(`SlotStore.Issued`), and it makes the row of slots as long as what it leaves in the store, if that
is longer than the row was (`Usage.size_next`).  From these two facts the rest follows for any list
of calls (`Usage.store_follows_numbers`).
-/
import Mathlib.Data.List.Infix
import Mathlib.Order.Bounds.Basic
import FirstFit.Proofs.Slots

namespace FirstFit

namespace SlotStore

variable {store : SlotStore} {numbers : List Nat} {n : Nat}

/-- A number without a snapshot can be given back any number of times. -/
theorem discard_eq_self (hnone : store.snapshot? n = none) : store.discard n = store := by
  rcases Sound.discard_cases store n with ⟨i, snapshot, rfl, hslot, -⟩ | ⟨-, hdiscard⟩
  · simp [snapshot?, hslot] at hnone
  · exact hdiscard

/-- Whatever number is given back is not out any more. -/
theorem Issued.discard_filter (h : store.Issued numbers) (n : Nat) :
    (store.discard n).Issued (numbers.filter (· != n)) := by
  by_cases hn : n ∈ numbers
  · have herase := (h.perm (List.perm_cons_erase hn)).discard
    rw [h.distinct.erase_eq_filter] at herase
    exact herase
  · have hnone : store.snapshot? n = none := by
      rw [← Option.not_isSome_iff_eq_none, ← h.mem_iff]
      exact hn
    have hsame : numbers.filter (· != n) = numbers :=
      List.filter_eq_self.mpr fun k hk => bne_iff_ne.mpr (ne_of_mem_of_not_mem hk hn)
    rw [hsame, discard_eq_self hnone]
    exact h

theorem live_le_size (store : SlotStore) : store.live ≤ store.slots.size :=
  Nat.sub_le _ _

/-- A slot is only added if no slot is vacant. -/
theorem Sound.size_capture (h : store.Sound) :
    store.capture.2.slots.size = max store.slots.size store.capture.2.live := by
  have hlive := h.live_capture
  have hle := h.length_le
  rcases h.capture_cases with ⟨i, vacant, hvacant, -, hcapture⟩ | ⟨hvacant, hcapture⟩
  · have hbound : store.live + 1 ≤ store.slots.size := by
      rw [hvacant, List.length_cons] at hle
      rw [live, hvacant, List.length_cons]
      omega
    rw [hlive, max_eq_left hbound, hcapture, Array.size_setIfInBounds]
  · have hfull : store.live = store.slots.size := by
      rw [live, hvacant, List.length_nil, Nat.sub_zero]
    rw [hlive, hfull, max_eq_right (Nat.le_succ _), hcapture, Array.size_push]

theorem size_discard (store : SlotStore) (n : Nat) :
    (store.discard n).slots.size = store.slots.size := by
  rcases Sound.discard_cases store n with ⟨i, snapshot, -, -, hdiscard⟩ | ⟨-, hdiscard⟩
  · rw [hdiscard, Array.size_setIfInBounds]
  · rw [hdiscard]

/-- What a store can be asked for. -/
inductive Call where
  | capture
  /-- The number need not be one that the store gave out. -/
  | discard (number : Nat)

/-- A store, and the numbers it gave out that were not given back since. -/
structure Usage where
  store : SlotStore := {}
  out : List Nat := []

namespace Usage

variable {usage : Usage}

/-- One call, and what its caller makes of it. -/
def next (usage : Usage) : Call → Usage
  | .capture => ⟨usage.store.capture.2, usage.store.capture.1 :: usage.out⟩
  | .discard number => ⟨usage.store.discard number, usage.out.filter (· != number)⟩

/-- A new store after some calls. -/
def after (calls : List Call) : Usage := calls.foldl next {}

theorem after_concat (calls : List Call) (call : Call) :
    after (calls ++ [call]) = (after calls).next call := by
  unfold after
  rw [List.foldl_append]
  rfl

/-! ### One call -/

theorem issued_next (h : usage.store.Issued usage.out) (call : Call) :
    (usage.next call).store.Issued (usage.next call).out := by
  cases call with
  | capture => exact h.capture
  | discard number => exact h.discard_filter number

/-- A row of slots never gets longer than what is put into it. -/
theorem size_next (h : usage.store.Sound) (call : Call) :
    (usage.next call).store.slots.size =
      max usage.store.slots.size (usage.next call).store.live := by
  cases call with
  | capture => exact h.size_capture
  | discard number =>
    have hlive := live_le_size (usage.store.discard number)
    rw [size_discard] at hlive
    show (usage.store.discard number).slots.size = max _ (usage.store.discard number).live
    rw [size_discard, max_eq_left hlive]

/-! ### Any calls -/

theorem issued_after (calls : List Call) : (after calls).store.Issued (after calls).out := by
  induction calls using List.reverseRecOn with
  | nil => exact issued_empty
  | append_singleton before call ih =>
    rw [after_concat]
    exact issued_next ih call

/-- The row is as long as the store ever was full. -/
theorem isGreatest_size (calls : List Call) :
    IsGreatest {n | ∃ before, before <+: calls ∧ (after before).store.live = n}
      (after calls).store.slots.size := by
  induction calls using List.reverseRecOn with
  | nil =>
    refine ⟨⟨[], List.prefix_refl _, rfl⟩, ?_⟩
    intro n hn
    obtain ⟨before, hbefore, rfl⟩ := hn
    rw [List.prefix_nil.mp hbefore]
    exact Nat.le_refl _
  | append_singleton calls call ih =>
    have hset : {n | ∃ before, before <+: calls ++ [call] ∧ (after before).store.live = n} =
        insert (after (calls ++ [call])).store.live
          {n | ∃ before, before <+: calls ∧ (after before).store.live = n} := by
      ext n
      simp only [List.prefix_concat_iff, Set.mem_ofPred_eq, Set.mem_insert_iff, or_and_right,
        exists_or, exists_eq_left]
      exact or_congr_left eq_comm
    rw [hset, after_concat, size_next (issued_after calls).toSound call, max_comm]
    exact ih.insert _

/-- What the numbers that are out tell about the store. -/
structure Faithful (usage : Usage) : Prop where
  /-- No number is out twice, and the next one is none of them. -/
  distinct : usage.out.Nodup
  fresh : usage.store.capture.1 ≠ 0 ∧ usage.store.capture.1 ∉ usage.out
  /-- As long as the next number is a word, it is the token that the tracer gives. -/
  token : usage.store.capture.1 < 0x10000000000000000 →
    ∃ token, Tracer.capture usage.store = (some token, usage.store.capture.2) ∧
      token.toNat = usage.store.capture.1
  /-- A token that is not out changes nothing, and as little does any other number. -/
  harmless : (∀ token : Token, token.toNat ∉ usage.out →
    Tracer.discard usage.store token = usage.store) ∧
      ∀ n ∉ usage.out, usage.store.discard n = usage.store
  /-- The difference that counts the snapshots is one of words. -/
  live_eq : usage.store.live = usage.out.length
  vacant_le : usage.store.vacant.length ≤ usage.store.slots.size
  /-- The empty slots are listed, each once, and are filled before a new one is made. -/
  vacant_nodup : usage.store.vacant.Nodup
  mem_vacant_iff : ∀ i, i ∈ usage.store.vacant ↔ usage.store.slots[i]? = some none
  refilled : usage.store.vacant ≠ [] →
    usage.store.capture.2.slots.size = usage.store.slots.size

theorem faithful_of_issued (h : usage.store.Issued usage.out) : usage.Faithful := by
  have hnone : ∀ n ∉ usage.out, usage.store.snapshot? n = none := by
    intro n hn
    rw [← Option.not_isSome_iff_eq_none, ← h.mem_iff]
    exact hn
  have hpos : 0 < usage.store.capture.1 := Sound.capture_pos usage.store
  have hsame : ∀ n ∉ usage.out, usage.store.discard n = usage.store :=
    fun n hn => discard_eq_self (hnone n hn)
  refine ⟨h.distinct, ⟨hpos.ne', ?_⟩, fun hlt => ?_, ⟨fun token => hsame token.toNat, hsame⟩,
    h.live_eq, h.length_le, h.nodup, h.mem_vacant_iff, fun hvacant => ?_⟩
  · rw [h.mem_iff, h.snapshot?_capture_before]
    simp
  · obtain ⟨token, htoken, hnumber⟩ := Token.exists_ofNat? hpos hlt
    exact ⟨token, Prod.ext htoken rfl, hnumber⟩
  · rcases h.capture_cases with ⟨i, vacant, -, -, hcapture⟩ | ⟨hempty, -⟩
    · rw [hcapture, Array.size_setIfInBounds]
    · exact absurd hempty hvacant

/-- **Whatever a new store is asked for, it is told by the numbers that are out.**  They are
distinct, as many as there are snapshots, the next one is none of them, and giving back any other
changes nothing; the vacant slots are the empty ones, each listed once; and there are as many slots
as there ever were snapshots at a time. -/
theorem store_follows_numbers (calls : List Call) :
    (after calls).Faithful ∧
      IsGreatest {n | ∃ before, before <+: calls ∧ (after before).store.live = n}
        (after calls).store.slots.size :=
  ⟨faithful_of_issued (issued_after calls), isGreatest_size calls⟩

/-- A slot that was emptied is filled again, and only once, however often it was emptied. -/
example :
    (after [.capture, .capture, .discard 1, .discard 1, .discard 9, .capture, .capture]).out =
      [3, 1, 2] := by
  decide

end Usage

end SlotStore

end FirstFit
