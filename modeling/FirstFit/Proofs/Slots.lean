/-
Slots that hold what was put into them.

A slot store keeps its empty slots in a list of their own, so that none has to be searched
for.  `SlotStore.Sound` says that the list is right, and both operations keep it so.  What a
store is asked for is then settled: a capture fills a slot that was empty, a discard empties
the one slot it names, and the other slots hold what they held.

`SlotStore.Issued` counts this from outside: the numbers that were given out and not given
back are those of the full slots, each once, and the store has as many snapshots.
-/
import Mathlib.Data.List.Perm.Subperm
import FirstFit.Tracer.SlotStore

namespace FirstFit

/-- A number that is not zero, and is a word, makes a token. -/
theorem Token.exists_ofNat? {n : Nat} (hpos : 0 < n) (hlt : n < 0x10000000000000000) :
    ∃ token, Token.ofNat? n = some token ∧ token.toNat = n := by
  have hword : (UInt64.ofNat n).toNat = n := UInt64.toNat_ofNat_of_lt' hlt
  have hne : UInt64.ofNat n ≠ 0 := by
    intro hzero
    rw [hzero] at hword
    simp at hword
    omega
  refine ⟨⟨UInt64.ofNat n, hne⟩, ?_, hword⟩
  rw [ofNat?, if_pos hlt, ofWord?, dif_pos hne]

namespace SlotStore

variable {store : SlotStore} {i n k : Nat} {numbers numbers' : List Nat}

/-- The empty slots are those that are listed as vacant, each once. -/
structure Sound (store : SlotStore) : Prop where
  nodup : store.vacant.Nodup
  mem_vacant_iff : ∀ i, i ∈ store.vacant ↔ store.slots[i]? = some none
  /-- A slot is made only where a snapshot is taken. -/
  size_le : store.slots.size ≤ store.taken

theorem sound_empty : Sound {} :=
  ⟨List.nodup_nil, by simp, Nat.le_refl _⟩

namespace Sound

theorem lt_size (h : store.Sound) (hi : i ∈ store.vacant) : i < store.slots.size := by
  obtain ⟨hlt, -⟩ := Array.getElem?_eq_some_iff.mp ((h.mem_vacant_iff i).mp hi)
  exact hlt

/-- There are no more vacant slots than slots. -/
theorem length_le (h : store.Sound) : store.vacant.length ≤ store.slots.size := by
  have hsub : store.vacant ⊆ List.range store.slots.size := by
    intro i hi
    exact List.mem_range.mpr (h.lt_size hi)
  have hle := (List.Nodup.subperm h.nodup hsub).length_le
  rw [List.length_range] at hle
  exact hle

/-! ### Captures -/

/-- The slot a capture fills: the one that fell vacant last, or the one behind all others. -/
theorem capture_cases (h : store.Sound) :
    (∃ i vacant, store.vacant = i :: vacant ∧ i < store.slots.size ∧ store.capture =
      (i + 1, ⟨store.slots.setIfInBounds i (some ⟨store.taken⟩), vacant, store.taken + 1⟩)) ∨
    store.vacant = [] ∧ store.capture =
      (store.slots.size + 1, ⟨store.slots.push (some ⟨store.taken⟩), [], store.taken + 1⟩) := by
  unfold SlotStore.capture
  cases hvacant : store.vacant with
  | nil => exact .inr ⟨rfl, rfl⟩
  | cons i vacant => exact .inl ⟨i, vacant, rfl, h.lt_size (by simp [hvacant]), rfl⟩

theorem capture (h : store.Sound) : store.capture.2.Sound := by
  have hnodup := h.nodup
  have hmem := h.mem_vacant_iff
  rcases h.capture_cases with ⟨i, vacant, hvacant, hlt, hcapture⟩ | ⟨hvacant, hcapture⟩
  · rw [hvacant] at hnodup hmem
    obtain ⟨hnot, hrest⟩ := List.nodup_cons.mp hnodup
    rw [hcapture]
    refine ⟨hrest, fun j => ?_, ?_⟩
    · by_cases hj : i = j
      · subst hj
        simp [hnot, hlt]
      · have hj' : j ∈ vacant ↔ j ∈ i :: vacant := by simp [Ne.symm hj]
        show j ∈ vacant ↔ _
        rw [Array.getElem?_setIfInBounds_ne hj, hj', hmem]
    · have hle := h.size_le
      simp only [Array.size_setIfInBounds]
      omega
  · rw [hvacant] at hmem
    rw [hcapture]
    refine ⟨List.nodup_nil, fun j => ?_, ?_⟩
    · have hj := hmem j
      simp only [List.not_mem_nil, false_iff] at hj ⊢
      rw [Array.getElem?_push]
      split
      · simp
      · exact hj
    · have hle := h.size_le
      simp only [Array.size_push]
      omega

theorem capture_pos (store : SlotStore) : 0 < store.capture.1 := by
  unfold SlotStore.capture
  cases store.vacant <;> exact Nat.succ_pos _

theorem capture_le (h : store.Sound) : store.capture.1 ≤ store.taken + 1 := by
  have hle := h.size_le
  rcases h.capture_cases with ⟨i, vacant, -, hlt, hcapture⟩ | ⟨-, hcapture⟩
  · rw [hcapture]
    show i + 1 ≤ _
    omega
  · rw [hcapture]
    exact Nat.succ_le_succ hle

theorem taken_capture (store : SlotStore) : store.capture.2.taken = store.taken + 1 := by
  unfold SlotStore.capture
  cases store.vacant <;> rfl

/-- **A capture puts its snapshot into a slot that was empty, and changes no other.** -/
theorem snapshot?_capture (h : store.Sound) (n : Nat) :
    store.capture.2.snapshot? n =
      if n = store.capture.1 then some ⟨store.taken⟩ else store.snapshot? n := by
  cases n with
  | zero =>
    rw [if_neg (Nat.ne_of_lt (capture_pos store))]
    rfl
  | succ k =>
    rcases h.capture_cases with ⟨i, vacant, -, hlt, hcapture⟩ | ⟨-, hcapture⟩
    · rw [hcapture]
      by_cases hk : k = i
      · subst hk
        simp [snapshot?, hlt]
      · simp [snapshot?, hk, Array.getElem?_setIfInBounds_ne (Ne.symm hk)]
    · rw [hcapture]
      by_cases hk : k = store.slots.size
      · simp [snapshot?, hk]
      · simp [snapshot?, hk, Array.getElem?_push]

theorem snapshot?_capture_before (h : store.Sound) : store.snapshot? store.capture.1 = none := by
  rcases h.capture_cases with ⟨i, vacant, hvacant, -, hcapture⟩ | ⟨-, hcapture⟩
  · have hempty := (h.mem_vacant_iff i).mp (by simp [hvacant])
    rw [hcapture]
    simp [snapshot?, hempty]
  · rw [hcapture]
    simp [snapshot?]

theorem live_capture (h : store.Sound) : store.capture.2.live = store.live + 1 := by
  have hle := h.length_le
  rcases h.capture_cases with ⟨i, vacant, hvacant, -, hcapture⟩ | ⟨hvacant, hcapture⟩
  · rw [hvacant, List.length_cons] at hle
    rw [hcapture]
    simp only [live, hvacant, Array.size_setIfInBounds, List.length_cons]
    omega
  · rw [hcapture]
    simp [live, hvacant]

/-! ### Discards -/

/-- A discard empties a full slot, or does nothing. -/
theorem discard_cases (store : SlotStore) (n : Nat) :
    (∃ i snapshot, n = i + 1 ∧ store.slots[i]? = some (some snapshot) ∧ store.discard n =
      { store with slots := store.slots.setIfInBounds i none, vacant := i :: store.vacant }) ∨
    store.snapshot? n = none ∧ store.discard n = store := by
  cases n with
  | zero => exact .inr ⟨rfl, rfl⟩
  | succ i =>
    rcases hslot : store.slots[i]? with _ | _ | snapshot
    · exact .inr ⟨by simp [snapshot?, hslot], by simp [SlotStore.discard, hslot]⟩
    · exact .inr ⟨by simp [snapshot?, hslot], by simp [SlotStore.discard, hslot]⟩
    · exact .inl ⟨i, snapshot, rfl, hslot, by simp [SlotStore.discard, hslot]⟩

theorem discard (h : store.Sound) (n : Nat) : (store.discard n).Sound := by
  rcases discard_cases store n with ⟨i, snapshot, -, hslot, hdiscard⟩ | ⟨-, hdiscard⟩
  · obtain ⟨hlt, -⟩ := Array.getElem?_eq_some_iff.mp hslot
    have hnot : i ∉ store.vacant := by
      rw [h.mem_vacant_iff, hslot]
      simp
    rw [hdiscard]
    refine ⟨List.nodup_cons.mpr ⟨hnot, h.nodup⟩, fun j => ?_, ?_⟩
    · by_cases hj : i = j
      · subst hj
        simp [hlt]
      · show j ∈ i :: store.vacant ↔ _
        rw [Array.getElem?_setIfInBounds_ne hj, ← h.mem_vacant_iff]
        simp [Ne.symm hj]
    · simp only [Array.size_setIfInBounds]
      exact h.size_le
  · rw [hdiscard]
    exact h

theorem taken_discard (store : SlotStore) (n : Nat) : (store.discard n).taken = store.taken := by
  rcases discard_cases store n with ⟨i, snapshot, -, -, hdiscard⟩ | ⟨-, hdiscard⟩ <;> rw [hdiscard]

/-- **A discard takes out the snapshot it names, and no other.** -/
theorem snapshot?_discard (store : SlotStore) (n k : Nat) :
    (store.discard n).snapshot? k = if k = n then none else store.snapshot? k := by
  rcases discard_cases store n with ⟨i, snapshot, rfl, hslot, hdiscard⟩ | ⟨hnone, hdiscard⟩
  · obtain ⟨hlt, -⟩ := Array.getElem?_eq_some_iff.mp hslot
    rw [hdiscard]
    cases k with
    | zero => rfl
    | succ j =>
      by_cases hj : j = i
      · subst hj
        simp [snapshot?, hlt]
      · simp [snapshot?, hj, Array.getElem?_setIfInBounds_ne (Ne.symm hj)]
  · rw [hdiscard]
    by_cases hk : k = n
    · rw [if_pos hk, hk, hnone]
    · rw [if_neg hk]

theorem live_discard (h : store.Sound) (hfull : (store.snapshot? n).isSome) :
    (store.discard n).live + 1 = store.live := by
  have hle := (h.discard n).length_le
  rcases discard_cases store n with ⟨i, snapshot, -, -, hdiscard⟩ | ⟨hnone, -⟩
  · rw [hdiscard] at hle ⊢
    simp only [live, Array.size_setIfInBounds, List.length_cons] at hle ⊢
    omega
  · rw [hnone] at hfull
    cases hfull

end Sound

/-! ### The numbers that are out -/

/-- These are the numbers of the full slots, each once. -/
structure Issued (store : SlotStore) (numbers : List Nat) : Prop extends store.Sound where
  distinct : numbers.Nodup
  mem_iff : ∀ n, n ∈ numbers ↔ (store.snapshot? n).isSome = true
  live_eq : store.live = numbers.length

theorem issued_empty : Issued {} [] := by
  refine ⟨sound_empty, List.nodup_nil, fun n => ?_, rfl⟩
  cases n <;> simp [snapshot?]

namespace Issued

theorem perm (h : store.Issued numbers) (hperm : numbers.Perm numbers') :
    store.Issued numbers' :=
  ⟨h.toSound, hperm.nodup_iff.mp h.distinct, fun n => hperm.mem_iff.symm.trans (h.mem_iff n),
    h.live_eq.trans hperm.length_eq⟩

theorem capture (h : store.Issued numbers) :
    store.capture.2.Issued (store.capture.1 :: numbers) := by
  have hnot : store.capture.1 ∉ numbers := by
    rw [h.mem_iff, h.snapshot?_capture_before]
    simp
  refine ⟨h.toSound.capture, List.nodup_cons.mpr ⟨hnot, h.distinct⟩, fun n => ?_, ?_⟩
  · rw [List.mem_cons, h.snapshot?_capture, h.mem_iff]
    by_cases hn : n = store.capture.1
    · simp [hn]
    · simp [hn]
  · rw [h.live_capture, h.live_eq, List.length_cons]

theorem discard (h : store.Issued (n :: numbers)) : (store.discard n).Issued numbers := by
  obtain ⟨hnot, hrest⟩ := List.nodup_cons.mp h.distinct
  have hfull : (store.snapshot? n).isSome = true := (h.mem_iff n).mp (List.mem_cons_self ..)
  refine ⟨h.toSound.discard n, hrest, fun k => ?_, ?_⟩
  · rw [Sound.snapshot?_discard]
    by_cases hk : k = n
    · simp [hk, hnot]
    · rw [if_neg hk, ← h.mem_iff, List.mem_cons]
      simp [hk]
  · have hlive := h.live_discard hfull
    rw [h.live_eq, List.length_cons] at hlive
    omega

end Issued

end SlotStore

end FirstFit
