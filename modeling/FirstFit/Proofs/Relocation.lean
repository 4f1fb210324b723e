/-
Memory that moves, and memory that is cleared.

Both calls are made up of others: memory is asked for, bytes are written to it, and memory that
moved is given back from where it was.  Between these parts the chain is changed three times, and
what was copied lies next to blocks that are merged.  That none of this touches the copy, or any
other lease, needs no look at the chain: a new lease is one more that is backed, and each part keeps
all of them (`Heap.Backs.realloc`, `Heap.Backs.allocZeroed`).

What is left to say is what this means for the bytes and the counters before and after a call
(`Heap.Moved`, `Heap.Cleared`), and that a call without an answer did nothing (`Heap.Unmoved`).
-/
import FirstFit.Proofs.Contract

namespace FirstFit

namespace Heap

variable {heap mid next last : Heap} {ledger : Ledger} {lease : Lease} {layout layout' : Layout}
  {calls newSize moved address : Nat} {answer : Option Nat} {history : List (Call × Option Nat)}

/-- How many blocks the heap has handed out. -/
def live (heap : Heap) : Nat := heap.stats?.elim 0 (·.live)

/-- A lease has moved from one state of the heap to another, and the others are where they were. -/
structure Moved (heap next : Heap) (ledger : Ledger) (lease : Lease) (newSize moved : Nat) :
    Prop where
  /-- As many of the old bytes as fit are at the new address. -/
  kept : next.read moved (min lease.layout.size newSize) =
    heap.read lease.address (min lease.layout.size newSize)
  aligned : moved ≠ 0 ∧ lease.layout.align ∣ moved
  held : ∃ arena b, next.arena = some arena ∧ arena.Live b moved ∧ newSize ≤ b.size
  /-- The old block was given back, if there was one. -/
  released : lease.layout.size ≠ 0 → ∀ arena, next.arena = some arena →
    ∀ b, ¬ arena.Live b lease.address
  live : next.live = heap.live + if lease.layout.size = 0 then 1 else 0
  others : ∀ other ∈ ledger.leases.erase lease,
    next.read other.address other.layout.size = heap.read other.address other.layout.size

/-- Memory was handed out that is zero, and the leases have the bytes they had. -/
structure Cleared (heap next : Heap) (ledger : Ledger) (layout : Layout) (address : Nat) :
    Prop where
  zero : next.read address layout.size = List.replicate layout.size 0
  aligned : address ≠ 0 ∧ layout.align ∣ address
  kept : ∀ lease ∈ ledger.leases,
    next.read lease.address lease.layout.size = heap.read lease.address lease.layout.size

/-- Nothing has changed that is not written in a journal. -/
structure Unmoved (heap next : Heap) : Prop where
  arena : ∀ arena, heap.arena = some arena → ∃ journal, next.arena = some { arena with journal }
  read : ∀ address count, next.read address count = heap.read address count

theorem take_append_drop_eq {bytes found : List UInt8} {size : Nat}
    (hbytes : bytes.length = size) (hfound : found.length ≤ newSize) :
    (bytes.take newSize ++ found.drop size).take size = bytes.take newSize := by
  have hlength : (bytes.take newSize).length = min newSize size := by
    rw [List.length_take, hbytes]
  rw [List.take_append, hlength, List.take_of_length_le (by omega)]
  rcases Nat.le_total size newSize with hle | hle
  · rw [Nat.min_eq_right hle, Nat.sub_self, List.take_zero, List.append_nil]
  · rw [List.drop_eq_nil_of_le (by omega), List.take_nil, List.append_nil]

/-! ### Calls without an answer -/

theorem Unmoved.refl (heap : Heap) : heap.Unmoved heap :=
  ⟨fun arena harena => ⟨arena.journal, harena⟩, fun _ _ => rfl⟩

/-- A request that is not answered is only written in the journal. -/
theorem Backs.unmoved (h : heap.Backs ledger calls)
    (hrun : (Heap.alloc layout).run heap = .ok none next) : heap.Unmoved next := by
  by_cases hsize : layout.size = 0
  · rw [run_alloc_empty hsize] at hrun
    cases hrun
  cases harena : heap.arena with
  | none =>
    obtain ⟨-, rfl⟩ := EStateM.Result.ok.inj (hrun.symm.trans (run_alloc_uninstalled hsize harena))
    exact .refl _
  | some arena =>
    by_cases halign : arena.config.unit.bytes < layout.align
    · obtain ⟨-, rfl⟩ :=
        EStateM.Result.ok.inj (hrun.symm.trans (run_alloc_overaligned hsize harena halign))
      exact .refl _
    obtain ⟨arena', hallocate, rfl⟩ :=
      (run_alloc_served_iff hsize harena (Nat.not_lt.mp halign)).mp hrun
    obtain ⟨journal, rfl⟩ := (h.serving arena harena).orderly.eq_of_unanswered hallocate
    refine ⟨fun arena' harena' => ?_, fun address count => ?_⟩
    · obtain rfl := Option.some.inj (harena.symm.trans harena')
      exact ⟨#[], rfl⟩
    · unfold read
      rw [harena]
      rfl

/-! ### Calls with an answer -/

namespace Backs

theorem live_eq (h : heap.Backs ledger calls) :
    heap.live = ledger.leases.countP fun lease => lease.layout.size ≠ 0 :=
  h.honours.counted

theorem read_of_mem (h : heap.Backs ledger calls) (hlease : lease ∈ ledger.leases) :
    heap.read lease.address lease.layout.size = lease.bytes :=
  (h.front hlease).read_eq

theorem realloc_moved (h : heap.Backs ledger calls) (hcounted : heap.Counted)
    (hlease : lease ∈ ledger.leases) (hsize : 1 ≤ newSize)
    (hlayout : Layout.of? newSize lease.layout.align = some layout')
    (halloc : (Heap.alloc layout').run heap = .ok (some moved) mid)
    (hrun : (Heap.realloc lease.address lease.layout newSize).run heap = .ok (some moved) next) :
    heap.Moved next ledger lease newSize moved := by
  obtain ⟨next', hrun', hnew, -, hreleased⟩ := h.realloc hcounted hlease hlayout halloc
  obtain ⟨-, rfl⟩ := EStateM.Result.ok.inj (hrun.symm.trans hrun')
  obtain ⟨hsize', halign'⟩ := Layout.of_of? hlayout
  have hread := hnew.read_of_mem (List.mem_cons_self ..)
  simp only at hread
  refine ⟨?_, ?_, ?_, hreleased, ?_, fun other hother => ?_⟩
  · rw [read_min heap, h.read_of_mem hlease, Nat.min_comm, read_min next, ← hsize', hread, hsize']
    exact take_append_drop_eq (h.front hlease).length_bytes (length_read_le ..)
  · have haligned := hnew.aligned (List.mem_cons_self ..)
    rw [← halign']
    exact haligned
  · obtain ⟨arena, harena, -, hsecures⟩ := hnew.secured (List.mem_cons_self ..) (by
      show layout'.size ≠ 0
      omega)
    obtain ⟨b, hlive, hroom⟩ := hsecures.held
    exact ⟨arena, b, harena, hlive, hsize' ▸ hroom⟩
  · have hcount := (List.perm_cons_erase hlease).countP_eq fun lease => lease.layout.size ≠ 0
    rw [hnew.live_eq, h.live_eq, hcount]
    show List.countP _ (_ :: _) = _
    rw [List.countP_cons, List.countP_cons]
    by_cases hzero : lease.layout.size = 0 <;> simp [hzero, hsize'] <;> omega
  · rw [h.read_of_mem (List.mem_of_mem_erase hother)]
    exact hnew.read_of_mem (List.mem_cons_of_mem _ hother)

theorem allocZeroed_cleared (h : heap.Backs ledger calls) (hcounted : heap.Counted)
    (halloc : (Heap.alloc layout).run heap = .ok (some address) mid)
    (hrun : (Heap.allocZeroed layout).run heap = .ok (some address) next) :
    heap.Cleared next ledger layout address := by
  obtain ⟨next', hrun', hnew, -⟩ := h.allocZeroed hcounted halloc
  obtain ⟨-, rfl⟩ := EStateM.Result.ok.inj (hrun.symm.trans hrun')
  have hnew' : next.Backs (ledger.grant ⟨address, layout, List.replicate layout.size 0⟩)
    (calls + 1) := hnew
  refine ⟨hnew'.read_eq, hnew'.aligned (List.mem_cons_self ..), fun lease hlease => ?_⟩
  rw [h.read_of_mem hlease]
  exact hnew'.read_of_mem (List.mem_cons_of_mem _ hlease)

end Backs

theorem run_allocZeroed_none (halloc : (Heap.alloc layout).run heap = .ok none next) :
    (Heap.allocZeroed layout).run heap = .ok none next := by
  unfold Heap.allocZeroed
  exact (run_bind_ok halloc).trans rfl

/-- **After any history of calls, memory that moves keeps its bytes, memory that is cleared is zero,
no other lease loses a byte over it, and a call that is not answered changes nothing.**  Both calls
come to their end, as long as one more allocation can be counted. -/
theorem Runs.moves_keep_bytes (hruns : Runs {} {} history last ledger) :
    (∀ lease ∈ ledger.leases, ∀ newSize, 1 ≤ newSize →
      (Layout.of? newSize lease.layout.align).isSome →
      (∀ answer next,
        (Heap.realloc lease.address lease.layout newSize).run last = .ok answer next →
          (∀ moved, answer = some moved → last.Moved next ledger lease newSize moved) ∧
          (answer = none → last.Unmoved next)) ∧
      (last.Countable → ∃ answer next,
        (Heap.realloc lease.address lease.layout newSize).run last = .ok answer next)) ∧
    ∀ layout,
      (∀ answer next, (Heap.allocZeroed layout).run last = .ok answer next →
        (∀ address, answer = some address → last.Cleared next ledger layout address) ∧
        (answer = none → last.Unmoved next)) ∧
      (last.Countable → ∃ answer next, (Heap.allocZeroed layout).run last = .ok answer next) := by
  obtain ⟨hbacks, hcounted⟩ := hruns.backed backs_empty (backs_empty.counted (by decide))
  refine ⟨fun lease hlease newSize hsize hsome => ⟨fun answer next hrun => ?_, fun hroom => ?_⟩,
    fun layout => ⟨fun answer next hrun => ?_, fun hroom => ?_⟩⟩
  · obtain ⟨layout', hlayout⟩ := Option.isSome_iff_exists.mp hsome
    have hasked : (Call.realloc lease.address lease.layout newSize).layout? = some layout' :=
      hlayout
    obtain ⟨mid, halloc⟩ := exists_alloc hasked hrun
    constructor
    · rintro moved rfl
      exact hbacks.realloc_moved hcounted hlease hsize hlayout halloc hrun
    · rintro rfl
      have hnone := Backs.run_realloc_none lease.address hlayout halloc
      obtain ⟨-, rfl⟩ := EStateM.Result.ok.inj (hrun.symm.trans hnone)
      exact hbacks.unmoved halloc
  · have hallows : ledger.Allows (.realloc lease.address lease.layout newSize) :=
      ⟨⟨lease, hlease, rfl, rfl⟩, hsome⟩
    exact hbacks.exists_run_call hroom hallows
  · have hasked : (Call.allocZeroed layout).layout? = some layout := rfl
    obtain ⟨mid, halloc⟩ := exists_alloc hasked hrun
    constructor
    · rintro address rfl
      exact hbacks.allocZeroed_cleared hcounted halloc hrun
    · rintro rfl
      obtain ⟨-, rfl⟩ := EStateM.Result.ok.inj (hrun.symm.trans (run_allocZeroed_none halloc))
      exact hbacks.unmoved halloc
  · have hallows : ledger.Allows (.allocZeroed layout) := trivial
    exact hbacks.exists_run_call hroom hallows

/-! ### Moved and cleared in one heap -/

section Sample

variable {arena : Arena Silent} {r : Region} {cells : List Cell} {steps : Nat}

theorem Runs.concat {call : Call} {final : Ledger} (hruns : Runs heap ledger history mid final)
    (hallows : final.Allows call) (hrun : call.act.run mid = .ok answer last) :
    Runs heap ledger (history ++ [(call, answer)]) last (final.after last call answer) := by
  induction hruns with
  | nil => exact .cons hallows hrun (.nil _ _)
  | cons hallows' hrun' _ ih => exact .cons hallows' hrun' (ih hallows hrun)

theorem countable_of_kept (harena : heap.arena = some arena) (hkept : arena.Kept r cells steps)
    (hsteps : steps + 1 < 2 ^ 64) : heap.Countable := by
  intro arena' harena'
  obtain rfl := Option.some.inj (harena.symm.trans harena')
  exact Nat.lt_of_le_of_lt (Nat.succ_le_succ hkept.counts.allocs_le) hsteps

/-- A call that asks for memory is answered as an allocation on cells. -/
theorem answer_eq_of_kept {call : Call} (harena : heap.arena = some arena)
    (hkept : arena.Kept r cells steps) (hlayout : call.layout? = some layout)
    (hsize : layout.size ≠ 0) (halign : layout.align ≤ r.unit.bytes)
    (hrun : call.act.run heap = .ok answer next) :
    answer = (Cells.allocated r layout.size cells).1 := by
  obtain ⟨mid, halloc⟩ := exists_alloc hlayout hrun
  have hunit : arena.config.unit = r.unit := congrArg Region.unit hkept.region
  obtain ⟨arena', hallocate, -⟩ :=
    (run_alloc_served_iff hsize harena (by rw [hunit]; exact halign)).mp halloc
  exact (hkept.of_run_allocate hallocate).1

end Sample

/-- A new heap hands out the first 24 bytes of its region, behind which there are 64. -/
theorem exists_granted_sample :
    ∃ first arena : Arena Silent, Arena.create { capture := false } Arena.sample ⟨⟩ = .ok first ∧
      (Heap.alloc small).run (install first {}) =
        .ok (some 4152) (install arena (install first {})) ∧
      Arena.Kept { arena with journal := #[] } (.within .default Arena.sample)
        [⟨24, true⟩, ⟨64, false⟩] 1 := by
  obtain ⟨first, hcreate⟩ := @Arena.exists_create Silent { capture := false } Arena.sample ⟨⟩
    (by decide +kernel) (by decide +kernel)
  have hregion : first.region = .within .default Arena.sample := (Arena.create_eq hcreate).1
  have hconfig := (Arena.settings_of_create hcreate).1
  have hkept := Arena.kept_create hcreate (by rw [hregion]; decide +kernel)
  rw [hregion] at hkept
  have hquiet : Arena.Kept { first with journal := #[] } (.within .default Arena.sample)
      (Cells.whole _) 0 :=
    ⟨hkept.region, hkept.tidy, hkept.counts⟩
  have hcells : Cells.allocated (.within .default Arena.sample) 24
      (Cells.whole (.within .default Arena.sample)) =
        (some 4152, [⟨24, true⟩, ⟨64, false⟩]) := by
    decide +kernel
  obtain ⟨arena, hrun, hkept', -⟩ := hquiet.run_allocate (by decide) 24
  rw [hcells] at hrun hkept'
  refine ⟨first, arena, hcreate, run_alloc_served (by decide) rfl ?_ hrun,
    hkept'.region, hkept'.tidy, hkept'.counts⟩
  rw [hconfig]
  decide

/-- One of them is written to. -/
theorem exists_written_sample :
    ∃ (last : Heap) (arena : Arena Silent) (ledger : Ledger) (lease : Lease),
      Runs {} {} [(.init {} Arena.sample, none), (.alloc small, some 4152),
        (.write 4153 [7], none)] last ledger ∧
      lease ∈ ledger.leases ∧ lease.address = 4152 ∧ lease.layout = small ∧
      last.arena = some arena ∧ arena.memory.byteAt 4153 = 7 ∧
      arena.Kept (.within .default Arena.sample) [⟨24, true⟩, ⟨64, false⟩] 2 := by
  obtain ⟨first, arena, hcreate, hgranted, hfound⟩ := exists_granted_sample
  have hallows : Arena.Allows { arena with journal := #[] } (.write 4153 [7]) :=
    hfound.allows_iff.mpr (by decide +kernel)
  obtain ⟨written, hwrite, -, hfollows⟩ := hfound.step_write hallows
  obtain ⟨-, rfl⟩ := EStateM.Result.ok.inj hwrite
  have houtside : ∀ o ∈ Cells.offsets (Region.within .default Arena.sample).footprint
      [⟨24, true⟩, ⟨64, false⟩], ¬ (Region.within .default Arena.sample).InFootprint o 4153 := by
    unfold Region.InFootprint
    decide +kernel
  have hinit : (Heap.init {} Arena.sample).run {} = .ok () (install first {}) := by
    unfold Heap.init
    rw [hcreate]
    rfl
  exact ⟨_, _, _, _, .cons ⟨first, hcreate⟩ (run_bind_ok hinit) (.cons trivial hgranted
    (.cons ⟨_, .head _, show 4152 ≤ 4153 by decide, show 4154 ≤ 4176 by decide⟩ rfl
      (.nil _ _))), .head _, rfl, rfl, rfl, hfollows.framed 4153 houtside houtside, hfollows.kept⟩

/-- And all are given back, with what was written. -/
theorem exists_returned_sample :
    ∃ (last : Heap) (arena : Arena Silent) (ledger : Ledger),
      Runs {} {} [(.init {} Arena.sample, none), (.alloc small, some 4152),
        (.write 4153 [7], none), (.dealloc 4152 small, none)] last ledger ∧
      last.arena = some arena ∧ arena.memory.byteAt 4153 = 7 ∧
      arena.Kept (.within .default Arena.sample) [⟨144, false⟩] 3 := by
  obtain ⟨heap, arena, ledger, lease, hruns, hlease, haddress, hlayout, harena, hbyte, hkept⟩ :=
    exists_written_sample
  obtain ⟨next, after, hrelease, -, hfollows⟩ := hkept.step_release (by decide)
    (hkept.allows_iff.mpr (show Cells.Allows _ _ (.release 4152) by decide +kernel))
  have hcells : Cells.step? (.within .default Arena.sample) [⟨24, true⟩, ⟨64, false⟩]
      (.release 4152) = some (none, [⟨144, false⟩]) := by
    decide +kernel
  obtain ⟨-, rfl⟩ := Prod.mk.inj (Option.some.inj (hfollows.step.symm.trans hcells))
  have houtside : ∀ cells ∈ ([[⟨24, true⟩, ⟨64, false⟩], [⟨144, false⟩]] : List (List Cell)),
      ∀ o ∈ Cells.offsets (Region.within .default Arena.sample).footprint cells,
        ¬ (Region.within .default Arena.sample).InFootprint o 4153 := by
    unfold Region.InFootprint
    decide +kernel
  have hdealloc := run_dealloc_served (show small.size ≠ 0 by decide) harena
    (Arena.run_step_release_iff.mp hrelease).2
  have hkeeps := hfollows.framed 4153 (houtside _ (.head _)) (houtside _ (.tail _ (.head _)))
  exact ⟨_, _, _, hruns.concat ⟨lease, hlease, haddress, hlayout⟩ (run_bind_ok hdealloc), rfl,
    hkeeps.trans hbyte, hfollows.kept.region, hfollows.kept.tidy, hfollows.kept.counts⟩

/-- A block of 24 bytes with a byte written to it moves to where 32 bytes are.  Once it was given
back, the byte is still there, and is cleared for the next client. -/
theorem moves_keep_bytes_sample :
    (∃ last ledger lease, Runs {} {} [(.init {} Arena.sample, none), (.alloc small, some 4152),
        (.write 4153 [7], none)] last ledger ∧
      lease ∈ ledger.leases ∧ lease.address = 4152 ∧ lease.layout = small ∧
      (Layout.of? 32 lease.layout.align).isSome ∧ last.Countable ∧
      ∃ next, (Heap.realloc 4152 small 32).run last = .ok (some 4232) next ∧
        last.Moved next ledger lease 32 4232) ∧
    ∃ last ledger, Runs {} {} [(.init {} Arena.sample, none), (.alloc small, some 4152),
        (.write 4153 [7], none), (.dealloc 4152 small, none)] last ledger ∧
      last.read 4153 1 = [7] ∧ last.Countable ∧
      ∃ next, (Heap.allocZeroed small).run last = .ok (some 4152) next ∧
        last.Cleared next ledger small 4152 := by
  constructor
  · obtain ⟨last, arena, ledger, lease, hruns, hlease, haddress, hlayout, harena, -, hkept⟩ :=
      exists_written_sample
    have hroom : last.Countable := countable_of_kept harena hkept (by decide)
    have hsome : (Layout.of? 32 lease.layout.align).isSome := by
      rw [hlayout]
      decide
    obtain ⟨hmoves, hends⟩ := hruns.moves_keep_bytes.1 lease hlease 32 (by decide) hsome
    obtain ⟨answer, next, hrun⟩ := hends hroom
    have hasked : (Call.realloc lease.address lease.layout 32).layout? =
        some ⟨32, 8, AlignUnit.default.isPowerOfTwo, by decide⟩ := by
      rw [hlayout]
      rfl
    have hcells : (Cells.allocated (.within .default Arena.sample) 32
        [⟨24, true⟩, ⟨64, false⟩]).1 = some 4232 := by
      decide +kernel
    obtain rfl := (answer_eq_of_kept harena hkept hasked (by decide) (by decide) hrun).trans hcells
    refine ⟨last, ledger, lease, hruns, hlease, haddress, hlayout, hsome, hroom, next, ?_,
      (hmoves _ next hrun).1 4232 rfl⟩
    rw [haddress, hlayout] at hrun
    exact hrun
  · obtain ⟨last, arena, ledger, hruns, harena, hbyte, hkept⟩ := exists_returned_sample
    have hroom : last.Countable := countable_of_kept harena hkept (by decide)
    obtain ⟨hclears, hends⟩ := hruns.moves_keep_bytes.2 small
    obtain ⟨answer, next, hrun⟩ := hends hroom
    have hcells : (Cells.allocated (.within .default Arena.sample) 24 [⟨144, false⟩]).1 =
        some 4152 := by
      decide +kernel
    obtain rfl := (answer_eq_of_kept harena hkept
      (show (Call.allocZeroed small).layout? = some small from rfl) (by decide) (by decide)
      hrun).trans hcells
    refine ⟨last, ledger, hruns, ?_, hroom, next, hrun, (hclears _ next hrun).1 4152 rfl⟩
    unfold read
    rw [harena]
    exact congrArg (fun b => [b]) hbyte

end Heap

end FirstFit
