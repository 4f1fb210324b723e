/-
What a heap owes to its clients.

The ledger says who has what, and a client that looks into its own lease finds what the ledger
says is there.  That no two leases overlap, that all lie in the memory that was installed last,
and that no call ever ends the process is then a statement about the heap and the ledger after
any history (`Heap.Runs.honours_leases`).  How the calls of different clients are interleaved
plays no part in it, because the ledger does not say whose a lease is.
-/
import FirstFit.Proofs.Leases

namespace FirstFit

/-- Two leases have no byte in common. -/
def Lease.Apart (lease other : Lease) : Prop :=
  lease.layout.size ≠ 0 → other.layout.size ≠ 0 →
    lease.address + lease.layout.size ≤ other.address ∨
      other.address + other.layout.size ≤ lease.address

namespace Heap

variable {heap next last : Heap} {ledger : Ledger} {calls : Nat} {call : Call}
  {answer : Option Nat} {layout : Layout} {lease : Lease} {history : List (Call × Option Nat)}

/-- What the holders of leases may rely on. -/
structure Honours (heap : Heap) (ledger : Ledger) : Prop where
  aligned : ∀ lease ∈ ledger.leases, lease.address ≠ 0 ∧ lease.layout.align ∣ lease.address
  inside : ∀ lease ∈ ledger.leases, lease.layout.size ≠ 0 → ∃ config memory,
    ledger.installed = some (config, memory) ∧ memory.Covers lease.address lease.layout.size
  apart : ledger.leases.Pairwise Lease.Apart
  contents : ∀ lease ∈ ledger.leases,
    heap.read lease.address lease.layout.size = lease.bytes
  counted : heap.stats?.elim 0 (·.live) =
    ledger.leases.countP fun lease => lease.layout.size ≠ 0

/-- What the answer to a call is where it does not depend on the chain. -/
structure Answers (heap : Heap) (ledger : Ledger) (call : Call) (answer : Option Nat)
    (next : Heap) : Prop where
  /-- A layout without bytes gets an address. -/
  empty : ∀ layout, call.layout? = some layout → layout.size = 0 → answer = some layout.align
  /-- Nothing else is to be had before an arena is installed. -/
  early : ∀ layout, call.layout? = some layout → layout.size ≠ 0 → ledger.installed = none →
    answer = none
  /-- Nor if the layout is aligned to more than the unit. -/
  steep : ∀ layout, call.layout? = some layout → layout.size ≠ 0 → ∀ config memory,
    ledger.installed = some (config, memory) → config.unit.bytes < layout.align → answer = none
  /-- A layout without bytes does not concern the arena. -/
  idle : ∀ layout, layout.size = 0 → call = .alloc layout ∨ call = .allocZeroed layout ∨
    (∃ address, call = .dealloc address layout) → next = heap

/-! ### Leases that are backed -/

theorem align_pos (layout : Layout) : 0 < layout.align := by
  obtain ⟨k, hk⟩ := layout.isPowerOfTwo
  rw [hk]
  exact Nat.two_pow_pos k

/-- Of two powers of two the smaller one divides the other. -/
theorem align_dvd {unit : AlignUnit} (h : layout.align ≤ unit.bytes) :
    layout.align ∣ unit.bytes := by
  obtain ⟨k, hk⟩ := layout.isPowerOfTwo
  obtain ⟨l, hl⟩ := unit.isPowerOfTwo
  rw [hk, hl] at h ⊢
  exact Nat.pow_dvd_pow 2 ((Nat.pow_le_pow_iff_right (by decide)).mp h)

namespace Backs

theorem secured (h : heap.Backs ledger calls) (hlease : lease ∈ ledger.leases)
    (hsize : lease.layout.size ≠ 0) : ∃ arena, heap.arena = some arena ∧
      Serving arena ledger calls ∧ arena.Secures lease := by
  have hpledged : lease ∈ ledger.pledged := List.mem_filter.mpr ⟨hlease, by simpa using hsize⟩
  obtain ⟨arena, harena, -⟩ := (h.front hlease).exists_arena hsize
  have hserving := h.serving arena harena
  exact ⟨arena, harena, hserving, hserving.backs.secures lease hpledged⟩

theorem aligned (h : heap.Backs ledger calls) (hlease : lease ∈ ledger.leases) :
    lease.address ≠ 0 ∧ lease.layout.align ∣ lease.address := by
  by_cases hsize : lease.layout.size = 0
  · rw [(h.empty lease hlease hsize).1]
    exact ⟨(align_pos lease.layout).ne', Nat.dvd_refl _⟩
  · obtain ⟨arena, -, hserving, hsecures⟩ := h.secured hlease hsize
    obtain ⟨b, hlive, -⟩ := hsecures.held
    have hdvd := (hserving.orderly.live_fits hlive).1
    exact ⟨hlive.address_pos.ne', (align_dvd hsecures.aligned).trans hdvd⟩

theorem inside (h : heap.Backs ledger calls) (hlease : lease ∈ ledger.leases)
    (hsize : lease.layout.size ≠ 0) : ∃ config memory,
      ledger.installed = some (config, memory) ∧
        memory.Covers lease.address lease.layout.size := by
  obtain ⟨arena, -, hserving, hsecures⟩ := h.secured hlease hsize
  obtain ⟨config, memory, hinstalled, hregion⟩ := hserving.installed
  obtain ⟨b, hlive, hroom⟩ := hsecures.held
  obtain ⟨-, hlow, hhigh⟩ := hserving.orderly.live_fits hlive
  have hstart := Region.start_le_within config.unit memory
  have hstop := Region.within_le_stop config.unit memory
  rw [hregion] at hlow hhigh
  exact ⟨config, memory, hinstalled, by omega, by omega⟩

theorem apart (h : heap.Backs ledger calls) : ledger.leases.Pairwise Lease.Apart := by
  have hpledged : ledger.pledged.Pairwise fun lease other =>
      lease.address + lease.layout.size ≤ other.address ∨
        other.address + other.layout.size ≤ lease.address := by
    cases harena : heap.arena with
    | none =>
      rw [(h.vacant harena).2]
      exact .nil
    | some arena =>
      obtain ⟨horderly, -, -, hbacks⟩ := h.serving arena harena
      refine (List.pairwise_map.mp hbacks.distinct).imp_of_mem ?_
      intro lease other hlease hother hne
      obtain ⟨b, hlive, hroom⟩ := (hbacks.secures lease hlease).held
      obtain ⟨b', hlive', hroom'⟩ := (hbacks.secures other hother).held
      have hapart := horderly.live_apart hlive hlive' hne
      omega
  refine (List.pairwise_filter.mp hpledged).imp ?_
  intro lease other happly hsize hsize'
  exact happly (by simpa using hsize) (by simpa using hsize')

/-- **Leases that are backed are honoured.** -/
theorem honours (h : heap.Backs ledger calls) : heap.Honours ledger := by
  refine ⟨fun lease hlease => h.aligned hlease, fun lease hlease => h.inside hlease, h.apart,
    fun lease hlease => (h.front hlease).read_eq, ?_⟩
  rw [List.countP_eq_length_filter]
  show _ = ledger.pledged.length
  unfold stats?
  cases harena : heap.arena with
  | none =>
    rw [(h.vacant harena).2]
    rfl
  | some arena => exact (h.serving arena harena).backs.counted

end Backs

/-! ### Answers -/

/-- A call for a layout without bytes leaves the heap as it is. -/
theorem eq_of_run_empty (hsize : layout.size = 0)
    (hcall : call = .alloc layout ∨ call = .allocZeroed layout ∨
      ∃ address, call = .dealloc address layout)
    (hrun : call.act.run heap = .ok answer next) : next = heap := by
  rcases hcall with rfl | rfl | ⟨address, rfl⟩
  · exact (EStateM.Result.ok.inj (hrun.symm.trans (run_alloc_empty hsize))).2
  · obtain ⟨address?, mid, halloc, hrest⟩ := of_run_bind hrun
    obtain ⟨rfl, rfl⟩ := EStateM.Result.ok.inj (halloc.symm.trans (run_alloc_empty hsize))
    obtain ⟨-, rfl⟩ := EStateM.Result.ok.inj hrest
    rw [hsize]
    unfold modifyMemory
    cases mid with
    | mk arena journal => cases arena <;> rfl
  · obtain ⟨_, mid, hdealloc, hrest⟩ := of_run_bind hrun
    obtain ⟨-, rfl⟩ := EStateM.Result.ok.inj (hdealloc.symm.trans (run_dealloc_empty hsize))
    exact (EStateM.Result.ok.inj hrest).2.symm

theorem Backs.answers (h : heap.Backs ledger calls)
    (hrun : call.act.run heap = .ok answer next) : Answers heap ledger call answer next := by
  refine ⟨?_, ?_, ?_, ?_⟩
  · intro layout hlayout hsize
    obtain ⟨mid, halloc⟩ := exists_alloc hlayout hrun
    exact (EStateM.Result.ok.inj (halloc.symm.trans (run_alloc_empty hsize))).1
  · intro layout hlayout hsize hnone
    obtain ⟨mid, halloc⟩ := exists_alloc hlayout hrun
    cases harena : heap.arena with
    | none =>
      exact (EStateM.Result.ok.inj (halloc.symm.trans (run_alloc_uninstalled hsize harena))).1
    | some arena =>
      obtain ⟨config, memory, hinstalled, -⟩ := (h.serving arena harena).installed
      rw [hnone] at hinstalled
      cases hinstalled
  · intro layout hlayout hsize config memory hinstalled hsteep
    obtain ⟨mid, halloc⟩ := exists_alloc hlayout hrun
    cases harena : heap.arena with
    | none =>
      rw [(h.vacant harena).1] at hinstalled
      cases hinstalled
    | some arena =>
      obtain ⟨config', memory', hinstalled', hregion⟩ := (h.serving arena harena).installed
      rw [hinstalled] at hinstalled'
      cases hinstalled'
      have hunit : arena.config.unit = config.unit := congrArg Region.unit hregion
      rw [← hunit] at hsteep
      exact (EStateM.Result.ok.inj
        (halloc.symm.trans (run_alloc_overaligned hsize harena hsteep))).1
  · intro layout hsize hcall
    exact eq_of_run_empty hsize hcall hrun

/-! ### Histories -/

theorem backs_empty : Backs {} {} 0 := by
  refine ⟨fun _ => ⟨rfl, rfl⟩, ?_, ?_⟩
  · intro arena harena
    cases harena
  · intro lease hlease
    cases hlease

/-- A history of calls keeps the leases backed, however long it is. -/
theorem Runs.backed {final : Ledger} (hruns : Runs heap ledger history last final)
    (h : heap.Backs ledger calls) (hcounted : heap.Counted) :
    last.Backs final (calls + history.length) ∧ last.Counted := by
  induction hruns generalizing calls with
  | nil => exact ⟨h, hcounted⟩
  | @cons heap mid last ledger final call answer rest hallows hcall hrest ih =>
    obtain ⟨hbacks, hcounted'⟩ := h.of_run_call hcounted hallows hcall
    obtain ⟨hlast, hcounted''⟩ := ih hbacks hcounted'
    rw [Nat.add_assoc, Nat.add_comm 1] at hlast
    exact ⟨hlast, hcounted''⟩

theorem Runs.backs {final : Ledger} (hruns : Runs heap ledger history last final)
    (h : heap.Backs ledger calls) (hlength : calls + history.length + 1 < 2 ^ 64) :
    last.Backs final (calls + history.length) :=
  (hruns.backed h (h.counted (by omega))).1

/-- **After every history of calls the leases are honoured, and every further call that is
allowed comes to its end.** -/
theorem Runs.honours_leases (hruns : Runs {} {} history last ledger)
    (hlength : history.length < 2 ^ 63) :
    last.Honours ledger ∧ ∀ call, ledger.Allows call → ∃ answer next,
      call.act.run last = .ok answer next ∧ Answers last ledger call answer next := by
  have hbacks := hruns.backs backs_empty (by omega)
  refine ⟨hbacks.honours, ?_⟩
  intro call hallows
  obtain ⟨answer, next, hrun, -⟩ := hbacks.call (by omega) hallows
  exact ⟨answer, next, hrun, hbacks.answers hrun⟩

/-- A layout of a few bytes. -/
def small : Layout := ⟨24, 8, AlignUnit.default.isPowerOfTwo, by decide⟩

/-- A layout without bytes. -/
def nothing : Layout := ⟨0, 16, ⟨4, rfl⟩, by decide⟩

theorem honours_leases_sample :
    ∃ last ledger, Runs {} {} [(.alloc small, none), (.init {} Arena.sample, none),
        (.allocZeroed small, some 4152), (.alloc nothing, some 16),
        (.write 4153 [7], none)] last ledger ∧
      last.read 4152 24 = 0 :: 7 :: List.replicate 22 0 ∧ last.stats?.elim 0 (·.live) = 1 ∧
      ∃ next, (Heap.alloc nothing).run last = .ok (some 16) next := by
  obtain ⟨first, hcreate⟩ := @Arena.exists_create Silent {} Arena.sample ⟨⟩ (by decide +kernel)
    (by decide +kernel)
  have hregion := (Arena.create_eq hcreate).1
  have hconfig := (Arena.settings_of_create hcreate).1
  have hkept := Arena.kept_create hcreate (by rw [hregion]; decide +kernel)
  have hquiet : Arena.Kept { first with journal := #[] } first.region
      (Cells.whole first.region) 0 := ⟨hkept.region, hkept.tidy, hkept.counts⟩
  obtain ⟨arena, hrun, -⟩ := hquiet.run_allocate (by decide) 24
  have hanswer : (Cells.allocated first.region 24 (Cells.whole first.region)).1 = some 4152 := by
    rw [hregion]
    decide +kernel
  rw [hanswer] at hrun
  have hinit : (Heap.init {} Arena.sample).run {} = .ok () (install first {}) := by
    unfold Heap.init
    rw [show Arena.create { ({} : Config) with capture := false } Arena.sample ⟨⟩ = .ok first
      from hcreate]
    rfl
  have hgranted : (Heap.alloc small).run (install first {}) =
      .ok (some 4152) (install arena (install first {})) := by
    refine run_alloc_served (by decide) rfl ?_ hrun
    rw [hconfig]
    decide
  obtain ⟨last, ledger, hruns, hcount, lease, hlease, haddress, hlayout, hbytes⟩ :
      ∃ last ledger, Runs {} {} [(.alloc small, none), (.init {} Arena.sample, none),
        (.allocZeroed small, some 4152), (.alloc nothing, some 16),
        (.write 4153 [7], none)] last ledger ∧
      (ledger.leases.countP fun lease => lease.layout.size ≠ 0) = 1 ∧
      ∃ lease ∈ ledger.leases, lease.address = 4152 ∧ lease.layout = small ∧
        lease.bytes = 0 :: 7 :: List.replicate 22 0 := by
    refine ⟨_, _, .cons trivial (run_alloc_uninstalled (by decide) rfl) (.cons ⟨first, hcreate⟩
      (run_bind_ok hinit) (.cons trivial (run_bind_ok hgranted) (.cons trivial (run_alloc_empty rfl)
        (.cons ⟨_, .tail _ (.head _), show 4152 ≤ 4153 by decide, show 4154 ≤ 4176 by decide⟩ rfl
          (.nil _ _))))), rfl, _, .head _, rfl, rfl, rfl⟩
  obtain ⟨hhonours, hnext⟩ := hruns.honours_leases (by decide)
  have hcontents := hhonours.contents lease hlease
  rw [haddress, hlayout] at hcontents
  obtain ⟨answer, next, hrun', hanswers⟩ := hnext (.alloc nothing) trivial
  have hsome : answer = some 16 := hanswers.empty nothing rfl rfl
  subst hsome
  refine ⟨last, ledger, hruns, ?_, hhonours.counted.trans hcount, next, hrun'⟩
  exact hcontents.trans hbytes

end Heap

end FirstFit
