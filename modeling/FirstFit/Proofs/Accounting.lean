/-
The counters are exact.

They are changed apart from the headers whose sizes they add up, so it takes the invariant to
know that they agree: what is in use is what the allocated blocks of the chain have, and with
what the free blocks have, and a footprint for each block, it makes up the region
(`Cells.extent_eq`).

Allocations, releases and peaks are about the past.  A history is followed from its end: the
last step moves the counters as `Stats.Moves` says, and what came before is a history too.  A
peak is the greatest of what was in use since it was last reset; `Arena.SinceReset` tells
which states these are, and one more step adds one state to them or leaves no other
(`Arena.sinceReset_concat`).
-/
import Mathlib.Order.Bounds.Basic
import FirstFit.Proofs.Effects
import FirstFit.Proofs.Exclusive

namespace FirstFit

/-! ### What makes up a region -/

namespace Cells

/-- How many bytes of payload the free cells have. -/
def vacant (cells : List Cell) : Nat := ((cells.filter (!·.allocated)).map (·.size)).sum

theorem vacant_cons (c : Cell) (cells : List Cell) :
    vacant (c :: cells) = (if c.allocated then 0 else c.size) + vacant cells := by
  by_cases hc : c.allocated = true <;> simp [vacant, hc]

/-- Every byte of a region is handed out, free, or part of a footprint. -/
theorem extent_eq (footprint : Nat) (cells : List Cell) :
    extent footprint cells = used cells + vacant cells + footprint * cells.length := by
  induction cells with
  | nil => simp [used, vacant]
  | cons c rest ih =>
    rw [extent_cons, ih, used_cons, vacant_cons, List.length_cons, Nat.mul_succ]
    split <;> omega

theorem map_snd_place (footprint offset : Nat) (cells : List Cell) :
    (place footprint offset cells).map Prod.snd = cells := by
  induction cells generalizing offset with
  | nil => rfl
  | cons c rest ih => rw [place_cons, List.map_cons, ih]

end Cells

/-- The block without its place. -/
def Block.cell (b : Block) : Cell := ⟨b.size, !b.isFree⟩

theorem foldlM_add_size_eq_ok_iff {bs : List Block} {sum total : Nat} (hsum : sum < 2 ^ 64) :
    bs.foldlM (fun sum b => Word.add sum b.size) sum = .ok total ↔
      sum + (bs.map Block.size).sum = total ∧ total < 2 ^ 64 := by
  induction bs generalizing sum with
  | nil =>
    show Except.ok sum = .ok total ↔ sum + 0 = total ∧ _
    rw [Except.ok.injEq]
    omega
  | cons b rest ih =>
    rw [List.foldlM_cons, List.map_cons, List.sum_cons, ← Nat.add_assoc]
    by_cases hb : sum + b.size < 2 ^ 64
    · have hadd : Word.add sum b.size = .ok (sum + b.size) := if_pos hb
      rw [hadd]
      exact ih hb
    · have hadd : Word.add sum b.size = .error .addition := if_neg hb
      rw [hadd]
      constructor
      · intro h
        cases h
      · intro h
        omega

namespace Arena

open Cells

variable {τ : Type} {arena first mid mid' next last : Arena τ} {r : Region} {cells : List Cell}
  {steps : Nat} {history : List (Step × Option Nat)} {x : Step × Option Nat} {s : Step}
  {answer : Option Nat} {config : Config} {memory : Memory} {tracer : τ}

theorem Kept.map_cell (h : arena.Kept r cells steps) : arena.blocks.map Block.cell = cells := by
  have hlists := congrArg (List.map Prod.snd) h.lists
  rw [map_snd_place, List.map_map] at hlists
  exact hlists

theorem Kept.used_eq (h : arena.Kept r cells steps) :
    arena.stats.used = ((arena.blocks.filter fun b => !b.isFree).map Block.size).sum := by
  rw [h.counts.used, ← h.map_cell, used, List.filter_map, List.map_map]
  rfl

theorem Kept.live_eq (h : arena.Kept r cells steps) :
    arena.stats.live = arena.blocks.countP fun b => !b.isFree := by
  rw [h.counts.live, ← h.map_cell, live, List.countP_map]
  rfl

theorem freeBytes_eq_ok_iff {n : Nat} :
    arena.freeBytes = .ok n ↔ (arena.freeBlocks.map Block.size).sum = n ∧ n < 2 ^ 64 := by
  unfold freeBytes
  rw [foldlM_add_size_eq_ok_iff (by decide), Nat.zero_add]

theorem Kept.freeBytes_eq (h : arena.Kept r cells steps) :
    arena.freeBytes = .ok (vacant cells) := by
  have hsum : (arena.freeBlocks.map Block.size).sum = vacant cells := by
    rw [← h.map_cell, vacant, List.filter_map, List.map_map, freeBlocks]
    simp [Block.cell, Function.comp_def]
  have hcapacity := h.tidy.lies.capacity_lt
  have hcovers := h.tidy.covers
  rw [extent_eq] at hcovers
  exact freeBytes_eq_ok_iff.mpr ⟨hsum, by omega⟩

variable [Tracer τ]

/-! ### The last step of a history -/

theorem Runs.unique (h : Runs first history mid) (h' : Runs first history mid') : mid = mid' := by
  induction h with
  | nil =>
    cases h'
    rfl
  | cons _ hstep _ ih =>
    cases h' with
    | cons _ hstep' hrest' =>
      obtain ⟨-, rfl⟩ := EStateM.Result.ok.inj (hstep.symm.trans hstep')
      exact ih hrest'

theorem Runs.of_concat (h : Runs first (history ++ [x]) last) :
    ∃ mid, Runs first history mid ∧ mid.Allows x.1 ∧ (step x.1).run mid = .ok x.2 last := by
  obtain ⟨mid, hbefore, hlast⟩ := h.of_append
  cases hlast with
  | cons hallows hstep hnil =>
    cases hnil
    exact ⟨mid, hbefore, hallows, hstep⟩

/-- A run keeps what is in use below the peaks. -/
theorem Runs.capped (hruns : Runs first history last) (h : first.Kept r cells steps)
    (hlength : steps + history.length < 2 ^ 64) (hcapped : first.stats.Capped) :
    last.stats.Capped := by
  induction hruns generalizing cells steps with
  | nil => exact hcapped
  | @cons arena mid last s answer rest hallows hstep hrest ih =>
    rw [List.length_cons] at hlength
    obtain ⟨after, hfollows⟩ := h.follows (by omega) hallows hstep
    have hsettles := h.settles (by omega) hcapped hallows hstep hfollows.step
    exact ih hfollows.kept (by omega) hsettles.moves.capped

/-- Without a chain nothing is ever counted. -/
theorem Runs.stats_of_not_usable (hruns : Runs first history last) (h : ¬ first.region.Usable)
    (hstats : first.stats = {}) : last.stats = {} := by
  induction hruns with
  | nil => exact hstats
  | @cons arena mid last s answer rest hallows hstep hrest ih =>
    obtain ⟨next, hrun, hregion, -⟩ := run_step_of_not_usable h hallows
    obtain ⟨-, rfl⟩ := EStateM.Result.ok.inj (hstep.symm.trans hrun)
    exact ih (hregion ▸ h) (stats_step_of_not_usable h hallows hstep hstats)

/-- Whatever is allowed after a run from the creation on can be done. -/
theorem Runs.exists_step (hcreate : create config memory tracer = .ok first)
    (hruns : Runs first history last) (hlength : history.length + 1 < 2 ^ 64)
    (hallows : last.Allows s) : ∃ answer next, (step s).run last = .ok answer next := by
  by_cases husable : first.region.Usable
  · obtain ⟨cells, -, hkept⟩ := hruns.kept_of_create hcreate husable (by omega)
    obtain ⟨answer, next, -, hrun, -⟩ := hkept.run_step hlength hallows
    exact ⟨answer, next, hrun⟩
  · obtain ⟨next, hrun, -⟩ := run_step_of_not_usable (hruns.not_usable husable) hallows
    exact ⟨none, next, hrun⟩

theorem Runs.moves_last (hcreate : create config memory tracer = .ok first)
    (hruns : Runs first history mid) (hlength : history.length + 1 < 2 ^ 64)
    (hallows : mid.Allows s) (hrun : (step s).run mid = .ok answer next) :
    mid.stats.Moves next.stats s answer := by
  have hstats := (create_eq hcreate).2.1
  by_cases husable : first.region.Usable
  · obtain ⟨cells, -, hkept⟩ := hruns.kept_of_create hcreate husable (by omega)
    have hfirst : first.stats.Capped := by
      rw [hstats]
      exact ⟨Nat.le_refl _, Nat.le_refl _⟩
    have hcapped := hruns.capped (kept_create hcreate husable) (by omega) hfirst
    obtain ⟨after, hfollows⟩ := hkept.follows hlength hallows hrun
    exact (hkept.settles (by omega) hcapped hallows hrun hfollows.step).moves
  · have hmid := hruns.stats_of_not_usable husable hstats
    have hmidUsable := hruns.not_usable husable
    have hnext := stats_step_of_not_usable hmidUsable hallows hrun hmid
    obtain ⟨next', hrun', -⟩ := run_step_of_not_usable hmidUsable hallows
    obtain ⟨rfl, -⟩ := EStateM.Result.ok.inj (hrun.symm.trans hrun')
    rw [hmid, hnext]
    refine ⟨?_, ?_, by simp, by simp⟩
    · cases s <;> rfl
    · cases s with
      | release address =>
        have hzero : address = 0 := (allows_iff_of_not_usable hmidUsable).mp hallows
        rw [hzero]
        rfl
      | _ => rfl

/-- What was handed out and what was given back is counted. -/
theorem Runs.counted (hcreate : create config memory tracer = .ok first)
    (hruns : Runs first history last) (hlength : history.length < 2 ^ 64) :
    last.stats.allocs = history.countP (fun x => x.1.grants x.2) ∧
      last.stats.releases = history.countP fun x => x.1.reclaims := by
  induction history using List.reverseRecOn generalizing last with
  | nil =>
    cases hruns
    rw [(create_eq hcreate).2.1]
    exact ⟨rfl, rfl⟩
  | append_singleton before x ih =>
    rw [List.length_append, List.length_singleton] at hlength
    obtain ⟨mid, hbefore, hallows, hrun⟩ := hruns.of_concat
    obtain ⟨hallocs, hreleases⟩ := ih hbefore (by omega)
    have hmoves := hbefore.moves_last hcreate hlength hallows hrun
    rw [List.countP_append, List.countP_append, List.countP_singleton, List.countP_singleton,
      hmoves.allocs, hmoves.releases, hallocs, hreleases]
    exact ⟨rfl, rfl⟩

/-! ### Peaks -/

/-- The states of a history since the peaks were last reset, or since its start: the history
came through them, and no step after them was a reset. -/
def SinceReset (first : Arena τ) (history : List (Step × Option Nat)) (mid : Arena τ) : Prop :=
  ∃ before since, history = before ++ since ∧ Runs first before mid ∧
    ∀ x ∈ since, x.1 ≠ .resetPeaks

theorem sinceReset_concat (hruns : Runs first (history ++ [x]) last) :
    first.SinceReset (history ++ [x]) mid ↔
      mid = last ∨ x.1 ≠ .resetPeaks ∧ first.SinceReset history mid := by
  constructor
  · intro hsince
    obtain ⟨before, since, hhistory, hbefore, hnone⟩ := hsince
    rcases List.eq_nil_or_concat since with rfl | ⟨since, y, rfl⟩
    · rw [List.append_nil] at hhistory
      subst hhistory
      exact .inl (hbefore.unique hruns)
    · rw [List.concat_eq_append, ← List.append_assoc] at hhistory
      obtain ⟨rfl, rfl⟩ := List.append_singleton_inj.mp hhistory
      refine .inr ⟨hnone x (by simp), before, since, rfl, hbefore, fun z hz => hnone z ?_⟩
      simp [hz]
  · intro hcases
    rcases hcases with rfl | ⟨hx, before, since, rfl, hbefore, hnone⟩
    · exact ⟨history ++ [x], [], by simp, hruns, by simp⟩
    · refine ⟨before, since ++ [x], by simp, hbefore, fun y hy => ?_⟩
      rcases List.mem_append.mp hy with hy | hy
      · exact hnone y hy
      · rw [List.mem_singleton.mp hy]
        exact hx

/-- A counter that follows another one upwards, and down to it at a reset, is the greatest it
has been since. -/
theorem Runs.isGreatest_peak (now peak : Stats → Nat) (hruns : Runs first history last)
    (hfirst : peak first.stats = now first.stats)
    (hmoves : ∀ before mid x next, Runs first before mid → Runs mid [x] next →
      before ++ [x] <+: history →
      peak next.stats =
        if x.1 = .resetPeaks then now next.stats else max (peak mid.stats) (now next.stats)) :
    IsGreatest {n | ∃ mid, first.SinceReset history mid ∧ now mid.stats = n} (peak last.stats) := by
  induction history using List.reverseRecOn generalizing last with
  | nil =>
    cases hruns
    refine ⟨⟨first, ⟨[], [], rfl, .nil first, by simp⟩, hfirst.symm⟩, ?_⟩
    intro n hn
    obtain ⟨mid, ⟨before, since, hhistory, hbefore, -⟩, rfl⟩ := hn
    obtain ⟨rfl, rfl⟩ := List.append_eq_nil_iff.mp hhistory.symm
    cases hbefore
    exact hfirst.ge
  | append_singleton before x ih =>
    obtain ⟨mid, hbefore, hallows, hrun⟩ := hruns.of_concat
    have hpeak := hmoves before mid x last hbefore (.cons hallows hrun (.nil last))
      (List.prefix_refl _)
    have hbound := ih hbefore fun before' mid' y next' h h' hstart =>
      hmoves before' mid' y next' h h' (hstart.trans (List.prefix_append before [x]))
    simp only [sinceReset_concat hruns]
    by_cases hreset : x.1 = .resetPeaks
    · rw [hpeak, if_pos hreset]
      refine ⟨⟨last, .inl rfl, rfl⟩, ?_⟩
      intro n hn
      obtain ⟨mid', hmid | ⟨hnot, -⟩, rfl⟩ := hn
      · rw [hmid]
      · exact absurd hreset hnot
    · have hset : {n | ∃ mid', (mid' = last ∨ x.1 ≠ .resetPeaks ∧ first.SinceReset before mid') ∧
          now mid'.stats = n} =
          insert (now last.stats)
            {n | ∃ mid', first.SinceReset before mid' ∧ now mid'.stats = n} := by
        ext n
        simp only [Set.mem_ofPred_eq, Set.mem_insert_iff]
        constructor
        · intro hn
          obtain ⟨mid', rfl | ⟨-, hsince⟩, rfl⟩ := hn
          · exact .inl rfl
          · exact .inr ⟨mid', hsince, rfl⟩
        · intro hn
          rcases hn with rfl | ⟨mid', hsince, rfl⟩
          · exact ⟨last, .inl rfl, rfl⟩
          · exact ⟨mid', .inr ⟨hreset, hsince⟩, rfl⟩
      rw [hset, hpeak, if_neg hreset, Nat.max_comm]
      exact hbound.insert _

/-! ### The whole account -/

/-- What the counters say after a history. -/
structure Accounts (first : Arena τ) (history : List (Step × Option Nat)) (last : Arena τ) :
    Prop where
  /-- What is in use is what the allocated blocks have. -/
  used : last.stats.used = ((last.blocks.filter fun b => !b.isFree).map Block.size).sum
  live : last.stats.live = last.blocks.countP fun b => !b.isFree
  /-- Every request that was answered with an address is counted, and nothing else. -/
  allocs : last.stats.allocs = history.countP fun x => x.1.grants x.2
  releases : last.stats.releases = history.countP fun x => x.1.reclaims
  outstanding : last.stats.live + last.stats.releases = last.stats.allocs
  maxUsed : IsGreatest {n | ∃ mid, first.SinceReset history mid ∧ mid.stats.used = n}
    last.stats.maxUsed
  maxLive : IsGreatest {n | ∃ mid, first.SinceReset history mid ∧ mid.stats.live = n}
    last.stats.maxLive
  /-- With the free bytes and the headers it makes up the region. -/
  whole : last.region.Usable → ∃ free, last.freeBytes = .ok free ∧
    last.stats.used + free + last.region.footprint * last.blocks.length = last.region.capacity
  /-- Where there is no chain nothing is ever counted, whatever is given back. -/
  idle : ¬ last.region.Usable → last.stats.allocs = 0 ∧ last.stats.releases = 0 ∧
    ∀ address, (release address).run last = .ok () last

/-- What is in use, and what makes up the region, is read off the cells. -/
theorem Runs.accounts_chain (hcreate : create config memory tracer = .ok first)
    (hruns : Runs first history last) (hlength : history.length < 2 ^ 64) :
    last.stats.used = ((last.blocks.filter fun b => !b.isFree).map Block.size).sum ∧
      last.stats.live = (last.blocks.countP fun b => !b.isFree) ∧
      last.stats.live + last.stats.releases = last.stats.allocs ∧
      (last.region.Usable → ∃ free, last.freeBytes = .ok free ∧
        last.stats.used + free + last.region.footprint * last.blocks.length =
          last.region.capacity) := by
  by_cases husable : first.region.Usable
  · obtain ⟨cells, -, hkept⟩ := hruns.kept_of_create hcreate husable hlength
    refine ⟨hkept.used_eq, hkept.live_eq, hkept.counts.allocs.symm, fun _ => ?_⟩
    refine ⟨_, hkept.freeBytes_eq, ?_⟩
    have hcovers := hkept.tidy.covers
    have hcount := congrArg List.length hkept.map_cell
    rw [List.length_map] at hcount
    rw [hkept.region, hcount, hkept.counts.used, ← hcovers, extent_eq]
  · have hlast := hruns.not_usable husable
    have hstats := hruns.stats_of_not_usable husable (create_eq hcreate).2.1
    rw [hstats, blocks_of_not_usable hlast]
    exact ⟨rfl, rfl, rfl, fun h => absurd h hlast⟩

/-- **The counters are exact after every run of a client, and no step of one makes them leave
the words.**  What is in use agrees with the chain and with the region, what was counted with
the history, and the peaks are the greatest that was in use since they were last reset. -/
theorem Runs.exact_accounting (hcreate : create config memory tracer = .ok first)
    (hruns : Runs first history last) (hlength : history.length < 2 ^ 64) :
    first.Accounts history last ∧
      (history.length + 1 < 2 ^ 64 → ∀ s, last.Allows s →
        ∃ answer next, (step s).run last = .ok answer next) := by
  have hstats := (create_eq hcreate).2.1
  obtain ⟨hused, hlive, houtstanding, hwhole⟩ := hruns.accounts_chain hcreate hlength
  obtain ⟨hallocs, hreleases⟩ := hruns.counted hcreate hlength
  have hmoves : ∀ before mid x next, Runs first before mid → Runs mid [x] next →
      before ++ [x] <+: history → mid.stats.Moves next.stats x.1 x.2 := by
    intro before mid x next hbefore hlast hstart
    have hle := hstart.length_le
    rw [List.length_append, List.length_singleton] at hle
    cases hlast with
    | cons hallows hrun hnil =>
      cases hnil
      exact hbefore.moves_last hcreate (by omega) hallows hrun
  refine ⟨⟨hused, hlive, hallocs, hreleases, houtstanding, ?_, ?_, hwhole, ?_⟩, ?_⟩
  · refine hruns.isGreatest_peak Stats.used Stats.maxUsed (by rw [hstats]) ?_
    exact fun before mid x next h h' hp => (hmoves before mid x next h h' hp).maxUsed
  · refine hruns.isGreatest_peak Stats.live Stats.maxLive (by rw [hstats]) ?_
    exact fun before mid x next h h' hp => (hmoves before mid x next h h' hp).maxLive
  · intro hnot
    have hfirst : ¬ first.region.Usable := fun husable => by
      obtain ⟨cells, -, hkept⟩ := hruns.kept_of_create hcreate husable hlength
      exact hnot (hkept.region ▸ husable)
    rw [hruns.stats_of_not_usable hfirst hstats]
    exact ⟨rfl, rfl, fun address => run_release_ignored (.inr hnot)⟩
  · exact fun hlength' s hallows => hruns.exists_step hcreate hlength' hallows

theorem exact_accounting_sample :
    ∃ first last : Arena Silent, create {} sample ⟨⟩ = .ok first ∧
      Runs first [(.allocate 8, some 4152), (.allocate 200, none), (.resetPeaks, none),
        (.allocate 3, some 4216), (.release 4152, none), (.release 0, none)] last ∧
      last.stats.allocs = 2 ∧ last.stats.releases = 1 ∧ last.stats.live = 1 ∧
      last.stats.used = 8 ∧ last.freeBytes = .ok 24 ∧
      ∃ answer next, (step (.release 4216)).run last = .ok answer next := by
  obtain ⟨first, last, hcreate, -, hruns, hkept⟩ := @exists_sample_run
    [.allocate 8, .allocate 200, .resetPeaks, .allocate 3, .release 4152, .release 0]
    [some 4152, none, none, some 4216, none, none] [⟨8, false⟩, ⟨8, true⟩, ⟨16, false⟩]
    (by decide +kernel) (by decide)
  obtain ⟨haccounts, hnext⟩ := Runs.exact_accounting hcreate hruns (by decide)
  have hused : last.stats.used = 8 := hkept.counts.used
  have hallocs : last.stats.allocs = 2 := haccounts.allocs
  have hreleases : last.stats.releases = 1 := haccounts.releases
  have houtstanding := haccounts.outstanding
  have hallows : last.Allows (.release 4216) := hkept.allows_iff.mpr (by decide +kernel)
  exact ⟨first, last, hcreate, hruns, hallocs, hreleases, by omega, hused, hkept.freeBytes_eq,
    hnext (by decide) _ hallows⟩

end Arena

end FirstFit
