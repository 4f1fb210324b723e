/-
Releases in any order.

Blocks that are given back are merged in another way in every other order: with the block
before, with the one behind, or with both, and headers disappear sooner or later.  What is
left in the end is the same.  `Vacates` says what it is without speaking of an order: the
other allocated cells are where they were with their tokens, no header has appeared, and
the bytes are swept as from the first memory to the last.  One release does this
(`Arena.Kept.vacates_release`), one after another do it together (`Arena.Vacates.trans`),
and there is only one arena that it can lead to (`Arena.Vacates.memory_eq`,
`Arena.Vacates.stats_eq`): the cells are settled by the allocated ones, the headers by the
cells and the tokens, and all other bytes by the sweep.
-/
import FirstFit.Proofs.Canonical

namespace FirstFit

namespace Arena

open Cells

variable {τ : Type} {arena mid next next' last first : Arena τ} {r : Region}
  {cells between after after' : List Cell} {steps steps' : Nat} {xs ys : List Nat}

/-- What is left when the payloads at some addresses are given back, in whatever order. -/
structure Vacates (arena next : Arena τ) (r : Region) (cells after : List Cell) (xs : List Nat) :
    Prop where
  /-- The allocated cells are those that were not given back. -/
  allocated : ∀ p : Nat × Cell, p.2.allocated = true →
    (p ∈ place r.footprint 0 after ↔ p ∈ place r.footprint 0 cells ∧ r.payload p.1 ∉ xs)
  tokens : ∀ p ∈ place r.footprint 0 after, p.2.allocated = true →
    (r.headerAt next.memory p.1).trace = (r.headerAt arena.memory p.1).trace
  /-- No header appears. -/
  subset : ∀ o ∈ offsets r.footprint after, o ∈ offsets r.footprint cells
  swept : r.Swept arena.memory next.memory (offsets r.footprint cells) (offsets r.footprint after)
  maxUsed : next.stats.maxUsed = arena.stats.maxUsed
  maxLive : next.stats.maxLive = arena.stats.maxLive
  allocs : next.stats.allocs = arena.stats.allocs

theorem Vacates.refl (arena : Arena τ) (r : Region) (cells : List Cell) :
    arena.Vacates arena r cells cells [] :=
  ⟨fun p _ => by simp, fun _ _ _ => rfl, fun _ ho => ho, .refl _ _, rfl, rfl, rfl⟩

theorem Vacates.trans (h : arena.Vacates mid r cells between xs)
    (h' : mid.Vacates next r between after ys) : arena.Vacates next r cells after (xs ++ ys) := by
  refine ⟨?_, ?_, fun o ho => h.subset o (h'.subset o ho), ?_, h'.maxUsed.trans h.maxUsed,
    h'.maxLive.trans h.maxLive, h'.allocs.trans h.allocs⟩
  · intro p hp
    rw [h'.allocated p hp, h.allocated p hp, List.mem_append, not_or, and_assoc]
  · intro p hp hallocated
    rw [h'.tokens p hp hallocated]
    exact h.tokens p ((h'.allocated p hallocated).mp hp).1 hallocated
  · exact h.swept.trans h'.swept (fun o ho => .inl (h.subset o ho))
      fun o _ ho => h'.subset o ho

/-! ### What is left is settled -/

/-- The cells are settled by what was released. -/
theorem Vacates.cells_eq (h : arena.Vacates next r cells after xs)
    (h' : arena.Vacates next' r cells after' ys) (hsame : ∀ a, a ∈ xs ↔ a ∈ ys)
    (hkept : next.Kept r after steps) (hkept' : next'.Kept r after' steps') : after = after' := by
  refine @eq_of_allocated r.footprint 0 after after' r.footprint_pos hkept.tidy.merged
    hkept'.tidy.merged ?_ ?_
  · rw [hkept.tidy.covers, hkept'.tidy.covers]
  · intro p hp
    rw [h.allocated p hp, h'.allocated p hp, hsame]

theorem Kept.headerAt_eq (hkept : next.Kept r after steps) (hkept' : next'.Kept r after steps')
    (htokens : ∀ p ∈ place r.footprint 0 after, p.2.allocated = true →
      (r.headerAt next.memory p.1).trace = (r.headerAt next'.memory p.1).trace)
    {p : Nat × Cell} (hp : p ∈ place r.footprint 0 after) :
    r.headerAt next.memory p.1 = r.headerAt next'.memory p.1 := by
  refine Header.eq_of_bare_eq (hkept.bare_eq hkept' hp) ?_
  by_cases hallocated : p.2.allocated = true
  · exact htokens p hp hallocated
  · rw [Bool.not_eq_true] at hallocated
    obtain ⟨_, hdescribes⟩ := hkept.tidy.held.describes hp
    obtain ⟨_, hdescribes'⟩ := hkept'.tidy.held.describes hp
    rw [hdescribes.untraced hallocated, hdescribes'.untraced hallocated]

/-- The memory is settled by the cells. -/
theorem Vacates.memory_eq (h : arena.Vacates next r cells after xs)
    (h' : arena.Vacates next' r cells after ys) (hkept : next.Kept r after steps)
    (hkept' : next'.Kept r after steps') : next.memory = next'.memory := by
  have hheaders : ∀ o ∈ offsets r.footprint after,
      r.headerAt next.memory o = r.headerAt next'.memory o := by
    intro o ho
    obtain ⟨c, hc⟩ := mem_offsets.mp ho
    refine hkept.headerAt_eq hkept' ?_ hc
    intro p hp hallocated
    rw [h.tokens p hp hallocated, h'.tokens p hp hallocated]
  refine Memory.ext_byteAt (h.swept.start.trans h'.swept.start.symm)
    (h.swept.size.trans h'.swept.size.symm) ?_
  intro a _
  by_cases hin : ∃ o ∈ offsets r.footprint after, r.InWords o a
  · obtain ⟨o, ho, hlow, hhigh⟩ := hin
    exact Memory.byteAt_eq_of_header_eq (hheaders o ho) hlow hhigh
  · exact h.swept.byteAt_eq h'.swept (fun _ _ => rfl) fun o ho hwords => hin ⟨o, ho, hwords⟩

theorem Vacates.stats_eq (h : arena.Vacates next r cells after xs)
    (h' : arena.Vacates next' r cells after ys) (hkept : next.Kept r after steps)
    (hkept' : next'.Kept r after steps') : next.stats = next'.stats := by
  have hused := hkept.counts.used.trans hkept'.counts.used.symm
  have hlive := hkept.counts.live.trans hkept'.counts.live.symm
  have hallocs := h.allocs.trans h'.allocs.symm
  have hreleases : next.stats.releases = next'.stats.releases := by
    have hsum := hkept.counts.allocs
    have hsum' := hkept'.counts.allocs
    omega
  have hmaxUsed := h.maxUsed.trans h'.maxUsed.symm
  have hmaxLive := h.maxLive.trans h'.maxLive.symm
  cases hstats : next.stats
  cases hstats' : next'.stats
  simp only [hstats, hstats'] at hused hlive hallocs hreleases hmaxUsed hmaxLive
  simp only [Stats.mk.injEq]
  exact ⟨hused, hmaxUsed, hlive, hmaxLive, hallocs, hreleases⟩

theorem Vacates.live (h : arena.Vacates next r cells after xs) (hkept : arena.Kept r cells steps)
    (hkept' : next.Kept r after steps') {b : Block} {address : Nat} (hlive : arena.Live b address)
    (hnot : address ∉ xs) : ∃ b', next.Live b' address := by
  obtain ⟨p, hp, hallocated, -, rfl⟩ := hkept.live_iff.mp hlive
  have hstays := (h.allocated p hallocated).mpr ⟨hp, hnot⟩
  exact ⟨_, hkept'.live_iff.mpr ⟨p, hstays, hallocated, rfl, rfl⟩⟩

/-! ### Releases one after another -/

/-- The steps that give back the payloads at some addresses, with their answers. -/
def releases (addresses : List Nat) : List (Step × Option Nat) :=
  addresses.map fun address => (.release address, none)

variable [Tracer τ]

theorem Kept.vacates_release (h : arena.Kept r cells steps) (hword : arena.stats.allocs < 2 ^ 64)
    {b : Block} {address : Nat} (hlive : arena.Live b address) :
    ∃ next after, (step (.release address)).run arena = .ok none next ∧ next.Kept r after steps ∧
      arena.Vacates next r cells after [address] := by
  have hle := h.counts.allocs_le
  obtain ⟨p, hp, hallocated, -, rfl⟩ := h.live_iff.mp hlive
  obtain ⟨pre, post, rfl, hplace⟩ := mem_place_iff.mp hp
  rw [Nat.zero_add] at hplace
  obtain ⟨next, hrun, hkept, hreclaims⟩ := (h.recount (Nat.le_refl _)).run_release hallocated hword
  rw [← hplace] at hrun
  have hallocs : next.stats.allocs = arena.stats.allocs := by
    rw [hreclaims.stats]
    rfl
  refine ⟨next, _, run_step_release_iff.mpr ⟨rfl, hrun⟩, hkept.recount (hallocs ▸ hle), ?_, ?_,
    hreclaims.subset, hreclaims.swept, ?_, ?_, hallocs⟩
  · intro q hq
    have hpayload : r.payload q.1 = r.payload p.1 ↔ q.1 = extent r.footprint pre := by
      unfold Region.payload
      omega
    rw [mem_place_merge_iff hq, List.mem_singleton, hpayload]
  · intro q hq hq'
    exact hreclaims.tokens q.1 (mem_offsets.mpr ⟨q.2, hq⟩) ((mem_place_merge_iff hq').mp hq).2
  · rw [hreclaims.stats]
    rfl
  · rw [hreclaims.stats]
    rfl

/-- Live blocks can be released one after another. -/
theorem Kept.vacates (h : arena.Kept r cells steps) (hword : arena.stats.allocs < 2 ^ 64)
    (hnodup : xs.Nodup) (hlive : ∀ a ∈ xs, ∃ b, arena.Live b a) :
    ∃ next after, Runs arena (releases xs) next ∧ next.Kept r after steps ∧
      arena.Vacates next r cells after xs := by
  induction xs generalizing arena cells with
  | nil => exact ⟨arena, cells, .nil arena, h, .refl arena r cells⟩
  | cons x xs ih =>
    obtain ⟨hnot, hnodup⟩ := List.nodup_cons.mp hnodup
    obtain ⟨b, hx⟩ := hlive x List.mem_cons_self
    obtain ⟨mid, between, hstep, hkept, hvacates⟩ := h.vacates_release hword hx
    have hlive' : ∀ a ∈ xs, ∃ b, mid.Live b a := by
      intro a ha
      obtain ⟨b, hb⟩ := hlive a (List.mem_cons_of_mem _ ha)
      refine hvacates.live h hkept hb fun hsame => ?_
      rw [List.mem_singleton.mp hsame] at ha
      exact hnot ha
    obtain ⟨next, after, hruns, hkept', hvacates'⟩ :=
      ih hkept (hvacates.allocs ▸ hword) hnodup hlive'
    exact ⟨next, after, .cons (.inr ⟨b, hx⟩) hstep hruns, hkept', hvacates.trans hvacates'⟩

/-- **Releases commute, on every byte and every counter.**  Live blocks can be released in any
order, and two orders lead to the same memory and the same counters. -/
theorem Runs.releases_commute {config : Config} {memory : Memory} {tracer : τ}
    {history : List (Step × Option Nat)} (hcreate : create config memory tracer = .ok first)
    (hruns : Runs first history last) (hlive : ∀ a ∈ xs, ∃ b, last.Live b a) (hnodup : xs.Nodup)
    (hperm : xs.Perm ys) :
    ∃ next next', Runs last (releases xs) next ∧ Runs last (releases ys) next' ∧
      next.memory = next'.memory ∧ next.stats = next'.stats := by
  by_cases husable : first.region.Usable
  · obtain ⟨cells, -, hkept, hword⟩ := hruns.reaches hcreate husable
    obtain ⟨next, after, hreleases, hafter, hvacates⟩ := hkept.vacates hword hnodup hlive
    obtain ⟨next', after', hreleases', hafter', hvacates'⟩ :=
      hkept.vacates hword (hperm.nodup_iff.mp hnodup) fun a ha => hlive a (hperm.mem_iff.mpr ha)
    obtain rfl := hvacates.cells_eq hvacates' (fun _ => hperm.mem_iff) hafter hafter'
    exact ⟨next, next', hreleases, hreleases', hvacates.memory_eq hvacates' hafter hafter',
      hvacates.stats_eq hvacates' hafter hafter'⟩
  · -- There is nothing to release.
    have hlast : ¬ last.region.Usable := (hruns.of_not_usable husable).1 ▸ husable
    have hnone : xs = [] := by
      rw [List.eq_nil_iff_forall_not_mem]
      intro a ha
      obtain ⟨b, hb⟩ := hlive a ha
      exact not_live_of_not_usable hlast b a hb
    subst hnone
    rw [← hperm.nil_eq]
    exact ⟨last, last, .nil last, .nil last, rfl, rfl⟩

theorem releases_commute_sample :
    ∃ first last next next' : Arena Silent, create {} sample ⟨⟩ = .ok first ∧
      Runs first [(.allocate 8, some 4152), (.write 4152 [7, 8], none), (.allocate 0, some 4216),
        (.allocate 16, some 4272)] last ∧
      Runs last (releases [4152, 4216, 4272]) next ∧ Runs last (releases [4272, 4152, 4216]) next' ∧
      next.memory = next'.memory ∧ next.stats = next'.stats := by
  obtain ⟨first, last, hcreate, -, hruns, hkept⟩ := @exists_sample_run
    [.allocate 8, .write 4152 [7, 8], .allocate 0, .allocate 16]
    [some 4152, none, some 4216, some 4272] [⟨8, true⟩, ⟨0, true⟩, ⟨24, true⟩] (by decide +kernel)
    (by decide)
  have hallows : ∀ a ∈ [4152, 4216, 4272], Cells.Allows (.within ({} : Config).unit sample)
      [⟨8, true⟩, ⟨0, true⟩, ⟨24, true⟩] (.release a) := by decide +kernel
  have hlive : ∀ a ∈ [4152, 4216, 4272], ∃ b, last.Live b a := by
    intro a ha
    refine (hkept.allows_iff.mpr (hallows a ha)).resolve_left ?_
    rintro rfl
    simp at ha
  obtain ⟨next, next', hreleases⟩ := Runs.releases_commute hcreate hruns hlive (by decide)
    (show [4152, 4216, 4272].Perm [4272, 4152, 4216] by decide)
  exact ⟨first, last, next, next', hcreate, hruns, hreleases⟩

end Arena

end FirstFit
