/-
What one step changes, to the byte and to the count.

`Arena.Follows` says of a step what its client may rely on.  To hold one run against another,
or the counters against a history, it has to be known what a step does to everything else
too, and that nothing but the step and the cells decides it.  `Arena.Settles` is that: the
bytes in no header are swept from the memory the step's own write leaves, and the counters
move as `Stats.Moves` says.

A step can raise a peak or reset it, but to lower what is in use needs no look at the peaks.
That is the same as raising them to what is in use, because they are never below it
(`Stats.Capped`), and so one equation does for all steps.
-/
import FirstFit.Proofs.Runs

namespace FirstFit

namespace Step

/-- Whether a step with this answer handed out a block. -/
def grants : Step → (answer : Option Nat) → Bool
  | .allocate _, answer => answer.isSome
  | _, _ => false

/-- Whether a step gave a block back; zero is the address of none. -/
def reclaims : Step → Bool
  | .release address => address != 0
  | _ => false

/-- Whether a client that never was handed anything can take a step. -/
def Idle : Step → Prop
  | .allocate request => request < 2 ^ 64
  | .release address => address = 0
  | .resetPeaks => True
  | .write _ _ => False

/-- The memory after what a step writes for the client itself. -/
def applied (m : Memory) : Step → Memory
  | .write address bytes => m.write address bytes
  | _ => m

@[simp] theorem start_applied (s : Step) (m : Memory) : (s.applied m).start = m.start := by
  cases s <;> simp [applied]

@[simp] theorem size_applied (s : Step) (m : Memory) : (s.applied m).size = m.size := by
  cases s <;> simp [applied]

end Step

/-! ### Counters -/

namespace Stats

variable {s s' : Stats} {step : Step} {answer : Option Nat} {size : Nat}

/-- No more is in use than at the peak. -/
structure Capped (s : Stats) : Prop where
  used : s.used ≤ s.maxUsed
  live : s.live ≤ s.maxLive

/-- How a step moves the counters, but for what is in use. -/
structure Moves (s s' : Stats) (step : Step) (answer : Option Nat) : Prop where
  allocs : s'.allocs = s.allocs + if step.grants answer then 1 else 0
  releases : s'.releases = s.releases + if step.reclaims then 1 else 0
  maxUsed : s'.maxUsed = if step = .resetPeaks then s'.used else max s.maxUsed s'.used
  maxLive : s'.maxLive = if step = .resetPeaks then s'.live else max s.maxLive s'.live

theorem Moves.capped (h : s.Moves s' step answer) : s'.Capped := by
  by_cases hreset : step = .resetPeaks
  · exact ⟨by rw [h.maxUsed, if_pos hreset], by rw [h.maxLive, if_pos hreset]⟩
  · refine ⟨?_, ?_⟩
    · rw [h.maxUsed, if_neg hreset]
      exact Nat.le_max_right _ _
    · rw [h.maxLive, if_neg hreset]
      exact Nat.le_max_right _ _

/-- A step that leaves the counters as they were. -/
theorem Capped.moves_refl (h : s.Capped) (hgrants : step.grants answer = false)
    (hreclaims : step.reclaims = false) (hne : step ≠ .resetPeaks) : s.Moves s step answer := by
  refine ⟨by simp [hgrants], by simp [hreclaims], ?_, ?_⟩
  · rw [if_neg hne, Nat.max_eq_left h.used]
  · rw [if_neg hne, Nat.max_eq_left h.live]

theorem moves_granted (hgrants : step.grants answer = true) (hreclaims : step.reclaims = false)
    (hne : step ≠ .resetPeaks) : s.Moves (s.granted size) step answer := by
  refine ⟨by simp [hgrants, granted, raisePeaks], by simp [hreclaims, granted, raisePeaks], ?_, ?_⟩
  · rw [if_neg hne]
    rfl
  · rw [if_neg hne]
    rfl

/-- What is given back lowers no peak. -/
theorem Capped.moves_reclaimed (h : s.Capped) (hgrants : step.grants answer = false)
    (hreclaims : step.reclaims = true) (hne : step ≠ .resetPeaks) :
    s.Moves (s.reclaimed size) step answer := by
  have hused := h.used
  have hlive := h.live
  refine ⟨by simp [hgrants, reclaimed], by simp [hreclaims, reclaimed], ?_, ?_⟩
  · rw [if_neg hne]
    show s.maxUsed = max s.maxUsed (s.used - size)
    omega
  · rw [if_neg hne]
    show s.maxLive = max s.maxLive (s.live - 1)
    omega

theorem moves_resetPeaks : s.Moves s.resetPeaks .resetPeaks answer := by
  refine ⟨by simp [Step.grants, resetPeaks], by simp [Step.reclaims, resetPeaks], rfl, rfl⟩

/-- The counters after a step are settled by those before, and by what is in use afterwards. -/
theorem Moves.unique {s'' : Stats} (h : s.Moves s' step answer) (h' : s.Moves s'' step answer)
    (hused : s'.used = s''.used) (hlive : s'.live = s''.live) : s' = s'' := by
  have hallocs := h.allocs.trans h'.allocs.symm
  have hreleases := h.releases.trans h'.releases.symm
  have hmaxUsed := h.maxUsed.trans (hused ▸ h'.maxUsed.symm)
  have hmaxLive := h.maxLive.trans (hlive ▸ h'.maxLive.symm)
  obtain ⟨used, maxUsed, live, maxLive, allocs, releases⟩ := s'
  simp only at hused hlive hallocs hreleases hmaxUsed hmaxLive
  rw [hused, hlive, hallocs, hreleases, hmaxUsed, hmaxLive]

end Stats

/-! ### Steps -/

namespace Arena

open Cells

variable {τ : Type} {arena next first last : Arena τ} {r : Region} {cells after : List Cell}
  {steps : Nat} {s : Step} {answer : Option Nat}

/-- What becomes of the counters in a step, and of the bytes in no header. -/
structure Settles (arena next : Arena τ) (r : Region) (cells after : List Cell) (s : Step)
    (answer : Option Nat) : Prop where
  moves : arena.stats.Moves next.stats s answer
  swept : r.Swept (s.applied arena.memory) next.memory (offsets r.footprint cells)
    (offsets r.footprint after)

/-- Where there is no chain a client never has anything to give back or to write to. -/
theorem allows_iff_of_not_usable (h : ¬ arena.region.Usable) : arena.Allows s ↔ s.Idle := by
  have hnone := not_live_of_not_usable h
  cases s with
  | allocate n => exact Iff.rfl
  | release address =>
    refine ⟨fun hallows => hallows.resolve_right fun hlive => ?_, .inl⟩
    obtain ⟨b, hlive⟩ := hlive
    exact hnone b address hlive
  | resetPeaks => exact Iff.rfl
  | write address bytes =>
    refine ⟨fun hallows => ?_, False.elim⟩
    obtain ⟨b, payload, hlive, -⟩ := hallows
    exact hnone b payload hlive

variable [Tracer τ]

theorem Kept.settles_allocate (h : arena.Kept r cells steps) (hcapped : arena.stats.Capped)
    {n : Nat} (hrun : (step (.allocate n)).run arena = .ok answer next)
    (hstep : step? r cells (.allocate n) = some (answer, after)) :
    arena.Settles next r cells after (.allocate n) answer := by
  obtain ⟨-, hswept, -, -, size, hstats⟩ := h.of_run_allocate hrun
  obtain ⟨-, rfl⟩ := Prod.mk.inj (Option.some.inj hstep)
  refine ⟨?_, hswept⟩
  rw [hstats]
  by_cases hnone : answer = none
  · rw [if_pos hnone]
    exact hcapped.moves_refl (by simp [Step.grants, hnone]) rfl (by simp)
  · rw [if_neg hnone]
    refine Stats.moves_granted ?_ rfl (by simp)
    exact Option.isSome_iff_ne_none.mpr hnone

theorem Kept.settles_release (h : arena.Kept r cells steps) (hsteps : steps < 2 ^ 64)
    (hcapped : arena.stats.Capped) {address : Nat} (hallows : arena.Allows (.release address))
    (hrun : (step (.release address)).run arena = .ok answer next)
    (hstep : step? r cells (.release address) = some (answer, after)) :
    arena.Settles next r cells after (.release address) answer := by
  obtain ⟨rfl, hrelease⟩ := run_step_release_iff.mp hrun
  by_cases hzero : address = 0
  · subst hzero
    rw [run_release_ignored (.inl rfl)] at hrelease
    obtain ⟨-, rfl⟩ := EStateM.Result.ok.inj hrelease
    obtain ⟨-, rfl⟩ := Prod.mk.inj (Option.some.inj hstep)
    exact ⟨hcapped.moves_refl rfl rfl (by simp), .refl _ _⟩
  · obtain ⟨p, hp, hallocated, rfl⟩ := (h.allows_iff.mp hallows).resolve_left hzero
    obtain ⟨pre, post, rfl, hplace⟩ := mem_place_iff.mp hp
    rw [Nat.zero_add] at hplace
    obtain ⟨next', hrun', -, hreclaims⟩ := h.run_release hallocated hsteps
    rw [← hplace, hrelease] at hrun'
    obtain ⟨-, rfl⟩ := EStateM.Result.ok.inj hrun'
    rw [step?, if_neg hzero, hplace, release?_append hallocated] at hstep
    obtain ⟨-, rfl⟩ := Prod.mk.inj (Option.some.inj hstep)
    refine ⟨?_, hreclaims.swept⟩
    rw [hreclaims.stats]
    exact hcapped.moves_reclaimed rfl (by simpa [Step.reclaims] using hzero) (by simp)

/-- **A step settles the counters and the bytes in no header.** -/
theorem Kept.settles (h : arena.Kept r cells steps) (hsteps : steps < 2 ^ 64)
    (hcapped : arena.stats.Capped) (hallows : arena.Allows s)
    (hrun : (step s).run arena = .ok answer next)
    (hstep : step? r cells s = some (answer, after)) :
    arena.Settles next r cells after s answer := by
  cases s with
  | allocate n => exact h.settles_allocate hcapped hrun hstep
  | release address => exact h.settles_release hsteps hcapped hallows hrun hstep
  | resetPeaks =>
    obtain ⟨rfl, rfl⟩ := EStateM.Result.ok.inj hrun
    obtain ⟨-, rfl⟩ := Prod.mk.inj (Option.some.inj hstep)
    exact ⟨Stats.moves_resetPeaks, .refl _ _⟩
  | write address bytes =>
    obtain ⟨rfl, rfl⟩ := EStateM.Result.ok.inj hrun
    obtain ⟨-, rfl⟩ := Prod.mk.inj (Option.some.inj hstep)
    exact ⟨hcapped.moves_refl rfl rfl (by simp), .refl _ _⟩

/-- An arena without a chain has nothing to count. -/
theorem stats_step_of_not_usable (h : ¬ arena.region.Usable) (hallows : arena.Allows s)
    (hrun : (step s).run arena = .ok answer next) (hstats : arena.stats = {}) :
    next.stats = {} := by
  cases s with
  | allocate n =>
    have hrefused := run_allocate_refused (n := n) rfl (.inl h)
    obtain ⟨-, rfl⟩ := EStateM.Result.ok.inj (hrun.symm.trans hrefused)
    exact hstats
  | release address =>
    obtain ⟨-, hrelease⟩ := run_step_release_iff.mp hrun
    rw [run_release_ignored (.inr h)] at hrelease
    obtain ⟨-, rfl⟩ := EStateM.Result.ok.inj hrelease
    exact hstats
  | resetPeaks =>
    obtain ⟨-, rfl⟩ := EStateM.Result.ok.inj hrun
    show arena.stats.resetPeaks = {}
    rw [hstats]
    rfl
  | write address bytes => exact absurd ((allows_iff_of_not_usable h).mp hallows) not_false

end Arena

end FirstFit
