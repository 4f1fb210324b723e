/-
Whole runs.

An arena that was created keeps cells, a step that is allowed succeeds and keeps them, and
so by induction on the history every run of a client does (`Arena.Runs.kept_of_word`).  From this
follow the two statements about runs: the chain is sound after each of them, and no step of
a client ever fails (`Arena.Runs.keeps_chain`); and the arena does what first fit on a list
of cells does (`Arena.Runs.refines_cells`).

The number of steps matters because the counters are words.  They are the only thing in an
arena that grows without end.  What is said of a run that was made holds for any number of
steps; a bound is needed where it is said that a step can be taken.

A region without room for a block has no chain, and an arena there does nothing at all.
-/
import FirstFit.Proofs.Simulation

namespace FirstFit

namespace Cells

/-- Steps on cells, one after another: the answers, and the cells afterwards. -/
def run? (r : Region) : List Step → List Cell → Option (List (Option Nat) × List Cell)
  | [], cells => some ([], cells)
  | s :: rest, cells =>
    match step? r cells s with
    | none => none
    | some (answer, after) =>
      (run? r rest after).map fun (answers, cells) => (answer :: answers, cells)

/-- Whether a client that keeps to the rules can take steps one after another. -/
def AllowsAll (r : Region) (cells : List Cell) : List Step → Prop
  | [] => True
  | s :: rest => Allows r cells s ∧ ∀ x ∈ step? r cells s, AllowsAll r x.2 rest

instance decidableAllowsAll (r : Region) :
    (cells : List Cell) → (ss : List Step) → Decidable (AllowsAll r cells ss)
  | _, [] => inferInstanceAs (Decidable True)
  | cells, s :: rest =>
    have := fun after => decidableAllowsAll r after rest
    inferInstanceAs (Decidable (Allows r cells s ∧ ∀ x ∈ step? r cells s, AllowsAll r x.2 rest))

end Cells

namespace Arena

open Cells

variable {τ : Type} {arena first last : Arena τ} {r : Region} {cells : List Cell} {steps : Nat}

/-! ### Regions without room -/

/-- There is no chain in a region that has no room for a block. -/
theorem blocks_of_not_usable (h : ¬ arena.region.Usable) : arena.blocks = [] := by
  unfold blocks walk Walk.through
  rw [if_neg h]
  rfl

theorem verify_of_not_usable (h : ¬ arena.region.Usable) : arena.verify = .ok () := by
  unfold verify walk Walk.through
  rw [if_neg h]
  rfl

theorem usable_of_mem_blocks {b : Block} (hb : b ∈ arena.blocks) : arena.region.Usable := by
  by_contra hnot
  rw [blocks_of_not_usable hnot] at hb
  cases hb

theorem not_live_of_not_usable (h : ¬ arena.region.Usable) (b : Block) (address : Nat) :
    ¬ arena.Live b address := fun hlive => h (usable_of_mem_blocks hlive.1)

variable [Tracer τ]

/-- Whatever is asked for there or given back, only the peaks are ever moved. -/
theorem run_call_of_not_usable (h : ¬ arena.region.Usable) {s : Step}
    (hs : ∀ address bytes, s ≠ .write address bytes) :
    (step s).run arena = .ok none (if s = .resetPeaks then arena.resetPeaks else arena) := by
  cases s with
  | allocate request => exact run_allocate_refused rfl (.inl h)
  | release address => exact run_step_release_iff.mpr ⟨rfl, run_release_ignored (.inr h)⟩
  | resetPeaks => rfl
  | write address bytes => exact absurd rfl (hs address bytes)

theorem run_step_of_not_usable (h : ¬ arena.region.Usable) {s : Step} (hallows : arena.Allows s) :
    ∃ next, (step s).run arena = .ok none next ∧ next.region = arena.region ∧
      next.memory = arena.memory := by
  refine ⟨_, run_call_of_not_usable h ?_, ?_, ?_⟩
  · rintro address bytes rfl
    obtain ⟨b, payload, hlive, -⟩ := hallows
    exact not_live_of_not_usable h b payload hlive
  · split <;> rfl
  · split <;> rfl

theorem Runs.of_not_usable {history : List (Step × Option Nat)} (hruns : Runs first history last)
    (h : ¬ first.region.Usable) :
    last.region = first.region ∧ last.memory = first.memory ∧ ∀ x ∈ history, x.2 = none := by
  induction hruns with
  | nil => exact ⟨rfl, rfl, by simp⟩
  | @cons arena mid last s answer rest hallows hstep hrest ih =>
    obtain ⟨next, hrun, hregion, hmemory⟩ := run_step_of_not_usable h hallows
    obtain ⟨hanswer, hnext⟩ := EStateM.Result.ok.inj (hstep.symm.trans hrun)
    subst hnext
    obtain ⟨hregion', hmemory', hnone⟩ := ih (hregion ▸ h)
    refine ⟨hregion'.trans hregion, hmemory'.trans hmemory, fun x hx => ?_⟩
    rcases List.mem_cons.mp hx with rfl | hx
    · exact hanswer
    · exact hnone x hx

theorem Runs.not_usable {history : List (Step × Option Nat)} (hruns : Runs first history last)
    (h : ¬ first.region.Usable) : ¬ last.region.Usable :=
  (hruns.of_not_usable h).1 ▸ h

theorem Runs.usable {history : List (Step × Option Nat)} (hruns : Runs first history last)
    (h : last.region.Usable) : first.region.Usable := by
  by_contra hnot
  exact hruns.not_usable hnot h

/-! ### Regions with a chain -/

/-- A run keeps cells, and they are what the steps make of the cells before.  It may be of any
length, if the count of allocations is a word when it starts. -/
theorem Runs.kept_of_word {history : List (Step × Option Nat)} (hruns : Runs first history last)
    (h : first.Kept r cells steps) (hword : first.stats.allocs < 2 ^ 64) :
    ∃ after, run? r (history.map Prod.fst) cells = some (history.map Prod.snd, after) ∧
      last.Kept r after (steps + history.length) ∧ last.stats.allocs < 2 ^ 64 := by
  induction hruns generalizing cells steps with
  | nil => exact ⟨cells, rfl, h, hword⟩
  | @cons arena mid last s answer rest hallows hstep hrest ih =>
    obtain ⟨after, hfollows, hword'⟩ := h.follows_of_run hword hallows hstep
    obtain ⟨after', hrun', hkept, hlast⟩ := ih hfollows.kept hword'
    refine ⟨after', ?_, ?_, hlast⟩
    · rw [List.map_cons, List.map_cons, run?, hfollows.step]
      dsimp only
      rw [hrun']
      rfl
    · rw [List.length_cons, Nat.add_comm rest.length, ← Nat.add_assoc]
      exact hkept

theorem Runs.kept {history : List (Step × Option Nat)} (hruns : Runs first history last)
    (h : first.Kept r cells steps) (hlength : steps + history.length < 2 ^ 64) :
    ∃ after, run? r (history.map Prod.fst) cells = some (history.map Prod.snd, after) ∧
      last.Kept r after (steps + history.length) := by
  have hle := h.counts.allocs_le
  obtain ⟨after, hrun, hkept, -⟩ := hruns.kept_of_word h (by omega)
  exact ⟨after, hrun, hkept⟩

/-- What the cells do, the arena does: steps that are allowed can be taken, with the same
answers. -/
theorem Kept.run_of_cells {ss : List Step} {answers : List (Option Nat)} {after : List Cell}
    (h : arena.Kept r cells steps) (hallows : AllowsAll r cells ss)
    (hrun : run? r ss cells = some (answers, after)) (hlength : steps + ss.length < 2 ^ 64) :
    ∃ last, Runs arena (ss.zip answers) last ∧ last.Kept r after (steps + ss.length) := by
  induction ss generalizing arena cells steps answers with
  | nil =>
    cases hrun
    exact ⟨arena, .nil arena, h⟩
  | cons s rest ih =>
    rw [List.length_cons] at hlength
    obtain ⟨hs, hrest⟩ := hallows
    obtain ⟨answer, next, mid, hstep, hfollows⟩ := h.run_step (by omega) (h.allows_iff.mpr hs)
    rw [run?, hfollows.step] at hrun
    obtain ⟨⟨answers', after'⟩, hrun', hcons⟩ := Option.map_eq_some_iff.mp hrun
    obtain ⟨rfl, rfl⟩ := Prod.mk.inj hcons
    obtain ⟨last, hruns, hkept⟩ := ih hfollows.kept (hrest _ hfollows.step) hrun' (by omega)
    refine ⟨last, .cons (h.allows_iff.mpr hs) hstep hruns, ?_⟩
    rw [List.length_cons, Nat.add_comm rest.length, ← Nat.add_assoc]
    exact hkept

/-- A run from the creation on keeps cells, and the count of allocations stays a word. -/
theorem Runs.reaches {config : Config} {memory : Memory} {tracer : τ}
    {history : List (Step × Option Nat)} (hcreate : create config memory tracer = .ok first)
    (hruns : Runs first history last) (husable : first.region.Usable) :
    ∃ cells, run? first.region (history.map Prod.fst) (whole first.region) =
        some (history.map Prod.snd, cells) ∧ last.Kept first.region cells history.length ∧
      last.stats.allocs < 2 ^ 64 := by
  have hkept := kept_create hcreate husable
  have hle := hkept.counts.allocs_le
  obtain ⟨cells, hrun, hlast, hword⟩ := hruns.kept_of_word hkept (by omega)
  rw [Nat.zero_add] at hlast
  exact ⟨cells, hrun, hlast, hword⟩

theorem Runs.kept_of_create {config : Config} {memory : Memory} {tracer : τ}
    {history : List (Step × Option Nat)} (hcreate : create config memory tracer = .ok first)
    (hruns : Runs first history last) (husable : first.region.Usable)
    (hlength : history.length < 2 ^ 64) :
    ∃ cells, run? first.region (history.map Prod.fst) (whole first.region) =
        some (history.map Prod.snd, cells) ∧ last.Kept first.region cells history.length := by
  obtain ⟨cells, hrun, hkept⟩ := hruns.kept (kept_create hcreate husable) (by omega)
  rw [Nat.zero_add] at hkept
  exact ⟨cells, hrun, hkept⟩

theorem exists_run_of_cells {config : Config} {memory : Memory} (tracer : τ) {ss : List Step}
    {answers : List (Option Nat)} {after : List Cell}
    (hstart : memory.start + config.unit.bytes < 2 ^ 64)
    (husable : (Region.within config.unit memory).Usable)
    (hallows : AllowsAll (.within config.unit memory) (whole (.within config.unit memory)) ss)
    (hrun : run? (.within config.unit memory) ss (whole (.within config.unit memory)) =
      some (answers, after)) (hlength : ss.length < 2 ^ 64) :
    ∃ first last : Arena τ, create config memory tracer = .ok first ∧
      first.region = .within config.unit memory ∧ Runs first (ss.zip answers) last ∧
      last.Kept (.within config.unit memory) after ss.length := by
  have hcapacity := (Region.lies_within husable).capacity_lt
  have husable' := husable
  unfold Region.Usable at husable'
  obtain ⟨first, hcreate⟩ := exists_create tracer hstart
    (show _ + (Region.within config.unit memory).unit.bytes < 2 ^ 64 by omega)
  have hregion := (create_eq hcreate).1
  have hkept := kept_create hcreate (hregion ▸ husable)
  rw [hregion] at hkept
  obtain ⟨last, hruns, hlast⟩ := hkept.run_of_cells hallows hrun (by omega)
  rw [Nat.zero_add] at hlast
  exact ⟨first, last, hcreate, hregion, hruns, hlast⟩

/-! ### The chain after a run -/

/-- **After every run of a client the chain is sound, and its next step succeeds.**  Where the
region has room for a block, the headers are a chain, every offset and size is counted in
units, free blocks have no token, and no payload starts at the end of the region, because
the last block has room for a unit. -/
theorem Runs.keeps_chain {config : Config} {memory : Memory} {tracer : τ}
    {history : List (Step × Option Nat)} (hcreate : create config memory tracer = .ok first)
    (hruns : Runs first history last) (hlength : history.length < 2 ^ 64) :
    last.verify = .ok () ∧
      (last.region.Usable →
        Chain last.region last.headerAt last.blocks ∧
          (∀ b ∈ last.blocks, config.unit.bytes ∣ b.offset ∧ config.unit.bytes ∣ b.size ∧
            (b.isFree = true → b.header.trace = none) ∧
            last.region.payload b.offset < last.region.base + last.region.capacity) ∧
          ∀ b, last.blocks.getLast? = some b → config.unit.bytes ≤ b.size) ∧
      (history.length + 1 < 2 ^ 64 → ∀ s, last.Allows s →
        ∃ answer next, (step s).run last = .ok answer next) := by
  have hunit : first.region.unit = config.unit := by
    rw [(create_eq hcreate).1]
    rfl
  by_cases husable : first.region.Usable
  · obtain ⟨cells, -, hkept⟩ := hruns.kept_of_create hcreate husable hlength
    rw [hkept.region, ← hunit]
    refine ⟨hkept.verify_eq, fun _ => ⟨hkept.region ▸ hkept.chain, fun b hb => ?_, fun b hb => ?_⟩,
      fun hlength' s hallows => ?_⟩
    · obtain ⟨hoffset, hsize, htrace, hroomy⟩ := hkept.block_facts hb
      have hpos := first.region.unit.bytes_pos
      refine ⟨hoffset, hsize, htrace, ?_⟩
      unfold Region.payload
      omega
    · obtain ⟨-, -, -, hroomy⟩ := hkept.block_facts (List.mem_of_getLast? hb)
      obtain ⟨b', hb', hstop, -⟩ := hkept.chain.last
      rw [hb, Option.some.injEq] at hb'
      subst hb'
      rw [hkept.region] at hstop
      unfold Region.stop at hstop
      omega
    · obtain ⟨answer, next, _, hrun, _⟩ := hkept.run_step hlength' hallows
      exact ⟨answer, next, hrun⟩
  · obtain ⟨hregion, -, -⟩ := hruns.of_not_usable husable
    rw [← hregion] at husable
    refine ⟨verify_of_not_usable husable, fun husable' => absurd husable' husable,
      fun _ s hallows => ?_⟩
    obtain ⟨next, hrun, -⟩ := run_step_of_not_usable husable hallows
    exact ⟨none, next, hrun⟩

/-- A memory in which two blocks of a few units each have room. -/
def sample : Memory :=
  ⟨4096, Memory.repeated 200 0, by rw [Memory.size_repeated]; decide,
    by rw [Memory.size_repeated]; decide⟩

/-- Steps that are allowed on its cells make a run in an arena over `sample`. -/
theorem exists_sample_run {ss : List Step} {answers : List (Option Nat)} {after : List Cell}
    (hcells : AllowsAll (.within ({} : Config).unit sample)
        (whole (.within ({} : Config).unit sample)) ss ∧
      run? (.within ({} : Config).unit sample) ss (whole (.within ({} : Config).unit sample)) =
        some (answers, after)) (hlength : ss.length < 2 ^ 64) :
    ∃ first last : Arena Silent, create {} sample ⟨⟩ = .ok first ∧
      first.region = .within ({} : Config).unit sample ∧ Runs first (ss.zip answers) last ∧
      last.Kept (.within ({} : Config).unit sample) after ss.length :=
  @exists_run_of_cells Silent _ {} sample ⟨⟩ ss answers after (by decide +kernel)
    (by decide +kernel) hcells.1 hcells.2 hlength

theorem keeps_chain_sample :
    ∃ first last : Arena Silent, create {} sample ⟨⟩ = .ok first ∧
      Runs first [(.allocate 24, some 4152), (.allocate 0, some 4232), (.write 4152 [7], none),
        (.release 4152, none)] last ∧
      last.verify = .ok () ∧ last.region.Usable ∧ Chain last.region last.headerAt last.blocks ∧
      ∃ answer next, (step (.allocate 8)).run last = .ok answer next := by
  obtain ⟨first, last, hcreate, -, hruns, hkept⟩ := @exists_run_of_cells Silent _ {} sample ⟨⟩
    [.allocate 24, .allocate 0, .write 4152 [7], .release 4152] [some 4152, some 4232, none, none]
    [⟨24, false⟩, ⟨0, true⟩, ⟨8, false⟩] (by decide +kernel) (by decide +kernel)
    (by decide +kernel) (by decide +kernel) (by decide)
  have husable : last.region.Usable := by
    rw [hkept.region]
    decide +kernel
  obtain ⟨hverify, hchain, hnext⟩ := Runs.keeps_chain hcreate hruns (by decide)
  exact ⟨first, last, hcreate, hruns, hverify, husable, (hchain husable).1,
    hnext (by decide) (.allocate 8) (show 8 < 2 ^ 64 by decide)⟩

/-! ### First fit on cells -/

/-- **Every run of a client is the run of the same steps on cells, with the same answers.**  The
blocks listed after it are the cells, and every further step that is allowed succeeds,
answers as it does on the cells, and lists the cells afterwards. -/
theorem Runs.refines_cells {config : Config} {memory : Memory} {tracer : τ}
    {history : List (Step × Option Nat)} (hcreate : create config memory tracer = .ok first)
    (husable : first.region.Usable) (hruns : Runs first history last)
    (hlength : history.length < 2 ^ 63) :
    ∃ cells, run? first.region (history.map Prod.fst) (whole first.region) =
        some (history.map Prod.snd, cells) ∧
      last.Lists first.region cells ∧
      ∀ s, last.Allows s → ∃ answer next after, (step s).run last = .ok answer next ∧
        step? first.region cells s = some (answer, after) ∧ next.Lists first.region after := by
  obtain ⟨cells, hrun, hkept⟩ := hruns.kept_of_create hcreate husable (by omega)
  refine ⟨cells, hrun, hkept.lists, fun s hallows => ?_⟩
  obtain ⟨answer, next, after, hstep, hfollows⟩ := hkept.run_step (by omega) hallows
  exact ⟨answer, next, after, hstep, hfollows.step, hfollows.kept.lists⟩

theorem refines_cells_sample :
    ∃ first last : Arena Silent, create {} sample ⟨⟩ = .ok first ∧
      Runs first [(.allocate 8, some 4152), (.allocate 3, some 4216), (.allocate 200, none),
        (.release 4152, none), (.release 4216, none)] last ∧
      last.blocks.map (fun b => (b.offset, Cell.mk b.size (!b.isFree))) = [(0, ⟨144, false⟩)] := by
  obtain ⟨first, last, hcreate, hregion, hruns, -⟩ := @exists_run_of_cells Silent _ {} sample ⟨⟩
    [.allocate 8, .allocate 3, .allocate 200, .release 4152, .release 4216]
    [some 4152, some 4216, none, none, none] [⟨144, false⟩] (by decide +kernel) (by decide +kernel)
    (by decide +kernel) (by decide +kernel) (by decide)
  have husable : first.region.Usable := by
    rw [hregion]
    decide +kernel
  obtain ⟨cells, hrun, hlists, -⟩ := Runs.refines_cells hcreate husable hruns (by decide)
  refine ⟨first, last, hcreate, hruns, hlists.trans ?_⟩
  rw [hregion] at hrun ⊢
  have hcells : run? (.within .default sample)
      [.allocate 8, .allocate 3, .allocate 200, .release 4152, .release 4216]
      (whole (.within .default sample)) =
      some ([some 4152, some 4216, none, none, none], [⟨144, false⟩]) := by decide +kernel
  obtain ⟨-, rfl⟩ := Prod.mk.inj (Option.some.inj (hrun.symm.trans hcells))
  decide +kernel

end Arena

end FirstFit
