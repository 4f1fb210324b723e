/-
Looking and recording change nothing.

Two arenas over the same bytes, with the same unit, are given the same steps.  They may differ in
when they verify the chain, in whether they record who allocates, and in what tracer they ask.
Verification finds nothing after any step, so it stops none; and what a tracer answers comes to
one word in the header of an allocated block, which nobody reads but to give it back.  So both
keep the same cells (`Arena.Paired`), and a step takes them to two that do again
(`Arena.Paired.step`): its answer and the counters in use are settled by the cells, the other
counters by the step (`Stats.Moves.unique`), and what becomes of the bytes in no header by the
sweep (`Region.Swept.byteAt_eq`).
-/
import FirstFit.Proofs.Accounting
import FirstFit.Proofs.Canonical
import FirstFit.Tracer.Playback

namespace FirstFit

open Cells

theorem Header.toWord_eq_of_bare_eq {h h' : Header} (hbare : h.bare = h'.bare) {field : Field}
    (hfield : field ≠ .trace) : h.toWord field = h'.toWord field := by
  have hword : ∀ h : Header, h.toWord field = h.bare.toWord field := by
    intro h
    cases field with
    | trace => exact absurd rfl hfield
    | _ => rfl
  rw [hword h, hbare, ← hword h']

/-- An address is one of those of the word for a token. -/
def Region.InTrace (r : Region) (offset a : Nat) : Prop :=
  r.base + offset + Header.Field.trace.position ≤ a ∧
    a < r.base + offset + Header.Field.trace.position + 8

theorem Step.byteAt_applied_congr {m m' : Memory} {a : Nat} (hstart : m.start = m'.start)
    (hsize : m.size = m'.size) (h : m.byteAt a = m'.byteAt a) (s : Step) :
    (s.applied m).byteAt a = (s.applied m').byteAt a := by
  cases s with
  | write address bytes =>
    have hcovers : m.Covers a 1 ↔ m'.Covers a 1 := by
      unfold Memory.Covers Memory.stop
      rw [hstart, hsize]
    show (m.write address bytes).byteAt a = (m'.write address bytes).byteAt a
    rw [Memory.byteAt_write, Memory.byteAt_write, h]
    simp only [hcovers]
  | _ => exact h

namespace Arena

variable {τ τ' : Type} {arena first last : Arena τ} {arena' first' : Arena τ'} {r : Region}
  {cells : List Cell} {steps : Nat} {s : Step} {history : List (Step × Option Nat)}
  {config config' : Config} {memory : Memory} {tracer : τ} {tracer' : τ'}

/-- Two arenas differ in nothing that a client could see, and in no byte but those of the tokens
of allocated blocks. -/
structure Mirrors (arena : Arena τ) (arena' : Arena τ') : Prop where
  stats : arena.stats = arena'.stats
  start : arena.memory.start = arena'.memory.start
  size : arena.memory.size = arena'.memory.size
  bytes : ∀ a, (∀ b ∈ arena.blocks, b.isFree = false → ¬ arena.region.InTrace b.offset a) →
    arena.memory.byteAt a = arena'.memory.byteAt a

/-- Two arenas keep the same cells, with the same counters and the same bytes in no header. -/
structure Paired (arena : Arena τ) (arena' : Arena τ') (r : Region) (cells : List Cell)
    (steps : Nat) : Prop where
  kept : arena.Kept r cells steps
  kept' : arena'.Kept r cells steps
  capped : arena.stats.Capped
  stats : arena.stats = arena'.stats
  start : arena.memory.start = arena'.memory.start
  size : arena.memory.size = arena'.memory.size
  bytes : ∀ a, (∀ o ∈ offsets r.footprint cells, ¬ r.InWords o a) →
    arena.memory.byteAt a = arena'.memory.byteAt a

/-- In the header of a cell they have the same bytes too, unless it is one of a token. -/
theorem Paired.byteAt_eq (h : arena.Paired arena' r cells steps) {p : Nat × Cell}
    (hp : p ∈ place r.footprint 0 cells) {a : Nat} (hwords : r.InWords p.1 a)
    (htrace : p.2.allocated = true → ¬ r.InTrace p.1 a) :
    arena.memory.byteAt a = arena'.memory.byteAt a := by
  obtain ⟨hlow, hhigh⟩ := hwords
  have hbare := h.kept.bare_eq h.kept' hp
  by_cases hallocated : p.2.allocated = true
  · obtain ⟨field, hstart, hstop⟩ :=
      Header.Field.exists_position (i := a - (r.base + p.1)) (by omega)
    have hfield : field ≠ .trace := by
      rintro rfl
      exact htrace hallocated ⟨by omega, by omega⟩
    have hword := Header.toWord_eq_of_bare_eq hbare hfield
    have ha : r.base + p.1 + field.position + (a - (r.base + p.1) - field.position) = a := by omega
    unfold Region.headerAt at hword
    rw [Memory.toWord_header, Memory.toWord_header] at hword
    rw [← ha]
    exact Memory.byteAt_eq_of_word_eq hword (by omega)
  · -- A free block has no token, so its header is the same altogether.
    rw [Bool.not_eq_true] at hallocated
    obtain ⟨_, hdescribes⟩ := h.kept.tidy.held.describes hp
    obtain ⟨_, hdescribes'⟩ := h.kept'.tidy.held.describes hp
    have htokens := (hdescribes.untraced hallocated).trans (hdescribes'.untraced hallocated).symm
    exact Memory.byteAt_eq_of_header_eq (Header.eq_of_bare_eq hbare htokens) hlow hhigh

theorem Paired.mirrors (h : arena.Paired arena' r cells steps) : arena.Mirrors arena' := by
  refine ⟨h.stats, h.start, h.size, fun a hout => ?_⟩
  by_cases hin : ∃ o ∈ offsets r.footprint cells, r.InWords o a
  · obtain ⟨o, ho, hwords⟩ := hin
    obtain ⟨c, hc⟩ := mem_offsets.mp ho
    refine h.byteAt_eq hc hwords fun hallocated => ?_
    have hlive := h.kept.live_iff.mpr ⟨(o, c), hc, hallocated, rfl, rfl⟩
    rw [← h.kept.region]
    exact hout _ hlive.1 hlive.2.1
  · exact h.bytes a fun o ho hwords => hin ⟨o, ho, hwords⟩

/-! ### Two arenas over the same bytes -/

/-- Whether an arena can be created depends on the unit and the memory only. -/
theorem exists_create_of_unit_eq (tracer' : τ') (hunit : config.unit = config'.unit)
    (h : create config memory tracer = .ok first) :
    ∃ first' : Arena τ', create config' memory tracer' = .ok first' := by
  unfold create at h
  dsimp only at h
  rw [hunit] at h
  cases hstart : Word.add memory.start config'.unit.bytes with
  | error fault =>
    rw [hstart] at h
    cases h
  | ok start =>
    cases hleast : Word.add (Region.within config'.unit memory).footprint config'.unit.bytes with
    | error fault =>
      rw [hstart, hleast] at h
      cases h
    | ok least =>
      obtain ⟨rfl, hstart⟩ := Word.add_eq_ok_iff.mp hstart
      obtain ⟨rfl, hleast⟩ := Word.add_eq_ok_iff.mp hleast
      exact exists_create tracer' hstart hleast

theorem paired_create (hunit : config.unit = config'.unit)
    (h : create config memory tracer = .ok first) (h' : create config' memory tracer' = .ok first')
    (husable : first.region.Usable) : first.Paired first' first.region (whole first.region) 0 := by
  obtain ⟨hregion, hstats, hmemory⟩ := create_eq h
  obtain ⟨hregion', hstats', hmemory'⟩ := create_eq h'
  rw [← hunit, ← hregion] at hregion'
  rw [hregion', ← hmemory] at hmemory'
  have hkept' := kept_create h' (hregion' ▸ husable)
  rw [hregion'] at hkept'
  refine ⟨kept_create h husable, hkept', ?_, hstats.trans hstats'.symm, by rw [hmemory'],
    by rw [hmemory'], fun a _ => by rw [hmemory']⟩
  rw [hstats]
  exact ⟨Nat.le_refl _, Nat.le_refl _⟩

/-! ### The same steps in both -/

variable [Tracer τ] [Tracer τ']

/-- **A step takes two arenas with the same cells to two with the same cells.** -/
theorem Paired.step (h : arena.Paired arena' r cells steps) (hsteps : steps + 1 < 2 ^ 64)
    (hallows : arena.Allows s) :
    arena'.Allows s ∧ ∃ answer next next' after, (step s).run arena = .ok answer next ∧
      (Arena.step s).run arena' = .ok answer next' ∧ next.Paired next' r after (steps + 1) := by
  have hallows' := h.kept'.allows_iff.mpr (h.kept.allows_iff.mp hallows)
  obtain ⟨answer, next, after, hrun, hfollows⟩ := h.kept.run_step hsteps hallows
  obtain ⟨answer', next', after', hrun', hfollows'⟩ := h.kept'.run_step hsteps hallows'
  obtain ⟨rfl, rfl⟩ := Prod.mk.inj (Option.some.inj (hfollows.step.symm.trans hfollows'.step))
  have hword : steps < 2 ^ 64 := by omega
  have hsettles := h.kept.settles hword h.capped hallows hrun hfollows.step
  have hsettles' := h.kept'.settles hword (h.stats ▸ h.capped) hallows' hrun' hfollows'.step
  refine ⟨hallows', answer, next, next', after, hrun, hrun', hfollows.kept, hfollows'.kept,
    hsettles.moves.capped, ?_, ?_, ?_, fun a hout => ?_⟩
  · refine hsettles.moves.unique (h.stats ▸ hsettles'.moves) ?_ ?_
    · exact hfollows.kept.counts.used.trans hfollows'.kept.counts.used.symm
    · exact hfollows.kept.counts.live.trans hfollows'.kept.counts.live.symm
  · rw [hsettles.swept.start, hsettles'.swept.start, Step.start_applied, Step.start_applied,
      h.start]
  · rw [hsettles.swept.size, hsettles'.swept.size, Step.size_applied, Step.size_applied, h.size]
  · refine hsettles.swept.byteAt_eq hsettles'.swept (fun b hb => ?_) hout
    exact Step.byteAt_applied_congr h.start h.size (h.bytes b hb) s

theorem Runs.paired (hruns : Runs first history last) (h : first.Paired first' r cells steps)
    (hlength : steps + history.length < 2 ^ 64) :
    ∃ last' after, Runs first' history last' ∧
      last.Paired last' r after (steps + history.length) := by
  induction hruns generalizing first' cells steps with
  | nil => exact ⟨first', cells, .nil first', h⟩
  | @cons arena mid last s answer rest hallows hstep hrest ih =>
    rw [List.length_cons] at hlength
    obtain ⟨hallows', _, _, mid', after, hrun, hrun', hpaired⟩ := h.step (by omega) hallows
    obtain ⟨rfl, rfl⟩ := EStateM.Result.ok.inj (hstep.symm.trans hrun)
    obtain ⟨last', after', hruns', hlast⟩ := ih hpaired (by omega)
    rw [List.length_cons, Nat.add_comm rest.length, ← Nat.add_assoc]
    exact ⟨last', after', .cons hallows' hrun' hruns', hlast⟩

theorem Runs.paired_of_not_usable (hruns : Runs first history last)
    (h : ¬ first.region.Usable) (h' : ¬ first'.region.Usable) :
    ∃ last', Runs first' history last' := by
  induction hruns generalizing first' with
  | nil => exact ⟨first', .nil first'⟩
  | @cons arena mid last s answer rest hallows hstep hrest ih =>
    obtain ⟨next, hrun, hregion, -⟩ := run_step_of_not_usable h hallows
    obtain ⟨rfl, rfl⟩ := EStateM.Result.ok.inj (hstep.symm.trans hrun)
    have hallows' := (allows_iff_of_not_usable h').mpr ((allows_iff_of_not_usable h).mp hallows)
    obtain ⟨next', hrun', hregion', -⟩ := run_step_of_not_usable h' hallows'
    obtain ⟨last', hruns'⟩ := ih (hregion ▸ h) (hregion' ▸ h')
    exact ⟨last', .cons hallows' hrun' hruns'⟩

theorem Runs.mirrored (hunit : config.unit = config'.unit)
    (hcreate : create config memory tracer = .ok first)
    (hcreate' : create config' memory tracer' = .ok first') (hruns : Runs first history last)
    (hlength : history.length < 2 ^ 64) :
    ∃ last', Runs first' history last' ∧ last.Mirrors last' := by
  by_cases husable : first.region.Usable
  · obtain ⟨last', after, hruns', hpaired⟩ :=
      hruns.paired (paired_create hunit hcreate hcreate' husable) (by omega)
    exact ⟨last', hruns', hpaired.mirrors⟩
  · obtain ⟨hregion, hstats, hmemory⟩ := create_eq hcreate
    obtain ⟨hregion', hstats', hmemory'⟩ := create_eq hcreate'
    rw [← hunit, ← hregion] at hregion'
    rw [hregion', ← hmemory] at hmemory'
    have husable' : ¬ first'.region.Usable := hregion' ▸ husable
    obtain ⟨last', hruns'⟩ := hruns.paired_of_not_usable husable husable'
    obtain ⟨-, hlast, -⟩ := hruns.of_not_usable husable
    obtain ⟨-, hlast', -⟩ := hruns'.of_not_usable husable'
    have hsame : last.memory = last'.memory := by rw [hlast, hlast', hmemory']
    refine ⟨last', hruns', ?_, by rw [hsame], by rw [hsame], fun a _ => by rw [hsame]⟩
    rw [hruns.stats_of_not_usable husable hstats, hruns'.stats_of_not_usable husable' hstats']

/-- **When the chain is verified, whether callers are recorded, and by what tracer, makes no
difference to a client.**  Over the same memory and with the same unit, what can be done with one
setting can be done with any other, with the same answers and the same counters, and it leaves
the same bytes but for the tokens in the headers of allocated blocks. -/
theorem observers_change_nothing (tracer' : τ') (hunit : config.unit = config'.unit)
    (hcreate : create config memory tracer = .ok first) :
    ∃ first' : Arena τ', create config' memory tracer' = .ok first' ∧
      ∀ history last, history.length < 2 ^ 64 → Runs first history last →
        ∃ last', Runs first' history last' ∧ last.Mirrors last' ∧
          (history.length + 1 < 2 ^ 64 → ∀ s, last.Allows s → last'.Allows s ∧
            ∃ answer next next', (step s).run last = .ok answer next ∧
              (step s).run last' = .ok answer next' ∧ next.Mirrors next') := by
  obtain ⟨first', hcreate'⟩ := exists_create_of_unit_eq tracer' hunit hcreate
  refine ⟨first', hcreate', fun history last hlength hruns => ?_⟩
  obtain ⟨last', hruns', hmirrors⟩ := hruns.mirrored hunit hcreate hcreate' hlength
  refine ⟨last', hruns', hmirrors, fun hlength' s hallows => ?_⟩
  obtain ⟨answer, next, hrun⟩ := hruns.exists_step hcreate hlength' hallows
  -- One step more is a longer run, which has a counterpart too.
  have hlonger := hruns.append (.cons hallows hrun (.nil next))
  obtain ⟨next', hlonger', hnext⟩ :=
    hlonger.mirrored hunit hcreate hcreate' (by simpa using hlength')
  obtain ⟨mid, hruns'', hallows', hrun'⟩ := hlonger'.of_concat
  obtain rfl := hruns'.unique hruns''
  exact ⟨hallows', answer, next, next', hrun, hrun', hnext⟩

/-- Settings with which everything is looked at and recorded. -/
def watchful : Config := { verify := .always, capture := true }

theorem observers_change_nothing_watchful :
    ∃ (first last : Arena Silent) (first' last' : Arena Playback),
      create {} sample ⟨⟩ = .ok first ∧
      create watchful sample { script := [some ⟨7, by decide⟩, none] } = .ok first' ∧
      Runs first [(.allocate 8, some 4152), (.allocate 3, some 4216), (.release 4152, none)] last ∧
      Runs first' [(.allocate 8, some 4152), (.allocate 3, some 4216), (.release 4152, none)]
        last' ∧
      last.Mirrors last' ∧ ∃ answer next', (step (.allocate 9)).run last' = .ok answer next' := by
  obtain ⟨first, last, hcreate, -, hruns, -⟩ := @exists_sample_run
    [.allocate 8, .allocate 3, .release 4152] [some 4152, some 4216, none]
    [⟨8, false⟩, ⟨8, true⟩, ⟨16, false⟩] (by decide +kernel) (by decide)
  obtain ⟨first', hcreate', hsame⟩ := @observers_change_nothing Silent Playback first {} watchful
    sample ⟨⟩ _ _ { script := [some ⟨7, by decide⟩, none] } rfl hcreate
  obtain ⟨last', hruns', hmirrors, hnext⟩ := hsame _ last (by decide) hruns
  obtain ⟨-, answer, _, next', -, hrun', -⟩ :=
    hnext (by decide) (.allocate 9) (show 9 < 2 ^ 64 by decide)
  exact ⟨first, last, first', last', hcreate, hcreate', hruns, hruns', hmirrors, answer, next',
    hrun'⟩

end Arena

end FirstFit
