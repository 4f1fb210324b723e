/-
What a client sees of the blocks it has.

The cells say all there is to know of a chain, but whoever keeps books on an arena knows no
cells: only which addresses were handed out, which came back, and what was written.
`Arena.Serves` says what a step does in these terms.  It also follows the tracer, because a
step asks it for a token exactly if it hands a block out, and gives one back exactly if it
takes a block back.

`Arena.Orderly` is what has to be known of an arena before a step, and is known of it again
afterwards.  It covers regions without a chain too, so nobody who uses it has to tell the two
apart.
-/
import FirstFit.Proofs.Effects

namespace FirstFit

namespace Cells

variable {r : Region} {cells after : List Cell} {answer : Option Nat} {p : Nat × Cell} {n o : Nat}

/-- What was given back is not there any more. -/
theorem ne_of_released (h : step? r cells (.release (r.payload o)) = some (answer, after))
    (hallows : Allows r cells (.release (r.payload o))) (hp : p ∈ place r.footprint 0 after)
    (hallocated : p.2.allocated = true) : p.1 ≠ o := by
  have hzero : r.payload o ≠ 0 := (r.payload_pos o).ne'
  obtain ⟨q, hq, hq', haddress⟩ := hallows.resolve_left hzero
  obtain ⟨pre, post, rfl, hplace⟩ := mem_place_iff.mp hq
  rw [Nat.zero_add] at hplace
  have hoffset : o = extent r.footprint pre := by
    unfold Region.payload at haddress
    omega
  rw [hoffset] at h hzero ⊢
  rw [step?, if_neg hzero, release?_append hq'] at h
  obtain ⟨-, rfl⟩ := Prod.mk.inj (Option.some.inj h)
  exact ((mem_place_merge_iff hallocated).mp hp).2

end Cells

namespace Arena

open Cells

variable {τ : Type} {arena next first : Arena τ} {r : Region} {cells after : List Cell}
  {steps n address address' : Nat} {b b' : Block} {s : Step} {answer : Option Nat}

/-! ### Between two steps -/

/-- What is known of an arena between two steps of a client. -/
structure Orderly (arena : Arena τ) : Prop where
  chain : arena.region.Usable → ∃ cells, arena.Kept arena.region cells arena.stats.allocs
  capped : arena.stats.Capped
  /-- Where there is no chain nothing is ever counted. -/
  idle : ¬ arena.region.Usable → arena.stats = {}

theorem Live.usable (hlive : arena.Live b address) : arena.region.Usable :=
  usable_of_mem_blocks hlive.1

section Create

variable {config : Config} {memory : Memory} {tracer : τ}

theorem orderly_create (hcreate : create config memory tracer = .ok first) : first.Orderly := by
  have hstats := (create_eq hcreate).2.1
  refine ⟨fun husable => ?_, ?_, fun _ => hstats⟩
  · have hkept := kept_create hcreate husable
    exact ⟨_, hkept.recount (Nat.le_refl _)⟩
  · rw [hstats]
    exact ⟨Nat.le_refl _, Nat.le_refl _⟩

theorem not_live_create (hcreate : create config memory tracer = .ok first) :
    ¬ first.Live b address := by
  intro hlive
  obtain ⟨p, hp, hallocated, -⟩ := (kept_create hcreate hlive.usable).live_iff.mp hlive
  rw [List.mem_singleton.mp hp] at hallocated
  cases hallocated

end Create

theorem Live.address_pos (hlive : arena.Live b address) : 0 < address := by
  obtain ⟨-, -, rfl⟩ := hlive
  exact arena.region.payload_pos _

/-- At an address there is one live block at most. -/
theorem Orderly.live_unique (h : arena.Orderly) (hlive : arena.Live b address)
    (hlive' : arena.Live b' address) : b' = b := by
  obtain ⟨cells, hkept⟩ := h.chain hlive.usable
  obtain ⟨p, -, -, rfl, haddress⟩ := hkept.live_iff.mp hlive
  obtain ⟨q, -, -, rfl, haddress'⟩ := hkept.live_iff.mp hlive'
  have hoffset : q.1 = p.1 := by
    unfold Region.payload at haddress haddress'
    omega
  rw [hoffset]

theorem Orderly.live_fits (h : arena.Orderly) (hlive : arena.Live b address) :
    arena.region.unit.bytes ∣ address ∧ arena.region.base ≤ address ∧
      address + b.size ≤ arena.region.base + arena.region.capacity := by
  obtain ⟨cells, hkept⟩ := h.chain hlive.usable
  obtain ⟨p, hp, -, rfl, rfl⟩ := hkept.live_iff.mp hlive
  obtain ⟨hdvd, hfits⟩ := hkept.tidy.place_fits hp
  have hsize : Block.size ⟨p.1, arena.region.headerAt arena.memory p.1⟩ = p.2.size :=
    hkept.size_eq hp
  rw [hsize]
  unfold Region.payload
  exact ⟨Nat.dvd_add (Nat.dvd_add hkept.tidy.lies.base_dvd hdvd) arena.region.dvd_footprint,
    by omega, by omega⟩

theorem Orderly.live_apart (h : arena.Orderly) (hlive : arena.Live b address)
    (hlive' : arena.Live b' address') (hne : address ≠ address') :
    address + b.size ≤ address' ∨ address' + b'.size ≤ address := by
  obtain ⟨cells, hkept⟩ := h.chain hlive.usable
  obtain ⟨p, hp, -, rfl, rfl⟩ := hkept.live_iff.mp hlive
  obtain ⟨q, hq, -, rfl, rfl⟩ := hkept.live_iff.mp hlive'
  have hsize : Block.size ⟨p.1, arena.region.headerAt arena.memory p.1⟩ = p.2.size :=
    hkept.size_eq hp
  have hsize' : Block.size ⟨q.1, arena.region.headerAt arena.memory q.1⟩ = q.2.size :=
    hkept.size_eq hq
  rw [hsize, hsize']
  unfold Region.payload
  rcases place_apart hp hq with rfl | hbefore | hbehind
  · exact absurd rfl hne
  · exact .inl (by omega)
  · exact .inr (by omega)

/-- Whether the block at an address is live and has this token, or has none. -/
def Bears (arena : Arena τ) (address : Nat) (token : Option Token) : Prop :=
  ∃ b, arena.Live b address ∧ b.header.trace = token

/-- A block that is not handed out has no token. -/
theorem Orderly.free_untraced (h : arena.Orderly) (hb : b ∈ arena.blocks)
    (hfree : b.isFree = true) : b.header.trace = none := by
  obtain ⟨cells, hkept⟩ := h.chain (usable_of_mem_blocks hb)
  exact (hkept.block_facts hb).2.2.1 hfree

variable [Tracer τ]

/-! ### The tracer -/

/-- How a step moves the tracer, and that it leaves the settings alone. -/
structure Consults (arena next : Arena τ) (s : Step) (answer : Option Nat) : Prop where
  config : next.config = arena.config
  captures : answer ≠ none → next.tracer = arena.captured.2
  discards : ∀ {b address}, arena.Live b address → s = .release address →
    next.tracer = Tracer.dropped arena.tracer b.header.trace
  rests : answer = none → s.reclaims = false → next.tracer = arena.tracer

/-- A step that neither hands out nor takes back a block does not concern the tracer. -/
theorem consults_of_rest (hconfig : next.config = arena.config)
    (htracer : next.tracer = arena.tracer) (hreclaims : s.reclaims = false) :
    arena.Consults next s none := by
  refine ⟨hconfig, fun hne => absurd rfl hne, fun {b address} hlive hs => ?_, fun _ _ => htracer⟩
  have hpos := hlive.address_pos
  rw [hs] at hreclaims
  simp only [Step.reclaims, bne_eq_false_iff_eq] at hreclaims
  omega

theorem Kept.consults_allocate (h : arena.Kept r cells steps)
    (hrun : (step (.allocate n)).run arena = .ok answer next) :
    arena.Consults next (.allocate n) answer := by
  obtain ⟨-, -, hconfig, htracer, -⟩ := h.of_run_allocate hrun
  refine ⟨hconfig, fun hsome => ?_, fun _ hs => ?_, fun hnone _ => ?_⟩
  · rw [htracer, if_neg hsome]
  · cases hs
  · rw [htracer, if_pos hnone]

theorem Kept.consults_release (h : arena.Kept r cells steps) (hsteps : steps < 2 ^ 64)
    (hallows : arena.Allows (.release address))
    (hrun : (step (.release address)).run arena = .ok answer next) :
    arena.Consults next (.release address) answer := by
  obtain ⟨rfl, hrelease⟩ := run_step_release_iff.mp hrun
  by_cases hzero : address = 0
  · subst hzero
    rw [run_release_ignored (.inl rfl)] at hrelease
    obtain ⟨-, rfl⟩ := EStateM.Result.ok.inj hrelease
    exact consults_of_rest rfl rfl rfl
  · obtain ⟨p, hp, hallocated, rfl⟩ := (h.allows_iff.mp hallows).resolve_left hzero
    obtain ⟨pre, post, rfl, hplace⟩ := mem_place_iff.mp hp
    rw [Nat.zero_add] at hplace
    obtain ⟨next', hrun', -, hreclaims⟩ := h.run_release hallocated hsteps
    rw [← hplace, hrelease] at hrun'
    obtain ⟨-, rfl⟩ := EStateM.Result.ok.inj hrun'
    refine ⟨hreclaims.config, fun hne => absurd rfl hne, fun {b address} hlive hs => ?_,
      fun _ hreclaims' => ?_⟩
    · obtain ⟨q, -, -, rfl, haddress⟩ := h.live_iff.mp hlive
      have hsame := Step.release.inj hs
      have hoffset : q.1 = p.1 := by
        unfold Region.payload at haddress hsame
        omega
      rw [hreclaims.tracer, hoffset, hplace]
    · simp [Step.reclaims, hzero] at hreclaims'

theorem Orderly.consults (h : arena.Orderly) (hword : arena.stats.allocs < 2 ^ 64)
    (hallows : arena.Allows s) (hrun : (step s).run arena = .ok answer next) :
    arena.Consults next s answer := by
  cases s with
  | resetPeaks =>
    obtain ⟨rfl, rfl⟩ := EStateM.Result.ok.inj hrun
    exact consults_of_rest rfl rfl rfl
  | write address bytes =>
    obtain ⟨rfl, rfl⟩ := EStateM.Result.ok.inj hrun
    exact consults_of_rest rfl rfl rfl
  | allocate n =>
    by_cases husable : arena.region.Usable
    · obtain ⟨cells, hkept⟩ := h.chain husable
      exact hkept.consults_allocate hrun
    · have hrefused := run_allocate_refused (n := n) rfl (.inl husable)
      obtain ⟨rfl, rfl⟩ := EStateM.Result.ok.inj (hrun.symm.trans hrefused)
      exact consults_of_rest rfl rfl rfl
  | release address =>
    by_cases husable : arena.region.Usable
    · obtain ⟨cells, hkept⟩ := h.chain husable
      exact hkept.consults_release hword hallows hrun
    · have hzero : address = 0 := (allows_iff_of_not_usable husable).mp hallows
      obtain ⟨rfl, hrelease⟩ := run_step_release_iff.mp hrun
      rw [run_release_ignored (.inl hzero)] at hrelease
      obtain ⟨-, rfl⟩ := EStateM.Result.ok.inj hrelease
      rw [hzero]
      exact consults_of_rest rfl rfl rfl

/-! ### What becomes of live blocks -/

/-- What a step does to the blocks that are handed out, and to the count of them. -/
structure Serves (arena next : Arena τ) (s : Step) (answer : Option Nat) : Prop
    extends arena.Consults next s answer where
  region : next.region = arena.region
  /-- A live block that is not given back stays where it is, with its size and its token, and
  no byte of it changes but those that the step writes. -/
  stays : ∀ {b address}, arena.Live b address → s ≠ .release address →
    ∃ b', next.Live b' address ∧ b'.size = b.size ∧ b'.header.trace = b.header.trace ∧
      ∀ a, address ≤ a → a < address + b.size →
        next.memory.byteAt a = (s.writes a).getD (arena.memory.byteAt a)
  /-- A block that is live afterwards was live before, or was handed out now. -/
  comes : ∀ {b address}, next.Live b address →
    answer = some address ∨ s ≠ .release address ∧ ∃ b, arena.Live b address
  fresh : ∀ {b address}, answer = some address → ¬ arena.Live b address
  /-- What is handed out is long enough, and has the token that was captured for it. -/
  granted : ∀ {address}, answer = some address → ∃ n b, s = .allocate n ∧ next.Live b address ∧
    arena.region.unit.ceil n ≤ b.size ∧ b.header.trace = arena.captured.1
  allocs : next.stats.allocs = arena.stats.allocs + if s.grants answer then 1 else 0
  live : (next.stats.live + if s.reclaims then 1 else 0) =
    arena.stats.live + if s.grants answer then 1 else 0

theorem Follows.stays_live (hfollows : arena.Follows next r cells after steps s answer)
    (h : arena.Kept r cells steps) (hlive : arena.Live b address) (hne : s ≠ .release address) :
    ∃ b', next.Live b' address ∧ b'.size = b.size ∧ b'.header.trace = b.header.trace ∧
      ∀ a, address ≤ a → a < address + b.size →
        next.memory.byteAt a = (s.writes a).getD (arena.memory.byteAt a) := by
  obtain ⟨p, hp, hallocated, rfl, rfl⟩ := h.live_iff.mp hlive
  have hp' := hfollows.stays p hp hallocated hne
  have hsize : Block.size ⟨p.1, r.headerAt arena.memory p.1⟩ = p.2.size := h.size_eq hp
  refine ⟨_, hfollows.kept.live_iff.mpr ⟨p, hp', hallocated, rfl, rfl⟩, ?_, ?_, ?_⟩
  · exact (hfollows.kept.size_eq hp').trans hsize.symm
  · rcases hfollows.tokens p hp' hallocated with ⟨-, htrace⟩ | ⟨rfl, -⟩
    · exact htrace
    · -- It is not the block that was handed out, because that one was free.
      obtain ⟨n, rfl⟩ := exists_request hfollows.step
      have hfree := free_of_granted (Option.some.inj hfollows.step) hp rfl
      rw [hfree] at hallocated
      cases hallocated
  · intro a hlow hhigh
    rw [hsize] at hhigh
    exact hfollows.framed a (fun o ho => Region.Laid.not_inFootprint hp ho hlow hhigh)
      fun o ho => Region.Laid.not_inFootprint hp' ho hlow hhigh

theorem Follows.comes_live (hfollows : arena.Follows next r cells after steps s answer)
    (h : arena.Kept r cells steps) (hallows : arena.Allows s) (hlive : next.Live b address) :
    answer = some address ∨ s ≠ .release address ∧ ∃ b, arena.Live b address := by
  obtain ⟨p, hp, hallocated, rfl, rfl⟩ := hfollows.kept.live_iff.mp hlive
  rcases hfollows.tokens p hp hallocated with ⟨hbefore, -⟩ | ⟨hanswer, -⟩
  · refine .inr ⟨?_, _, h.live_iff.mpr ⟨p, hbefore, hallocated, rfl, rfl⟩⟩
    intro hs
    subst hs
    exact ne_of_released hfollows.step (h.allows_iff.mp hallows) hp hallocated rfl
  · exact .inl hanswer

theorem Follows.fresh (hfollows : arena.Follows next r cells after steps s answer)
    (h : arena.Kept r cells steps) (hanswer : answer = some address) :
    ¬ arena.Live b address := by
  intro hlive
  obtain ⟨p, hp, hallocated, rfl, rfl⟩ := h.live_iff.mp hlive
  subst hanswer
  obtain ⟨n, rfl⟩ := exists_request hfollows.step
  have hfree := free_of_granted (Option.some.inj hfollows.step) hp rfl
  rw [hfree] at hallocated
  cases hallocated

theorem Follows.granted (hfollows : arena.Follows next r cells after steps s answer)
    (hanswer : answer = some address) :
    ∃ n b, s = .allocate n ∧ next.Live b address ∧ r.unit.ceil n ≤ b.size ∧
      b.header.trace = arena.captured.1 := by
  subst hanswer
  obtain ⟨n, rfl⟩ := exists_request hfollows.step
  obtain ⟨p, hp, hallocated, rfl, henough, -⟩ := place_granted (Option.some.inj hfollows.step)
  have hlive := hfollows.kept.live_iff.mpr ⟨p, hp, hallocated, rfl, rfl⟩
  have hsize : Block.size ⟨p.1, r.headerAt next.memory p.1⟩ = p.2.size := hfollows.kept.size_eq hp
  refine ⟨n, _, rfl, hlive, by rw [hsize]; exact henough, ?_⟩
  exact hfollows.tokens.trace_granted (Option.some.inj hfollows.step) hp hallocated

/-- Where there is no chain a step does nothing for the client. -/
theorem Orderly.serves_of_not_usable (h : arena.Orderly) (hnot : ¬ arena.region.Usable)
    (hallows : arena.Allows s) (hconsults : arena.Consults next s answer)
    (hrun : (step s).run arena = .ok answer next) : next.Orderly ∧ arena.Serves next s answer := by
  obtain ⟨next', hrun', hregion, -⟩ := run_step_of_not_usable hnot hallows
  obtain ⟨rfl, rfl⟩ := EStateM.Result.ok.inj (hrun.symm.trans hrun')
  have hstats := h.idle hnot
  have hstats' := stats_step_of_not_usable hnot hallows hrun hstats
  have hnot' : ¬ next.region.Usable := hregion ▸ hnot
  have hreclaims : s.reclaims = false := by
    cases s with
    | release address =>
      have hzero : address = 0 := (allows_iff_of_not_usable hnot).mp hallows
      rw [hzero]
      rfl
    | _ => rfl
  have hgrants : s.grants none = false := by cases s <;> rfl
  refine ⟨⟨fun husable => absurd husable hnot', ?_, fun _ => hstats'⟩, ?_⟩
  · rw [hstats']
    exact ⟨Nat.le_refl _, Nat.le_refl _⟩
  · refine ⟨hconsults, hregion, fun hlive => absurd hlive.usable hnot,
      fun hlive => absurd hlive.usable hnot', ?_, ?_, ?_, ?_⟩
    · intro _ _ hanswer
      cases hanswer
    · intro _ hanswer
      cases hanswer
    · rw [hstats, hstats', hgrants]
      rfl
    · rw [hstats, hstats', hgrants, hreclaims]

/-- **A step of a client serves it, and leaves the arena in order.** -/
theorem Orderly.serves (h : arena.Orderly) (hword : arena.stats.allocs < 2 ^ 64)
    (hallows : arena.Allows s) (hrun : (step s).run arena = .ok answer next) :
    next.Orderly ∧ arena.Serves next s answer := by
  have hconsults := h.consults hword hallows hrun
  by_cases husable : arena.region.Usable
  · obtain ⟨cells, hkept⟩ := h.chain husable
    obtain ⟨after, hfollows, -⟩ := hkept.follows_of_run hword hallows hrun
    have hmoves := (hkept.settles hword h.capped hallows hrun hfollows.step).moves
    have hregion := hfollows.kept.region
    have hbefore := hkept.counts.allocs
    have hafter := hfollows.kept.counts.allocs
    have hallocs := hmoves.allocs
    have hreleases := hmoves.releases
    refine ⟨⟨fun _ => ⟨after, ?_⟩, hmoves.capped, fun hnot => ?_⟩, hconsults, hregion,
      hfollows.stays_live hkept, hfollows.comes_live hkept hallows, hfollows.fresh hkept,
      hfollows.granted, hallocs, by omega⟩
    · rw [hregion]
      exact hfollows.kept.recount (Nat.le_refl _)
    · exact absurd (hregion ▸ husable) hnot
  · exact h.serves_of_not_usable husable hallows hconsults hrun

/-- The tokens of live blocks after a step: what was handed out has the one that was captured
for it, and the others have those they had. -/
theorem Serves.bears_iff (h : arena.Serves next s answer) (hnext : next.Orderly)
    {token : Option Token} :
    next.Bears address token ↔ answer = some address ∧ token = arena.captured.1 ∨
      s ≠ .release address ∧ arena.Bears address token := by
  constructor
  · intro hbears
    obtain ⟨b, hlive, rfl⟩ := hbears
    rcases h.comes hlive with hanswer | ⟨hne, before, hbefore⟩
    · obtain ⟨n, b', -, hlive', -, htrace⟩ := h.granted hanswer
      rw [hnext.live_unique hlive' hlive]
      exact .inl ⟨hanswer, htrace⟩
    · obtain ⟨b', hlive', -, htrace, -⟩ := h.stays hbefore hne
      rw [hnext.live_unique hlive' hlive]
      exact .inr ⟨hne, before, hbefore, htrace.symm⟩
  · intro hcases
    rcases hcases with ⟨hanswer, rfl⟩ | ⟨hne, b, hlive, rfl⟩
    · obtain ⟨n, b', -, hlive', -, htrace⟩ := h.granted hanswer
      exact ⟨b', hlive', htrace⟩
    · obtain ⟨b', hlive', -, htrace, -⟩ := h.stays hlive hne
      exact ⟨b', hlive', htrace⟩

/-- A run leaves the arena in order, and counts no more allocations than it has steps. -/
theorem Runs.orderly {last : Arena τ} {history : List (Step × Option Nat)}
    (hruns : Runs first history last) (h : first.Orderly)
    (hlength : first.stats.allocs + history.length < 2 ^ 64) :
    last.Orderly ∧ last.config = first.config ∧
      last.stats.allocs ≤ first.stats.allocs + history.length := by
  induction hruns with
  | nil => exact ⟨h, rfl, Nat.le_refl _⟩
  | @cons arena mid last s answer rest hallows hstep hrest ih =>
    rw [List.length_cons] at hlength ⊢
    obtain ⟨hmid, hserves⟩ := h.serves (by omega) hallows hstep
    have hallocs := hserves.allocs
    have hcount : mid.stats.allocs ≤ arena.stats.allocs + 1 := by
      rw [hallocs]
      split <;> omega
    obtain ⟨hlast, hconfig, hle⟩ := ih hmid (by omega)
    exact ⟨hlast, hconfig.trans hserves.config, by omega⟩

theorem Orderly.allocs_lt (h : arena.Orderly) (hword : arena.stats.allocs < 2 ^ 64)
    (hallows : arena.Allows s) (hrun : (step s).run arena = .ok answer next) :
    next.stats.allocs < 2 ^ 64 := by
  by_cases husable : arena.region.Usable
  · obtain ⟨cells, hkept⟩ := h.chain husable
    obtain ⟨-, -, hword'⟩ := hkept.follows_of_run hword hallows hrun
    exact hword'
  · rw [stats_step_of_not_usable husable hallows hrun (h.idle husable)]
    decide

theorem Orderly.eq_of_unanswered (h : arena.Orderly)
    (hrun : (allocate n).run arena = .ok none next) : ∃ journal, next = { arena with journal } := by
  by_cases husable : arena.region.Usable
  · obtain ⟨cells, hkept⟩ := h.chain husable
    obtain ⟨journal, hrun'⟩ := hkept.run_allocate_unanswered (hkept.of_run_allocate hrun).1.symm
    exact ⟨journal, (EStateM.Result.ok.inj (hrun.symm.trans hrun')).2⟩
  · have hrefused := run_allocate_refused (n := n) rfl (.inl husable)
    exact ⟨arena.journal, (EStateM.Result.ok.inj (hrun.symm.trans hrefused)).2⟩

/-- A step that is allowed can be taken, if there is room to count what it hands out. -/
theorem Orderly.exists_step (h : arena.Orderly) (hword : arena.stats.allocs < 2 ^ 64)
    (hroom : ∀ n, s = .allocate n → arena.stats.allocs + 1 < 2 ^ 64) (hallows : arena.Allows s) :
    ∃ answer next, (step s).run arena = .ok answer next := by
  by_cases husable : arena.region.Usable
  · obtain ⟨cells, hkept⟩ := h.chain husable
    by_cases hrequest : ∃ n, s = .allocate n
    · obtain ⟨n, hs⟩ := hrequest
      obtain ⟨answer, next, -, hrun, -⟩ := hkept.run_step (hroom n hs) hallows
      exact ⟨answer, next, hrun⟩
    · obtain ⟨next, -, hrun, -⟩ :=
        hkept.run_step_uncounted hword hallows fun n hs => absurd ⟨n, hs⟩ hrequest
      exact ⟨none, next, hrun⟩
  · obtain ⟨next, hrun, -⟩ := run_step_of_not_usable husable hallows
    exact ⟨none, next, hrun⟩

end Arena

end FirstFit
