/-
Arena and cells, step by step.

What the parts of an operation do is known; here the operations are put together into the
steps of a client.  `Cells.step?` is such a step on a list of cells.  An arena that holds
cells takes every allowed step, answers as the cells do, and holds the cells afterwards
(`Arena.Kept.run_step`).  Beside the headers it changes no byte that the client did not
write, and a live block stays where it is until it is given back, with its token:
`Arena.Follows` says what is known of a step.

All of this takes room in the counters, for as many steps as were taken.  A step that came to
its end has shown that there was room, so it is followed whatever came before
(`Arena.Kept.follows_of_run`).
-/
import FirstFit.Client
import FirstFit.Proofs.Release

namespace FirstFit

/-! ### Steps on cells -/

namespace Cells

/-- A step on cells: what it answers, and the cells afterwards.  Only a cell that is allocated
can be given back; writing to a payload changes no cell. -/
def step? (r : Region) (cells : List Cell) : Step → Option (Option Nat × List Cell)
  | .allocate request => some (allocated r request cells)
  | .release address =>
    if address = 0 then some (none, cells)
    else (release? r address cells).map fun cells => (none, cells)
  | .resetPeaks => some (none, cells)
  | .write _ _ => some (none, cells)

theorem exists_request {r : Region} {cells after : List Cell} {s : Step} {address : Nat}
    (h : step? r cells s = some (some address, after)) : ∃ n, s = .allocate n := by
  cases s with
  | allocate n => exact ⟨n, rfl⟩
  | release a =>
    by_cases hzero : a = 0
    · rw [step?, if_pos hzero] at h
      cases h
    · rw [step?, if_neg hzero] at h
      obtain ⟨_, -, heq⟩ := Option.map_eq_some_iff.mp h
      cases heq
  | resetPeaks => cases h
  | write a bytes => cases h

/-- Whether a client that keeps to the rules can take a step, as the cells say. -/
def Allows (r : Region) (cells : List Cell) : Step → Prop
  | .allocate request => request < 2 ^ 64
  | .release address => address = 0 ∨
    ∃ p ∈ place r.footprint 0 cells, p.2.allocated = true ∧ address = r.payload p.1
  | .resetPeaks => True
  | .write address bytes =>
    ∃ p ∈ place r.footprint 0 cells, p.2.allocated = true ∧ r.payload p.1 ≤ address ∧
      address + bytes.length ≤ r.payload p.1 + p.2.size

instance (r : Region) (cells : List Cell) : (s : Step) → Decidable (Allows r cells s)
  | .allocate _ => inferInstanceAs (Decidable (_ < _))
  | .release _ => inferInstanceAs (Decidable (_ ∨ _))
  | .resetPeaks => inferInstanceAs (Decidable True)
  | .write _ _ => inferInstanceAs (Decidable (∃ p ∈ place r.footprint 0 cells, _))

end Cells

/-- The byte a step of the client writes to an address, if it does. -/
def Step.writes (address : Nat) : Step → Option UInt8
  | .write start bytes => if start ≤ address then bytes[address - start]? else none
  | _ => none

namespace Arena

open Cells

variable {τ : Type} {arena : Arena τ} {r : Region} {cells : List Cell} {steps : Nat}

/-! ### Creation -/

/-- A creation that succeeds clears the memory and writes the header of one free block, if there
is room for it. -/
theorem exists_journal_of_create {config : Config} {memory : Memory} {tracer : τ}
    (h : create config memory tracer = .ok arena) :
    let r := Region.within config.unit memory
    ∃ journal, arena = {
      config, tracer, journal
      memory := if r.Usable then
          r.setHeader memory.cleared 0 (.fresh (r.capacity - r.footprint) none none)
        else memory.cleared } := by
  unfold create at h
  dsimp only at h ⊢
  cases hstart : Word.add memory.start config.unit.bytes with
  | error fault =>
    rw [hstart] at h
    cases h
  | ok start =>
    cases hleast : Word.add (Region.within config.unit memory).footprint config.unit.bytes with
    | error fault =>
      rw [hstart, hleast] at h
      cases h
    | ok least =>
      rw [hstart, hleast] at h
      by_cases husable : (Region.within config.unit memory).Usable
      · rw [if_pos husable]
        exact ⟨_, (Except.ok.inj ((if_pos husable).symm.trans h)).symm⟩
      · rw [if_neg husable]
        exact ⟨_, (Except.ok.inj ((if_neg husable).symm.trans h)).symm⟩

theorem create_eq {config : Config} {memory : Memory} {tracer : τ}
    (h : create config memory tracer = .ok arena) :
    arena.region = .within config.unit memory ∧ arena.stats = {} ∧
      arena.memory = if arena.region.Usable then arena.region.setHeader memory.cleared 0
          (.fresh (arena.region.capacity - arena.region.footprint) none none)
        else memory.cleared := by
  obtain ⟨journal, rfl⟩ := exists_journal_of_create h
  have hregion : Region.within config.unit (if (Region.within config.unit memory).Usable then
      (Region.within config.unit memory).setHeader memory.cleared 0
        (.fresh ((Region.within config.unit memory).capacity -
          (Region.within config.unit memory).footprint) none none)
      else memory.cleared) = .within config.unit memory := by
    split <;> exact Region.within_congr (by simp) (by simp)
  refine ⟨hregion, rfl, ?_⟩
  unfold region
  rw [hregion]

theorem settings_of_create {config : Config} {memory : Memory} {tracer : τ}
    (h : create config memory tracer = .ok arena) :
    arena.config = config ∧ arena.tracer = tracer := by
  obtain ⟨journal, rfl⟩ := exists_journal_of_create h
  exact ⟨rfl, rfl⟩

/-- A new arena is over the memory it was given, whose bytes are other ones then. -/
theorem stretch_of_create {config : Config} {memory : Memory} {tracer : τ}
    (h : create config memory tracer = .ok arena) :
    arena.memory.start = memory.start ∧ arena.memory.size = memory.size := by
  obtain ⟨journal, rfl⟩ := exists_journal_of_create h
  dsimp only
  split <;> simp

theorem exists_create {config : Config} {memory : Memory} (tracer : τ)
    (hstart : memory.start + config.unit.bytes < 2 ^ 64)
    (hleast : (Region.within config.unit memory).footprint + config.unit.bytes < 2 ^ 64) :
    ∃ arena : Arena τ, create config memory tracer = .ok arena := by
  unfold create
  dsimp only
  rw [Word.add_eq_ok_iff.mpr ⟨rfl, hstart⟩, Word.add_eq_ok_iff.mpr ⟨rfl, hleast⟩]
  by_cases husable : (Region.within config.unit memory).Usable
  · exact ⟨_, if_pos husable⟩
  · exact ⟨_, if_neg husable⟩

/-- A new arena keeps one free cell, if its region has room for one. -/
theorem kept_create {config : Config} {memory : Memory} {tracer : τ}
    (h : create config memory tracer = .ok arena) (husable : arena.region.Usable) :
    arena.Kept arena.region (whole arena.region) 0 := by
  obtain ⟨hregion, hstats, hmemory⟩ := create_eq h
  rw [if_pos husable] at hmemory
  rw [hregion] at husable
  have hlies : arena.region.Lies arena.memory := by
    have hbefore := Region.lies_within husable
    rw [← hregion] at hbefore
    exact hbefore.congr (by rw [hmemory]; simp) (by rw [hmemory]; simp)
  rw [← hregion] at husable
  unfold Region.Usable at husable
  have hcapacity := hlies.capacity_lt
  have hfits : (Header.fresh (arena.region.capacity - arena.region.footprint) none none).Fits :=
    Header.fits_fresh (by omega) (by simp) (by simp)
  have hheader : arena.region.headerAt arena.memory 0 =
      .fresh (arena.region.capacity - arena.region.footprint) none none := by
    rw [hmemory]
    exact Region.headerAt_setHeader (hlies.congr (by rw [hmemory]; simp) (by rw [hmemory]; simp))
      (by omega) hfits
  refine ⟨rfl, ⟨⟨hlies, ?_, ?_, ?_, trivial⟩, .singleton _, ?_⟩, ?_⟩
  · rw [whole, extent_cons, extent_nil]
    show arena.region.footprint + (arena.region.capacity - arena.region.footprint) + 0 = _
    omega
  · intro c hc
    rw [List.mem_singleton.mp hc]
    exact Nat.dvd_sub hlies.capacity_dvd arena.region.dvd_footprint
  · rw [hheader]
    refine ⟨rfl, rfl, rfl, rfl, rfl, ?_, fun _ => rfl⟩
    exact (if_pos (by
      show 0 + arena.region.footprint + (arena.region.capacity - arena.region.footprint) = _
      omega)).symm
  · intro o ho
    rw [List.mem_singleton.mp ho]
    omega
  · rw [hstats]
    exact ⟨rfl, rfl, rfl, Nat.le_refl _⟩

/-! ### What a client has -/

theorem Kept.blocks_eq (h : arena.Kept r cells steps) :
    arena.blocks = Cells.blocks r.footprint (r.headerAt arena.memory) 0 cells := by
  unfold blocks walk
  rw [h.region]
  exact h.tidy.sound_eq

theorem Kept.mem_blocks_iff (h : arena.Kept r cells steps) {b : Block} :
    b ∈ arena.blocks ↔ ∃ p ∈ place r.footprint 0 cells, ⟨p.1, r.headerAt arena.memory p.1⟩ = b := by
  rw [h.blocks_eq, Cells.blocks, List.mem_map]

theorem Kept.verify_eq (h : arena.Kept r cells steps) : arena.verify = .ok () := by
  unfold verify walk
  rw [h.region]
  exact h.tidy.verdict_eq

theorem Kept.chain (h : arena.Kept r cells steps) :
    Chain arena.region arena.headerAt arena.blocks := by
  have hchain := h.tidy.chain
  rw [← h.blocks_eq, ← h.region] at hchain
  exact hchain

/-- What is true of each block, beside what makes it part of a chain. -/
theorem Kept.block_facts (h : arena.Kept r cells steps) {b : Block} (hb : b ∈ arena.blocks) :
    r.unit.bytes ∣ b.offset ∧ r.unit.bytes ∣ b.size ∧ (b.isFree = true → b.header.trace = none) ∧
      b.offset + r.footprint + r.unit.bytes ≤ r.capacity := by
  obtain ⟨p, hp, rfl⟩ := h.mem_blocks_iff.mp hb
  obtain ⟨_, hdescribes⟩ := h.tidy.held.describes hp
  refine ⟨(h.tidy.place_fits hp).1, ?_, ?_, h.tidy.roomy p.1 (mem_offsets.mpr ⟨p.2, hp⟩)⟩
  · show r.unit.bytes ∣ (r.headerAt arena.memory p.1).size
    rw [hdescribes.size]
    exact h.tidy.aligned p.2 (mem_of_mem_place hp)
  · intro hfree
    have hfree' : (r.headerAt arena.memory p.1).isFree = true := hfree
    rw [hdescribes.isFree] at hfree'
    exact hdescribes.untraced (by simpa using hfree')

/-- The blocks that are listed are the cells: where each lies, how long it is, and whether it
is allocated. -/
def Lists (arena : Arena τ) (r : Region) (cells : List Cell) : Prop :=
  arena.blocks.map (fun b => (b.offset, Cell.mk b.size (!b.isFree))) = place r.footprint 0 cells

theorem Kept.lists (h : arena.Kept r cells steps) : arena.Lists r cells := by
  unfold Lists
  rw [h.blocks_eq, Cells.blocks, List.map_map]
  refine List.map_congr_left (fun p hp => ?_) |>.trans (List.map_id _)
  obtain ⟨_, hdescribes⟩ := h.tidy.held.describes hp
  show (p.1, Cell.mk (r.headerAt arena.memory p.1).size !(r.headerAt arena.memory p.1).isFree) = p
  rw [hdescribes.size, hdescribes.isFree, Bool.not_not]

theorem Kept.live_iff (h : arena.Kept r cells steps) {b : Block} {address : Nat} :
    arena.Live b address ↔ ∃ p ∈ place r.footprint 0 cells, p.2.allocated = true ∧
      b = ⟨p.1, r.headerAt arena.memory p.1⟩ ∧ address = r.payload p.1 := by
  have hfree : ∀ p ∈ place r.footprint 0 cells,
      (Block.mk p.1 (r.headerAt arena.memory p.1)).isFree = !p.2.allocated := by
    intro p hp
    obtain ⟨_, hdescribes⟩ := h.tidy.held.describes hp
    exact hdescribes.isFree
  unfold Live
  rw [h.mem_blocks_iff, h.region]
  refine ⟨?_, ?_⟩
  · intro hlive
    obtain ⟨⟨p, hp, rfl⟩, hlive, rfl⟩ := hlive
    rw [hfree p hp] at hlive
    exact ⟨p, hp, by simpa using hlive, rfl, rfl⟩
  · intro hcell
    obtain ⟨p, hp, hallocated, rfl, rfl⟩ := hcell
    exact ⟨⟨p, hp, rfl⟩, by rw [hfree p hp, hallocated]; rfl, rfl⟩

theorem Kept.size_eq (h : arena.Kept r cells steps) {p : Nat × Cell}
    (hp : p ∈ place r.footprint 0 cells) : (r.headerAt arena.memory p.1).size = p.2.size := by
  obtain ⟨_, hdescribes⟩ := h.tidy.held.describes hp
  exact hdescribes.size

theorem Kept.allows_iff (h : arena.Kept r cells steps) {s : Step} :
    arena.Allows s ↔ Cells.Allows r cells s := by
  cases s with
  | allocate request => exact Iff.rfl
  | release address =>
    show (address = 0 ∨ ∃ b, arena.Live b address) ↔ (address = 0 ∨ _)
    refine or_congr_right ⟨?_, ?_⟩
    · intro hlive
      obtain ⟨b, hlive⟩ := hlive
      obtain ⟨p, hp, hallocated, -, haddress⟩ := h.live_iff.mp hlive
      exact ⟨p, hp, hallocated, haddress⟩
    · intro hcell
      obtain ⟨p, hp, hallocated, haddress⟩ := hcell
      exact ⟨_, h.live_iff.mpr ⟨p, hp, hallocated, rfl, haddress⟩⟩
  | resetPeaks => exact Iff.rfl
  | write address bytes =>
    refine ⟨?_, ?_⟩
    · intro hlive
      obtain ⟨b, payload, hlive, hlow, hhigh⟩ := hlive
      obtain ⟨p, hp, hallocated, rfl, rfl⟩ := h.live_iff.mp hlive
      refine ⟨p, hp, hallocated, hlow, ?_⟩
      rw [← h.size_eq hp]
      exact hhigh
    · intro hcell
      obtain ⟨p, hp, hallocated, hlow, hhigh⟩ := hcell
      refine ⟨_, _, h.live_iff.mpr ⟨p, hp, hallocated, rfl, rfl⟩, hlow, ?_⟩
      rw [← h.size_eq hp] at hhigh
      exact hhigh

/-! ### Steps of a client -/

theorem headerAt_write {m : Memory} {p : Nat × Cell} (hp : p ∈ place r.footprint 0 cells)
    {address : Nat} {bytes : List UInt8} (hlow : r.payload p.1 ≤ address)
    (hhigh : address + bytes.length ≤ r.payload p.1 + p.2.size) {o : Nat}
    (ho : o ∈ offsets r.footprint cells) :
    r.headerAt (m.write address bytes) o = r.headerAt m o := by
  refine Memory.header_congr fun x h1 h2 => ?_
  rw [Memory.byteAt_write]
  split
  · next hcase =>
    have hbytes := r.byteCount_le_footprint
    have hbehind : bytes.length ≤ x - address := by
      refine Nat.le_of_not_lt fun hin => ?_
      exact Region.Laid.not_inFootprint hp ho (by omega) (by omega) ⟨h1, by omega⟩
    rw [List.getElem?_eq_none hbehind]
    rfl
  · rfl

theorem Kept.write (h : arena.Kept r cells steps) {p : Nat × Cell}
    (hp : p ∈ place r.footprint 0 cells) {address : Nat} {bytes : List UInt8}
    (hlow : r.payload p.1 ≤ address) (hhigh : address + bytes.length ≤ r.payload p.1 + p.2.size) :
    Arena.Kept { arena with memory := arena.memory.write address bytes } r cells steps := by
  have hlaid : r.Laid (arena.memory.write address bytes) cells :=
    h.tidy.congr (by simp) (by simp) fun _ ho => headerAt_write hp hlow hhigh ho
  exact ⟨Arena.region_mk h.region (by simp) (by simp),
    ⟨hlaid, h.tidy.merged, h.tidy.roomy⟩, h.counts⟩

/-- A write to a payload changes the bytes it writes, all of which are in the memory. -/
theorem Kept.byteAt_write (h : arena.Kept r cells steps) {p : Nat × Cell}
    (hp : p ∈ place r.footprint 0 cells) {address : Nat} {bytes : List UInt8}
    (hlow : r.payload p.1 ≤ address) (hhigh : address + bytes.length ≤ r.payload p.1 + p.2.size)
    (a : Nat) :
    (arena.memory.write address bytes).byteAt a =
      ((Step.write address bytes).writes a).getD (arena.memory.byteAt a) := by
  show _ = (if address ≤ a then bytes[a - address]? else none).getD _
  rw [Memory.byteAt_write]
  by_cases hle : address ≤ a
  · by_cases hin : a - address < bytes.length
    · have hstart := h.tidy.lies.start_le
      have hstop := h.tidy.lies.le_stop
      have hfits := (h.tidy.place_fits hp).2
      have hcovers : arena.memory.Covers a 1 := by
        unfold Region.payload at hlow hhigh
        unfold Memory.Covers
        omega
      rw [if_pos ⟨hle, hcovers⟩, if_pos hle]
    · rw [if_pos hle, List.getElem?_eq_none (by omega)]
      exact ite_self _
  · rw [if_neg hle, if_neg fun hc => hle hc.1]
    rfl

/-- The number of steps is only a bound on the count of allocations. -/
theorem Kept.recount (h : arena.Kept r cells steps) {steps' : Nat}
    (hle : arena.stats.allocs ≤ steps') : arena.Kept r cells steps' :=
  ⟨h.region, h.tidy, h.counts.used, h.counts.live, h.counts.allocs, hle⟩

variable [Tracer τ]

theorem run_step_release_iff {next : Arena τ} {address : Nat} {answer : Option Nat} :
    (step (.release address)).run arena = .ok answer next ↔
      answer = none ∧ (release address).run arena = .ok () next := by
  constructor
  · intro hrun
    obtain ⟨_, mid, hrelease, hend⟩ := Act.of_run_bind hrun
    obtain ⟨rfl, rfl⟩ := EStateM.Result.ok.inj hend
    exact ⟨rfl, hrelease⟩
  · rintro ⟨rfl, hrelease⟩
    exact (Act.run_bind_ok hrelease).trans rfl

/-- How a step of the client is followed on the cells. -/
structure Follows (arena next : Arena τ) (r : Region) (cells after : List Cell) (steps : Nat)
    (s : Step) (answer : Option Nat) : Prop where
  step : step? r cells s = some (answer, after)
  kept : next.Kept r after (steps + 1)
  /-- In no header, before or after, no byte changes that the step does not write. -/
  framed : ∀ a, (∀ o ∈ offsets r.footprint cells, ¬ r.InFootprint o a) →
    (∀ o ∈ offsets r.footprint after, ¬ r.InFootprint o a) →
    next.memory.byteAt a = (s.writes a).getD (arena.memory.byteAt a)
  /-- A byte in no header afterwards was wiped, or it was in no header before. -/
  swept : ∀ a, (∀ o ∈ offsets r.footprint after, ¬ r.InWords o a) →
    next.memory.byteAt a = 0 ∨ (∀ o ∈ offsets r.footprint cells, ¬ r.InWords o a) ∧
      next.memory.byteAt a = (s.writes a).getD (arena.memory.byteAt a)
  /-- Allocated cells stay where they are, but for one that is released. -/
  stays : ∀ p ∈ place r.footprint 0 cells, p.2.allocated = true → s ≠ .release (r.payload p.1) →
    p ∈ place r.footprint 0 after
  tokens : arena.KeepsTokens next r cells after answer

theorem follows_of_memory_eq {next : Arena τ} {s : Step} {answer : Option Nat}
    (hkept : next.Kept r cells (steps + 1)) (hmemory : next.memory = arena.memory)
    (hwrites : ∀ a, s.writes a = none) (hstep : step? r cells s = some (answer, cells)) :
    arena.Follows next r cells cells steps s answer := by
  have hbyte : ∀ a, next.memory.byteAt a = (s.writes a).getD (arena.memory.byteAt a) := by
    intro a
    rw [hmemory, hwrites]
    rfl
  exact ⟨hstep, hkept, fun a _ _ => hbyte a, fun a hout => .inr ⟨hout, hbyte a⟩,
    fun _ hp _ _ => hp, fun p hp _ => .inl ⟨hp, by rw [hmemory]⟩⟩

theorem Kept.step_allocate (h : arena.Kept r cells steps) (hsteps : steps + 1 < 2 ^ 64) (n : Nat) :
    ∃ next, (step (.allocate n)).run arena = .ok (allocated r n cells).1 next ∧
      arena.Follows next r cells (allocated r n cells).2 steps (.allocate n)
        (allocated r n cells).1 := by
  obtain ⟨next, hrun, hkept, hswept, htokens, -⟩ := h.run_allocate hsteps n
  refine ⟨next, hrun, rfl, hkept, ?_, ?_, ?_, htokens⟩
  · intro a hold hnew
    exact hswept.kept a (fun o ho hin => hnew o ho hin.inFootprint) fun o ho _ => hold o ho
  · intro a hout
    exact hswept.zero_or_kept hout
  · intro p hp hallocated _
    exact place_allocated hp hallocated

/-- A request that no cell answers needs no room in the counters. -/
theorem Kept.step_allocate_unanswered (h : arena.Kept r cells steps) {n : Nat}
    (hnone : (allocated r n cells).1 = none) :
    ∃ next, (step (.allocate n)).run arena = .ok none next ∧
      next.stats.allocs = arena.stats.allocs ∧
      arena.Follows next r cells cells steps (.allocate n) none := by
  obtain ⟨journal, hrun⟩ := h.run_allocate_unanswered hnone
  have hkept : Arena.Kept { arena with journal } r cells (steps + 1) :=
    ⟨h.region, h.tidy, h.counts.later⟩
  refine ⟨_, hrun, rfl, follows_of_memory_eq hkept rfl (fun _ => rfl) ?_⟩
  rcases allocated_cases r n cells with hcells | ⟨_, _, _, -, -, -, -, hsome⟩
  · exact congrArg some hcells
  · rw [hsome] at hnone
    cases hnone

theorem Kept.step_release (h : arena.Kept r cells steps) (hsteps : steps < 2 ^ 64) {address : Nat}
    (hallows : arena.Allows (.release address)) :
    ∃ next after, (step (.release address)).run arena = .ok none next ∧
      next.stats.allocs = arena.stats.allocs ∧
      arena.Follows next r cells after steps (.release address) none := by
  by_cases hzero : address = 0
  · have hkept : arena.Kept r cells (steps + 1) := ⟨h.region, h.tidy, h.counts.later⟩
    exact ⟨arena, cells, run_step_release_iff.mpr ⟨rfl, run_release_ignored (.inl hzero)⟩, rfl,
      follows_of_memory_eq hkept rfl (fun _ => rfl) (if_pos hzero)⟩
  · obtain ⟨p, hp, hallocated, rfl⟩ := (h.allows_iff.mp hallows).resolve_left hzero
    obtain ⟨pre, post, rfl, hplace⟩ := mem_place_iff.mp hp
    rw [Nat.zero_add] at hplace
    obtain ⟨next, hrun, hkept, hreclaims⟩ := h.run_release hallocated hsteps
    rw [← hplace] at hrun
    refine ⟨next, _, run_step_release_iff.mpr ⟨rfl, hrun⟩, ?_, ?_, hkept, ?_, ?_, ?_,
      hreclaims.keepsTokens⟩
    · rw [hreclaims.stats]
      rfl
    · rw [step?, if_neg hzero, hplace, release?_append hallocated]
      rfl
    · intro a hold hnew
      exact hreclaims.swept.kept a (fun o ho hin => hnew o ho hin.inFootprint)
        fun o ho _ => hold o ho
    · intro a hout
      exact hreclaims.swept.zero_or_kept hout
    · intro q hq hq' hne
      refine (mem_place_merge_iff hq').mpr ⟨hq, fun heq => hne ?_⟩
      rw [heq, hplace]

theorem Kept.step_resetPeaks (h : arena.Kept r cells steps) :
    ∃ next, (step .resetPeaks).run arena = .ok none next ∧
      next.stats.allocs = arena.stats.allocs ∧
      arena.Follows next r cells cells steps .resetPeaks none := by
  have hkept : arena.resetPeaks.Kept r cells (steps + 1) :=
    ⟨h.region, h.tidy, h.counts.used, h.counts.live, h.counts.allocs,
      Nat.le_succ_of_le h.counts.allocs_le⟩
  exact ⟨arena.resetPeaks, rfl, rfl, follows_of_memory_eq hkept rfl (fun _ => rfl) rfl⟩

theorem Kept.step_write (h : arena.Kept r cells steps) {address : Nat} {bytes : List UInt8}
    (hallows : arena.Allows (.write address bytes)) :
    ∃ next, (step (.write address bytes)).run arena = .ok none next ∧
      next.stats.allocs = arena.stats.allocs ∧
      arena.Follows next r cells cells steps (.write address bytes) none := by
  obtain ⟨p, hp, -, hlow, hhigh⟩ := h.allows_iff.mp hallows
  have hkept := h.write hp hlow hhigh
  refine ⟨{ arena with memory := arena.memory.write address bytes }, rfl, rfl, rfl,
    ⟨hkept.region, hkept.tidy, hkept.counts.later⟩, ?_, ?_, fun _ hp _ _ => hp, ?_⟩
  · intro a _ _
    exact h.byteAt_write hp hlow hhigh a
  · intro a hout
    exact .inr ⟨hout, h.byteAt_write hp hlow hhigh a⟩
  · intro q hq _
    have hsame := @headerAt_write r cells arena.memory p hp address bytes hlow hhigh q.1
      (mem_offsets.mpr ⟨q.2, hq⟩)
    exact .inl ⟨hq, congrArg Header.trace hsame⟩

/-- A step that is allowed succeeds without a new count of allocations, unless it hands out a
block. -/
theorem Kept.run_step_uncounted (h : arena.Kept r cells steps) (hsteps : steps < 2 ^ 64) {s : Step}
    (hallows : arena.Allows s) (hnone : ∀ n, s = .allocate n → (allocated r n cells).1 = none) :
    ∃ next after, (step s).run arena = .ok none next ∧
      next.stats.allocs = arena.stats.allocs ∧ arena.Follows next r cells after steps s none := by
  cases s with
  | allocate n =>
    obtain ⟨next, hrun⟩ := h.step_allocate_unanswered (hnone n rfl)
    exact ⟨next, cells, hrun⟩
  | release address => exact h.step_release hsteps hallows
  | resetPeaks =>
    obtain ⟨next, hrun⟩ := h.step_resetPeaks
    exact ⟨next, cells, hrun⟩
  | write address bytes =>
    obtain ⟨next, hrun⟩ := h.step_write hallows
    exact ⟨next, cells, hrun⟩

/-- **An allowed step succeeds, and is followed on the cells.** -/
theorem Kept.run_step (h : arena.Kept r cells steps) (hsteps : steps + 1 < 2 ^ 64) {s : Step}
    (hallows : arena.Allows s) :
    ∃ answer next after, (step s).run arena = .ok answer next ∧
      arena.Follows next r cells after steps s answer := by
  by_cases hrequest : ∃ n, s = .allocate n
  · obtain ⟨n, rfl⟩ := hrequest
    obtain ⟨next, hrun, hfollows⟩ := h.step_allocate hsteps n
    exact ⟨_, next, _, hrun, hfollows⟩
  · obtain ⟨next, after, hrun, -, hfollows⟩ :=
      h.run_step_uncounted (by omega) hallows fun n hs => absurd ⟨n, hs⟩ hrequest
    exact ⟨none, next, after, hrun, hfollows⟩

/-! ### Steps that were taken

Of the steps before, all that has to be known is that the count of allocations is a word, and
that stays so. -/

theorem Follows.recount {next : Arena τ} {after : List Cell} {steps' : Nat} {s : Step}
    {answer : Option Nat} (h : arena.Follows next r cells after steps s answer)
    (hle : next.stats.allocs ≤ steps' + 1) : arena.Follows next r cells after steps' s answer :=
  ⟨h.step, h.kept.recount hle, h.framed, h.swept, h.stays, h.tokens⟩

/-- What an allocation leaves behind that came to its end. -/
theorem Kept.of_run_allocate {next : Arena τ} {n : Nat} {answer : Option Nat}
    (h : arena.Kept r cells steps) (hrun : (allocate n).run arena = .ok answer next) :
    answer = (allocated r n cells).1 ∧
      r.Swept arena.memory next.memory (offsets r.footprint cells)
        (offsets r.footprint (allocated r n cells).2) ∧
      next.config = arena.config ∧
      next.tracer = (if answer = none then arena.tracer else arena.captured.2) ∧
      ∃ size, next.stats = if answer = none then arena.stats else arena.stats.granted size := by
  by_cases hsome : (allocated r n cells).1 = none
  · obtain ⟨journal, hrun'⟩ := h.run_allocate_unanswered hsome
    obtain ⟨rfl, rfl⟩ := EStateM.Result.ok.inj (hrun.symm.trans hrun')
    refine ⟨hsome.symm, ?_, rfl, rfl, 0, rfl⟩
    rcases allocated_cases r n cells with hcells | ⟨_, _, _, -, -, -, -, hgranted⟩
    · rw [hcells]
      exact .refl _ _
    · rw [hgranted] at hsome
      cases hsome
  · have hroom := h.allocs_lt_of_run_allocate hsome hrun
    obtain ⟨next', hrun', -, hswept, -, hconfig, htracer, hstats⟩ :=
      (h.recount (Nat.le_refl _)).run_allocate hroom n
    obtain ⟨rfl, rfl⟩ := EStateM.Result.ok.inj (hrun.symm.trans hrun')
    exact ⟨rfl, hswept, hconfig, htracer, hstats⟩

/-- **A step that was taken is followed on the cells.** -/
theorem Kept.follows_of_run {next : Arena τ} {s : Step} {answer : Option Nat}
    (h : arena.Kept r cells steps) (hword : arena.stats.allocs < 2 ^ 64) (hallows : arena.Allows s)
    (hrun : (step s).run arena = .ok answer next) :
    ∃ after, arena.Follows next r cells after steps s answer ∧ next.stats.allocs < 2 ^ 64 := by
  have hle := h.counts.allocs_le
  have hcounted := h.recount (Nat.le_refl _)
  by_cases hroom : arena.stats.allocs + 1 < 2 ^ 64
  · obtain ⟨answer', next', after, hrun', hfollows⟩ := hcounted.run_step hroom hallows
    obtain ⟨rfl, rfl⟩ := EStateM.Result.ok.inj (hrun.symm.trans hrun')
    have hnext := hfollows.kept.counts.allocs_le
    exact ⟨after, hfollows.recount (by omega), by omega⟩
  · -- The counter is full, so a block that was handed out could not have been counted.
    have hnone : ∀ n, s = .allocate n → (allocated r n cells).1 = none := by
      intro n hs
      by_contra hsome
      subst hs
      exact hroom (h.allocs_lt_of_run_allocate hsome hrun)
    obtain ⟨next', after, hrun', hallocs, hfollows⟩ :=
      hcounted.run_step_uncounted hword hallows hnone
    obtain ⟨rfl, rfl⟩ := EStateM.Result.ok.inj (hrun.symm.trans hrun')
    exact ⟨after, hfollows.recount (by omega), by omega⟩

theorem Kept.follows {next : Arena τ} {s : Step} {answer : Option Nat}
    (h : arena.Kept r cells steps) (hsteps : steps + 1 < 2 ^ 64) (hallows : arena.Allows s)
    (hrun : (step s).run arena = .ok answer next) :
    ∃ after, arena.Follows next r cells after steps s answer := by
  have hle := h.counts.allocs_le
  obtain ⟨after, hfollows, -⟩ := h.follows_of_run (by omega) hallows hrun
  exact ⟨after, hfollows⟩

end Arena

end FirstFit
