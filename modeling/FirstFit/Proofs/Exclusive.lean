/-
What a caller was handed belongs to nobody else.

A block that was handed out stays where it is until it is given back, because no step moves
an allocated cell; and no header reaches into its payload, because cells lie a whole cell
apart.  So its bytes are those its owner wrote, however many other blocks come and go:
`lastWritten` is what a history leaves at an address, and
`Arena.Runs.handed_out_exclusive` says that a payload reads as its owner left it.

The other half is about a single operation: whatever byte it changes is one that a header
takes up, before or after.
-/
import FirstFit.Proofs.Runs

namespace FirstFit

/-- The byte the client wrote last to an address, if it wrote there at all. -/
def lastWritten (address : Nat) : List (Step × Option Nat) → Option UInt8
  | [] => none
  | (s, _) :: rest => (lastWritten address rest).or (s.writes address)

namespace Arena

open Cells

variable {τ : Type} {arena first last : Arena τ} {r : Region} {cells : List Cell}
  {steps n address : Nat} {b : Block}

/-- A block that was handed out for a request of `n` bytes is its owner's alone. -/
structure Exclusive (arena : Arena τ) (n address : Nat) (b : Block) : Prop where
  live : arena.Live b address
  aligned : arena.region.unit.bytes ∣ address
  enough : arena.region.unit.ceil n ≤ b.size
  /-- It is not longer than it has to be: what was left over had no room for a block. -/
  snug : b.size < arena.region.unit.ceil n + arena.region.footprint + arena.region.unit.bytes
  start_le : arena.region.base + arena.region.footprint ≤ address
  le_stop : address + b.size ≤ arena.region.base + arena.region.capacity
  /-- Another live block has another address, also if one of them is empty, and other bytes. -/
  apart : ∀ b' address', arena.Live b' address' → b' ≠ b →
    address' ≠ address ∧ (address + b.size ≤ address' ∨ address' + b'.size ≤ address)
  /-- No header of the chain reaches into it. -/
  headers : ∀ b' ∈ arena.blocks, address + b.size ≤ arena.region.base + b'.offset ∨
    arena.region.base + b'.offset + arena.region.footprint ≤ address

theorem Kept.exclusive (h : arena.Kept r cells steps) {p : Nat × Cell}
    (hp : p ∈ place r.footprint 0 cells) (hallocated : p.2.allocated = true)
    (henough : r.unit.ceil n ≤ p.2.size)
    (hsnug : p.2.size < r.unit.ceil n + r.footprint + r.unit.bytes) :
    arena.Exclusive n (r.payload p.1) ⟨p.1, r.headerAt arena.memory p.1⟩ := by
  have hregion := h.region
  have hpos := r.footprint_pos
  have hsize : Block.size ⟨p.1, r.headerAt arena.memory p.1⟩ = p.2.size := h.size_eq hp
  obtain ⟨hdvd, hfits⟩ := h.tidy.place_fits hp
  refine ⟨h.live_iff.mpr ⟨p, hp, hallocated, rfl, rfl⟩, ?_, ?_, ?_, ?_, ?_, ?_, ?_⟩
  · rw [hregion]
    exact Nat.dvd_add (Nat.dvd_add h.tidy.lies.base_dvd hdvd) r.dvd_footprint
  · rw [hregion, hsize]
    exact henough
  · rw [hregion, hsize]
    exact hsnug
  · rw [hregion]
    unfold Region.payload
    omega
  · rw [hregion, hsize]
    unfold Region.payload
    omega
  · intro b' address' hlive hne
    obtain ⟨q, hq, -, rfl, rfl⟩ := h.live_iff.mp hlive
    have hsize' : Block.size ⟨q.1, r.headerAt arena.memory q.1⟩ = q.2.size := h.size_eq hq
    rw [hsize, hsize']
    unfold Region.payload
    rcases place_apart hp hq with rfl | hbefore | hbehind
    · exact absurd rfl hne
    · exact ⟨by omega, .inl (by omega)⟩
    · exact ⟨by omega, .inr (by omega)⟩
  · intro b' hb'
    rw [h.blocks_eq] at hb'
    obtain ⟨q, hq, rfl⟩ := List.mem_map.mp hb'
    rw [hregion, hsize]
    unfold Region.payload
    show _ ≤ r.base + q.1 ∨ r.base + q.1 + r.footprint ≤ _
    rcases place_apart hp hq with rfl | hbefore | hbehind
    · exact .inr (by omega)
    · exact .inl (by omega)
    · exact .inr (by omega)

theorem Kept.mem_offsets_iff (h : arena.Kept r cells steps) {o : Nat} :
    o ∈ offsets r.footprint cells ↔ ∃ b ∈ arena.blocks, b.offset = o := by
  rw [h.blocks_eq, Cells.blocks, offsets]
  simp

variable [Tracer τ]

/-- An allocated cell that is not given back stays where it is, and its payload holds what was
written there last. -/
theorem Runs.stays {history : List (Step × Option Nat)} (hruns : Runs first history last)
    (h : first.Kept r cells steps) (hlength : steps + history.length < 2 ^ 64) {p : Nat × Cell}
    (hp : p ∈ place r.footprint 0 cells) (hallocated : p.2.allocated = true)
    (hnot : ∀ answer, (.release (r.payload p.1), answer) ∉ history) :
    ∃ after, last.Kept r after (steps + history.length) ∧ p ∈ place r.footprint 0 after ∧
      ∀ a, r.payload p.1 ≤ a → a < r.payload p.1 + p.2.size →
        last.memory.byteAt a = (lastWritten a history).getD (first.memory.byteAt a) := by
  induction hruns generalizing cells steps with
  | nil => exact ⟨cells, h, hp, fun _ _ _ => rfl⟩
  | @cons arena mid last s answer rest hallows hstep hrest ih =>
    rw [List.length_cons] at hlength
    obtain ⟨after, hfollows⟩ := h.follows (by omega) hallows hstep
    have hne : s ≠ .release (r.payload p.1) := fun heq => hnot answer (by simp [heq])
    have hp' := hfollows.stays p hp hallocated hne
    obtain ⟨after', hkept, hstays, hbytes⟩ := ih hfollows.kept (by omega) hp'
      fun answer hmem => hnot answer (List.mem_cons_of_mem _ hmem)
    refine ⟨after', ?_, hstays, fun a hlow hhigh => ?_⟩
    · rw [List.length_cons, Nat.add_comm rest.length, ← Nat.add_assoc]
      exact hkept
    · have hframed := hfollows.framed a
        (fun o ho => Region.Laid.not_inFootprint hp ho hlow hhigh)
        (fun o ho => Region.Laid.not_inFootprint hp' ho hlow hhigh)
      rw [hbytes a hlow hhigh, hframed, lastWritten]
      cases lastWritten a rest <;> rfl

theorem Runs.of_append {xs ys : List (Step × Option Nat)} (h : Runs first (xs ++ ys) last) :
    ∃ mid, Runs first xs mid ∧ Runs mid ys last := by
  induction xs generalizing first with
  | nil => exact ⟨first, .nil first, h⟩
  | cons x xs ih =>
    cases h with
    | cons hallows hstep hrest =>
      obtain ⟨mid, hxs, hys⟩ := ih hrest
      exact ⟨mid, .cons hallows hstep hxs, hys⟩

theorem Runs.kept_granted {config : Config} {memory : Memory} {tracer : τ} {granted : Arena τ}
    {before : List (Step × Option Nat)} (hcreate : create config memory tracer = .ok first)
    (husable : first.region.Usable)
    (hruns : Runs first (before ++ [(.allocate n, some address)]) granted)
    (hlength : before.length + 1 < 2 ^ 64) :
    ∃ p cells, granted.Kept first.region cells (before.length + 1) ∧
      p ∈ place first.region.footprint 0 cells ∧ p.2.allocated = true ∧
      address = first.region.payload p.1 ∧ first.region.unit.ceil n ≤ p.2.size ∧
      p.2.size < first.region.unit.ceil n + first.region.footprint + first.region.unit.bytes := by
  obtain ⟨mid, hbefore, hlast⟩ := hruns.of_append
  obtain ⟨cells, -, hkept⟩ := hbefore.kept_of_create hcreate husable (by omega)
  cases hlast with
  | cons hallows hstep hnil =>
    cases hnil
    obtain ⟨after, hfollows⟩ := hkept.follows hlength hallows hstep
    obtain ⟨p, hp, hallocated, haddress, hsize⟩ := place_granted (Option.some.inj hfollows.step)
    exact ⟨p, after, hfollows.kept, hp, hallocated, haddress, hsize⟩

/-- What an operation leaves alone: all bytes but those that headers take up. -/
theorem Kept.changed_inFootprint {next : Arena τ} (h : arena.Kept r cells steps)
    (hsteps : steps + 1 < 2 ^ 64) {s : Step} {answer : Option Nat} (hallows : arena.Allows s)
    (hwrites : ∀ a, s.writes a = none) (hrun : (step s).run arena = .ok answer next) {a : Nat}
    (hchanged : next.memory.byteAt a ≠ arena.memory.byteAt a) :
    ∃ b ∈ arena.blocks ++ next.blocks, arena.region.InFootprint b.offset a := by
  obtain ⟨after, hfollows⟩ := h.follows hsteps hallows hrun
  rw [h.region]
  by_contra hnone
  have hout : ∀ b ∈ arena.blocks ++ next.blocks, ¬ r.InFootprint b.offset a :=
    fun b hb hin => hnone ⟨b, hb, hin⟩
  refine hchanged ?_
  rw [hfollows.framed a, hwrites a]
  · rfl
  · intro o ho
    obtain ⟨b, hb, rfl⟩ := h.mem_offsets_iff.mp ho
    exact hout b (List.mem_append_left _ hb)
  · intro o ho
    obtain ⟨b, hb, rfl⟩ := hfollows.kept.mem_offsets_iff.mp ho
    exact hout b (List.mem_append_right _ hb)

/-- **A block belongs to its owner alone until it is given back, and keeps what was written to
it.**  It has the address and the size it had when it was handed out.  Beside that, an
allocation or a release changes no byte but those of headers that are in the chain before
or after it. -/
theorem Runs.handed_out_exclusive {config : Config} {memory : Memory} {tracer : τ}
    {history : List (Step × Option Nat)} (hcreate : create config memory tracer = .ok first)
    (hruns : Runs first history last) (hlength : history.length < 2 ^ 63) :
    (∀ before after n address, history = before ++ (.allocate n, some address) :: after →
      (∀ answer, (.release address, answer) ∉ after) →
      ∃ granted b b', Runs first (before ++ [(.allocate n, some address)]) granted ∧
        Runs granted after last ∧ granted.Exclusive n address b ∧ last.Exclusive n address b' ∧
        b'.size = b.size ∧
        ∀ a, address ≤ a → a < address + b.size →
          last.memory.byteAt a = (lastWritten a after).getD (granted.memory.byteAt a)) ∧
    ∀ s, (∀ a, s.writes a = none) → last.Allows s → ∀ answer next,
      (step s).run last = .ok answer next → ∀ a, next.memory.byteAt a ≠ last.memory.byteAt a →
      ∃ b ∈ last.blocks ++ next.blocks, last.region.InFootprint b.offset a := by
  by_cases husable : first.region.Usable
  · refine ⟨?_, ?_⟩
    · intro before after n address hhistory hnot
      subst hhistory
      rw [List.length_append, List.length_cons] at hlength
      rw [← List.singleton_append, ← List.append_assoc] at hruns
      obtain ⟨granted, hgranted, hafter⟩ := hruns.of_append
      obtain ⟨p, cells, hkept, hp, hallocated, rfl, henough, hsnug⟩ :=
        hgranted.kept_granted hcreate husable (by omega)
      obtain ⟨cells', hkept', hp', hbytes⟩ :=
        hafter.stays hkept (by omega) hp hallocated hnot
      refine ⟨granted, _, _, hgranted, hafter, hkept.exclusive hp hallocated henough hsnug,
        hkept'.exclusive hp' hallocated henough hsnug, ?_, fun a hlow hhigh => ?_⟩
      · exact (hkept'.size_eq hp').trans (hkept.size_eq hp).symm
      · refine hbytes a hlow ?_
        rw [← hkept.size_eq hp]
        exact hhigh
    · intro s hwrites hallows answer next hrun a hchanged
      obtain ⟨cells, -, hkept⟩ := hruns.kept_of_create hcreate husable (by omega)
      exact hkept.changed_inFootprint (by omega) hallows hwrites hrun hchanged
  · obtain ⟨hregion, -, hnone⟩ := hruns.of_not_usable husable
    rw [← hregion] at husable
    refine ⟨?_, ?_⟩
    · intro before after n address hhistory _
      have hanswer := hnone (.allocate n, some address) (by simp [hhistory])
      simp at hanswer
    · intro s _ hallows answer next hrun a hchanged
      obtain ⟨next', hrun', -, hmemory⟩ := run_step_of_not_usable husable hallows
      obtain ⟨-, hnext⟩ := EStateM.Result.ok.inj (hrun.symm.trans hrun')
      rw [hnext, hmemory] at hchanged
      exact absurd rfl hchanged

theorem handed_out_exclusive_sample :
    ∃ first last : Arena Silent, create {} sample ⟨⟩ = .ok first ∧
      Runs first [(.allocate 24, some 4152), (.write 4152 [7, 8], none), (.allocate 0, some 4232),
        (.release 4232, none)] last ∧
      (∃ b, last.Exclusive 24 4152 b) ∧ last.memory.byteAt 4153 = 8 ∧
      ∃ answer next, (step (.release 4152)).run last = .ok answer next ∧
        ∀ a, next.memory.byteAt a ≠ last.memory.byteAt a →
          ∃ b ∈ last.blocks ++ next.blocks, last.region.InFootprint b.offset a := by
  obtain ⟨first, last, hcreate, -, hruns, hkept⟩ := @exists_run_of_cells Silent _ {} sample ⟨⟩
    [.allocate 24, .write 4152 [7, 8], .allocate 0, .release 4232]
    [some 4152, none, some 4232, none] [⟨24, true⟩, ⟨64, false⟩] (by decide +kernel)
    (by decide +kernel) (by decide +kernel) (by decide +kernel) (by decide)
  have hallows : last.Allows (.release 4152) := hkept.allows_iff.mpr (by decide +kernel)
  obtain ⟨answer, next, _, hrun, _⟩ := hkept.run_step (by decide) hallows
  obtain ⟨hexclusive, hframe⟩ := Runs.handed_out_exclusive hcreate hruns (by decide)
  obtain ⟨granted, b, b', -, -, -, hlast, hsize, hbytes⟩ := hexclusive []
    [(.write 4152 [7, 8], none), (.allocate 0, some 4232), (.release 4232, none)] 24 4152 rfl
    (by simp)
  have henough : 24 ≤ b'.size := by
    have hceil := hlast.enough
    rw [hkept.region] at hceil
    exact Nat.le_trans (by decide +kernel) hceil
  refine ⟨first, last, hcreate, hruns, ⟨b', hlast⟩, ?_, answer, next, hrun,
    hframe (.release 4152) (fun _ => rfl) hallows answer next hrun⟩
  exact (hbytes 4153 (by decide) (by omega)).trans (by rfl)

end Arena

end FirstFit
