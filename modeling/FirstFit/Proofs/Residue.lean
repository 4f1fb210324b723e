/-
Nothing is left where a header was.

Headers come and go where payload was before and will be again.  One that disappears is
wiped with all that it took up, so a byte that is now in no header holds nothing an arena
ever wrote there: it is zero, or the client wrote it.  `Arena.Scrubbed` says this of one
state, given what was written so far; a step keeps it (`Arena.Follows.scrubbed`), and so
does a run.

The padding behind the seven words of a header is never written, but it may hold what a
client wrote when it was payload.  That is why the words are excluded here and not the
footprint.
-/
import FirstFit.Proofs.Exclusive

namespace FirstFit

theorem lastWritten_eq_none {history : List (Step × Option Nat)}
    (h : ∀ x ∈ history, ∀ a, x.1.writes a = none) (a : Nat) : lastWritten a history = none := by
  induction history with
  | nil => rfl
  | cons x rest ih =>
    obtain ⟨s, answer⟩ := x
    rw [lastWritten, ih fun x hx => h x (List.mem_cons_of_mem _ hx), Option.none_or]
    exact h (s, answer) List.mem_cons_self a

namespace Arena

open Cells

variable {τ : Type} {arena first last : Arena τ} {r : Region} {cells : List Cell}
  {steps : Nat} {written : Nat → Option UInt8}

/-- Every byte in no header of the chain is zero, or it is what was written there. -/
def Scrubbed (arena : Arena τ) (written : Nat → Option UInt8) : Prop :=
  ∀ a, (∀ b ∈ arena.blocks, ¬ arena.region.InWords b.offset a) →
    arena.memory.byteAt a = 0 ∨ written a = some (arena.memory.byteAt a)

theorem Scrubbed.byteAt_eq_zero (h : arena.Scrubbed written) {a : Nat}
    (hout : ∀ b ∈ arena.blocks, ¬ arena.region.InWords b.offset a) (hnone : written a = none) :
    arena.memory.byteAt a = 0 := by
  rcases h a hout with hzero | hwritten
  · exact hzero
  · rw [hnone] at hwritten
    cases hwritten

theorem Kept.not_inWords_iff (h : arena.Kept r cells steps) {a : Nat} :
    (∀ b ∈ arena.blocks, ¬ arena.region.InWords b.offset a) ↔
      ∀ o ∈ offsets r.footprint cells, ¬ r.InWords o a := by
  rw [h.region]
  constructor
  · intro hblocks o ho
    obtain ⟨b, hb, rfl⟩ := h.mem_offsets_iff.mp ho
    exact hblocks b hb
  · intro hoffsets b hb
    exact hoffsets b.offset (h.mem_offsets_iff.mpr ⟨b, hb, rfl⟩)

theorem Kept.not_inWords_of_live (h : arena.Kept r cells steps) {b : Block} {address a : Nat}
    (hlive : arena.Live b address) (hlow : address ≤ a) (hhigh : a < address + b.size) :
    ∀ b' ∈ arena.blocks, ¬ arena.region.InWords b'.offset a := by
  obtain ⟨p, hp, -, rfl, rfl⟩ := h.live_iff.mp hlive
  have hsize : Block.size ⟨p.1, r.headerAt arena.memory p.1⟩ = p.2.size := h.size_eq hp
  rw [hsize] at hhigh
  rw [h.not_inWords_iff]
  intro o ho hin
  exact Region.Laid.not_inFootprint hp ho hlow hhigh hin.inFootprint

/-- In a new arena every byte is zero that is not in the one header it may have. -/
theorem scrubbed_create {config : Config} {memory : Memory} {tracer : τ}
    (hcreate : create config memory tracer = .ok first) : first.Scrubbed fun _ => none := by
  obtain ⟨-, -, hmemory⟩ := create_eq hcreate
  intro a hout
  refine .inl ?_
  by_cases husable : first.region.Usable
  · have hkept := kept_create hcreate husable
    rw [hmemory, if_pos husable, Region.byteAt_setHeader_of_not_inWords, Memory.byteAt_cleared]
    exact hkept.not_inWords_iff.mp hout 0 (mem_offsets_middle [] [] _)
  · rw [hmemory, if_neg husable, Memory.byteAt_cleared]

variable [Tracer τ]

/-- A step leaves nothing but what it writes for the client. -/
theorem Follows.scrubbed {next : Arena τ} {after : List Cell} {s : Step} {answer : Option Nat}
    (hfollows : arena.Follows next r cells after steps s answer) (h : arena.Kept r cells steps)
    (hscrubbed : arena.Scrubbed written) : next.Scrubbed fun a => (s.writes a).or (written a) := by
  intro a hout
  rcases hfollows.swept a (hfollows.kept.not_inWords_iff.mp hout) with hzero | ⟨hbefore, hbyte⟩
  · exact .inl hzero
  · dsimp only
    rw [hbyte]
    cases s.writes a with
    | some byte => exact .inr rfl
    | none => exact hscrubbed a (h.not_inWords_iff.mpr hbefore)

theorem Runs.scrubbed {history : List (Step × Option Nat)} (hruns : Runs first history last)
    (h : first.Kept r cells steps) (hword : first.stats.allocs < 2 ^ 64)
    (hscrubbed : first.Scrubbed written) :
    last.Scrubbed fun a => (lastWritten a history).or (written a) := by
  induction hruns generalizing cells steps written with
  | nil => exact hscrubbed
  | @cons arena mid last s answer rest hallows hstep hrest ih =>
    obtain ⟨after, hfollows, hword'⟩ := h.follows_of_run hword hallows hstep
    have hlast := ih hfollows.kept hword' (hfollows.scrubbed h hscrubbed)
    intro a hout
    show _ ∨ ((lastWritten a rest).or (s.writes a)).or (written a) = _
    rw [Option.or_assoc]
    exact hlast a hout

theorem Runs.scrubbed_of_create {config : Config} {memory : Memory} {tracer : τ}
    {history : List (Step × Option Nat)} (hcreate : create config memory tracer = .ok first)
    (hruns : Runs first history last) : last.Scrubbed (lastWritten · history) := by
  have hfirst := scrubbed_create hcreate
  by_cases husable : first.region.Usable
  · have hkept := kept_create hcreate husable
    have hle := hkept.counts.allocs_le
    have hlast := hruns.scrubbed hkept (by omega) hfirst
    simp only [Option.or_none] at hlast
    exact hlast
  · -- Nothing was ever handed out, so nothing could be written.
    obtain ⟨-, hmemory, -⟩ := hruns.of_not_usable husable
    have hnone : ∀ a, ∀ b ∈ first.blocks, ¬ first.region.InWords b.offset a := by
      rw [blocks_of_not_usable husable]
      simp
    intro a _
    rw [hmemory]
    exact .inl (hfirst.byteAt_eq_zero (hnone a) rfl)

theorem Runs.byteAt_eq_zero {config : Config} {memory : Memory} {tracer : τ}
    {history : List (Step × Option Nat)} (hcreate : create config memory tracer = .ok first)
    (hruns : Runs first history last) (hwrites : ∀ x ∈ history, ∀ a, x.1.writes a = none) {a : Nat}
    (hout : ∀ b ∈ last.blocks, ¬ last.region.InWords b.offset a) : last.memory.byteAt a = 0 :=
  (hruns.scrubbed_of_create hcreate).byteAt_eq_zero hout (lastWritten_eq_none hwrites a)

/-- **Beside the headers of the chain every byte is zero, or the client wrote it last.**  A client
that writes nothing finds all of it zero, and every payload it is handed. -/
theorem Runs.no_stale_header {config : Config} {memory : Memory} {tracer : τ}
    {history : List (Step × Option Nat)} (hcreate : create config memory tracer = .ok first)
    (hruns : Runs first history last) (hlength : history.length < 2 ^ 63) :
    (∀ a, (∀ b ∈ last.blocks, ¬ last.region.InWords b.offset a) →
      last.memory.byteAt a = 0 ∨ lastWritten a history = some (last.memory.byteAt a)) ∧
    ((∀ x ∈ history, ∀ a, x.1.writes a = none) →
      (∀ a, (∀ b ∈ last.blocks, ¬ last.region.InWords b.offset a) → last.memory.byteAt a = 0) ∧
      ∀ before after n address, history = before ++ (.allocate n, some address) :: after →
        ∃ granted b, Runs first (before ++ [(.allocate n, some address)]) granted ∧
          Runs granted after last ∧ granted.Live b address ∧
          ∀ a, address ≤ a → a < address + b.size → granted.memory.byteAt a = 0) := by
  refine ⟨hruns.scrubbed_of_create hcreate, ?_⟩
  intro hwrites
  refine ⟨?_, ?_⟩
  · intro a hout
    exact hruns.byteAt_eq_zero hcreate hwrites hout
  · intro before after n address hhistory
    subst hhistory
    rw [List.length_append, List.length_cons] at hlength
    rw [← List.singleton_append, ← List.append_assoc] at hruns hwrites
    by_cases husable : first.region.Usable
    · obtain ⟨granted, hgranted, hafter⟩ := hruns.of_append
      obtain ⟨p, cells, hkept, hp, hallocated, rfl, -⟩ :=
        hgranted.kept_granted hcreate husable (by omega)
      have hlive := hkept.live_iff.mpr ⟨p, hp, hallocated, rfl, rfl⟩
      refine ⟨granted, _, hgranted, hafter, hlive, ?_⟩
      intro a hlow hhigh
      exact hgranted.byteAt_eq_zero hcreate (fun x hx => hwrites x (List.mem_append_left _ hx))
        (hkept.not_inWords_of_live hlive hlow hhigh)
    · obtain ⟨-, -, hnone⟩ := hruns.of_not_usable husable
      have hanswer := hnone (.allocate n, some address) (by simp)
      cases hanswer

/-- Two blocks were merged, and a third was cut from what they left.  The second had its header
from address 4160 on. -/
theorem no_stale_header_sample :
    ∃ first last : Arena Silent, create {} sample ⟨⟩ = .ok first ∧
      Runs first [(.allocate 8, some 4152), (.allocate 8, some 4216), (.release 4152, none),
        (.release 4216, none), (.allocate 80, some 4152)] last ∧
      last.blocks.map Block.offset = [0, 136] ∧ last.memory.byteAt 4160 = 0 ∧
      ∃ b, last.Live b 4152 ∧ ∀ a, 4152 ≤ a → a < 4152 + b.size → last.memory.byteAt a = 0 := by
  obtain ⟨first, last, hcreate, -, hruns, hkept⟩ := @exists_sample_run
    [.allocate 8, .allocate 8, .release 4152, .release 4216, .allocate 80]
    [some 4152, some 4216, none, none, some 4152] [⟨80, true⟩, ⟨8, false⟩] (by decide +kernel)
    (by decide)
  obtain ⟨-, hunwritten⟩ := Runs.no_stale_header hcreate hruns (by decide)
  obtain ⟨hall, hgranted⟩ := hunwritten (by simp [Step.writes])
  obtain ⟨granted, b, -, hrest, hlive, hzero⟩ := hgranted
    [(.allocate 8, some 4152), (.allocate 8, some 4216), (.release 4152, none),
      (.release 4216, none)] [] 80 4152 rfl
  cases hrest
  refine ⟨first, last, hcreate, hruns, ?_, hall 4160 (hkept.not_inWords_iff.mpr ?_), b, hlive,
    hzero⟩
  · rw [hkept.blocks_eq, Cells.blocks, List.map_map]
    show (place _ _ _).map Prod.fst = _
    decide +kernel
  · unfold Region.InWords
    decide +kernel

end Arena

end FirstFit
