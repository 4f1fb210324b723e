/-
There and back.

A block that is given back as soon as it was handed out leaves the chain as it was.  What was
carved off it is free and stands right behind it, so it is taken in again; what stands on either
side of the carved block was allocated already, because no two free blocks follow each other, so
nothing else is (`Cells.merge_carve`).

Of the bytes, only a header that came and went again can have changed.  It was written over
whatever a client had left in the free block, and is wiped when it goes.
-/
import FirstFit.Proofs.Commute

namespace FirstFit

/-! ### Carving and merging -/

namespace Cells

variable {r : Region} {length n : Nat} {cells after pre post : List Cell} {c : Cell}

/-- A cell is handed out as it is, or a free rest is cut off behind what was asked for. -/
theorem carve_cases (r : Region) (length : Nat) (c : Cell) :
    carve r length c = [⟨c.size, true⟩] ∨
      ∃ s, c.size = length + r.footprint + s ∧ carve r length c = [⟨length, true⟩, ⟨s, false⟩] := by
  have hunit := r.unit.bytes_pos
  unfold carve
  split
  · exact .inr ⟨c.size - length - r.footprint, by omega, rfl⟩
  · exact .inl rfl

/-- What a free cell was carved into becomes that cell again when it is given back. -/
theorem merge_carve (hmerged : Merged (pre ++ c :: post)) (hfree : c.allocated = false) :
    ∃ size rest, carve r length c = ⟨size, true⟩ :: rest ∧
      merge r.footprint size pre (rest ++ post) = pre ++ c :: post := by
  obtain ⟨-, -, hallocated | ⟨hbefore, hbehind⟩⟩ := merged_middle.mp hmerged
  · rw [hfree] at hallocated
    cases hallocated
  obtain ⟨whole, allocated⟩ := c
  obtain rfl : allocated = false := hfree
  rcases carve_cases r length ⟨whole, false⟩ with hwhole | ⟨s, hsize, hcut⟩
  · refine ⟨whole, [], hwhole, ?_⟩
    rw [merge_of_allocated hbefore, List.nil_append, takeIn_of_allocated hbehind]
  · refine ⟨length, [⟨s, false⟩], hcut, ?_⟩
    rw [merge_of_allocated hbefore]
    show pre ++ ⟨length + r.footprint + s, false⟩ :: post = pre ++ ⟨whole, false⟩ :: post
    rw [← hsize]

theorem offsets_carve (r : Region) (length : Nat) (pre post : List Cell) (c : Cell) :
    (∀ o ∈ offsets r.footprint (pre ++ (carve r length c ++ post)),
      o ∈ offsets r.footprint (pre ++ c :: post)) ∨
    extent r.footprint pre + r.footprint + length ∉ offsets r.footprint (pre ++ c :: post) ∧
      ∀ o, o ∈ offsets r.footprint (pre ++ (carve r length c ++ post)) ↔
        o ∈ offsets r.footprint (pre ++ c :: post) ∨
          o = extent r.footprint pre + r.footprint + length := by
  have hpos := r.footprint_pos
  rcases carve_cases r length c with hwhole | ⟨s, hsize, hcut⟩
  · left
    rw [hwhole, List.singleton_append, @offsets_congr r.footprint pre post c ⟨c.size, true⟩ rfl]
    exact fun o ho => ho
  · right
    rw [hcut]
    refine ⟨?_, fun o => mem_offsets_two hsize⟩
    have hc : (extent r.footprint pre, c) ∈ place r.footprint 0 (pre ++ c :: post) :=
      mem_place_append_cons.mpr (.inr (.inl rfl))
    exact not_mem_offsets_inside hc (by dsimp only; omega) (by dsimp only; omega)

/-- A cell that was handed out to a request of `n` bytes, between those before and behind it:
to give it back makes the cells from before, and where it was cut one header has come. -/
structure Granted (r : Region) (n : Nat) (cells pre post : List Cell) (size : Nat) : Prop where
  merge : merge r.footprint size pre post = cells
  offsets :
    (∀ o ∈ offsets r.footprint (pre ++ ⟨size, true⟩ :: post), o ∈ offsets r.footprint cells) ∨
    extent r.footprint pre + r.footprint + r.unit.ceil n ∉ offsets r.footprint cells ∧
      ∀ o, o ∈ offsets r.footprint (pre ++ ⟨size, true⟩ :: post) ↔
        o ∈ offsets r.footprint cells ∨ o = extent r.footprint pre + r.footprint + r.unit.ceil n

theorem exists_granted {address : Nat} (hmerged : Merged cells)
    (h : allocated r n cells = (some address, after)) :
    ∃ pre post size, after = pre ++ ⟨size, true⟩ :: post ∧
      address = r.payload (extent r.footprint pre) ∧ Granted r n cells pre post size := by
  rcases allocated_cases r n cells with hnone | ⟨pre, c, post, rfl, hc, -, -, hsome⟩
  · rw [hnone] at h
    cases h
  obtain ⟨size, rest, hcarve, hmerge⟩ :=
    @merge_carve r (r.unit.ceil n) pre post c hmerged (answers_iff.mp hc).1
  have hoffsets := offsets_carve r (r.unit.ceil n) pre post c
  rw [hsome] at h
  obtain ⟨haddress, rfl⟩ := Prod.mk.inj h
  rw [hcarve, List.cons_append] at hoffsets ⊢
  exact ⟨pre, rest ++ post, size, rfl, (Option.some.inj haddress).symm, hmerge, hoffsets⟩

end Cells

/-! ### Bytes -/

namespace Region

variable {r : Region} {m m' m'' : Memory} {old new : List Nat} {a : Nat}

/-- A byte is as it was if it is in no header that came and went again. -/
theorem Swept.byteAt_back (hthere : r.Swept m m' old new) (hback : r.Swept m' m'' new old)
    (hsubset : ∀ o ∈ old, o ∈ new) (hout : ∀ o ∈ old, ¬ r.InWords o a)
    (hkept : ∀ o ∈ new, o ∉ old → ¬ r.InFootprint o a) : m''.byteAt a = m.byteAt a := by
  rw [hback.kept a hout hkept]
  refine hthere.kept a (fun o ho hin => ?_) fun o ho hnot => absurd (hsubset o ho) hnot
  by_cases hold : o ∈ old
  · exact hout o hold hin
  · exact hkept o ho hold hin.inFootprint

end Region

namespace Arena

open Cells

variable {τ : Type} {arena granted final first last : Arena τ} {r : Region}
  {cells between : List Cell} {steps steps' n : Nat}

/-! ### An arena that holds the same cells again -/

/-- An arena holds other cells for a while and then the same as before, with the same tokens. -/
structure Returns (arena granted final : Arena τ) (r : Region) (cells between : List Cell)
    (steps : Nat) : Prop where
  before : arena.Kept r cells steps
  kept : granted.Kept r between (steps + 1)
  after : final.Kept r cells (steps + 1 + 1)
  there : r.Swept arena.memory granted.memory (offsets r.footprint cells)
    (offsets r.footprint between)
  back : r.Swept granted.memory final.memory (offsets r.footprint between)
    (offsets r.footprint cells)
  subset : ∀ o ∈ offsets r.footprint cells, o ∈ offsets r.footprint between
  tokens : ∀ p ∈ place r.footprint 0 cells, p.2.allocated = true →
    (r.headerAt final.memory p.1).trace = (r.headerAt arena.memory p.1).trace

theorem Returns.headerAt_eq (h : Returns arena granted final r cells between steps)
    {p : Nat × Cell} (hp : p ∈ place r.footprint 0 cells) :
    r.headerAt final.memory p.1 = r.headerAt arena.memory p.1 :=
  h.after.headerAt_eq h.before h.tokens hp

theorem Returns.blocks_eq (h : Returns arena granted final r cells between steps) :
    final.blocks = arena.blocks := by
  rw [h.after.blocks_eq, h.before.blocks_eq, Cells.blocks, Cells.blocks]
  refine List.map_congr_left fun p hp => ?_
  rw [h.headerAt_eq hp]

/-- The headers are the same again, and so is what was no header in between either. -/
theorem Returns.byteAt_eq (h : Returns arena granted final r cells between steps) {a : Nat}
    (hkept : ∀ o ∈ offsets r.footprint between, o ∉ offsets r.footprint cells →
      ¬ r.InFootprint o a) : final.memory.byteAt a = arena.memory.byteAt a := by
  by_cases hin : ∃ o ∈ offsets r.footprint cells, r.InWords o a
  · obtain ⟨o, ho, hlow, hhigh⟩ := hin
    obtain ⟨c, hc⟩ := mem_offsets.mp ho
    exact Memory.byteAt_eq_of_header_eq (h.headerAt_eq hc) hlow hhigh
  · exact h.there.byteAt_back h.back h.subset (fun o ho hwords => hin ⟨o, ho, hwords⟩) hkept

theorem Returns.memory_eq (h : Returns arena granted final r cells between steps)
    (hsame : ∀ o ∈ offsets r.footprint between, o ∈ offsets r.footprint cells) :
    final.memory = arena.memory :=
  Memory.ext_byteAt (h.back.start.trans h.there.start) (h.back.size.trans h.there.size)
    fun _ _ => h.byteAt_eq fun o ho hnot => absurd (hsame o ho) hnot

theorem Returns.memory_eq_wipe (h : Returns arena granted final r cells between steps) {x : Nat}
    (hx : x ∉ offsets r.footprint cells)
    (hone : ∀ o, o ∈ offsets r.footprint between ↔ o ∈ offsets r.footprint cells ∨ o = x) :
    final.memory = r.wipe arena.memory x := by
  have hbetween : x ∈ offsets r.footprint between := (hone x).mpr (.inr rfl)
  refine Memory.ext_byteAt ?_ ?_ fun a _ => ?_
  · rw [Region.start_wipe, h.back.start, h.there.start]
  · rw [Region.size_wipe, h.back.size, h.there.size]
  by_cases hin : r.InFootprint x a
  · rw [Region.byteAt_wipe hin]
    refine h.back.wiped a (Region.not_inWords_of_apart ?_ hx hin) ⟨x, hbetween, hx, hin⟩
    exact fun o ho => apart_of_mem_offsets (h.subset o ho) hbetween
  · rw [Region.byteAt_wipe_of_not_inFootprint hin]
    refine h.byteAt_eq fun o ho hnot => ?_
    obtain rfl := ((hone o).mp ho).resolve_left hnot
    exact hin

/-- A header of the second arena is where the first has none. -/
def Gains (arena next : Arena τ) (o : Nat) : Prop :=
  (∃ b ∈ next.blocks, b.offset = o) ∧ ∀ b ∈ arena.blocks, b.offset ≠ o

theorem Returns.gains_iff (h : Returns arena granted final r cells between steps) {o : Nat} :
    arena.Gains granted o ↔ o ∈ offsets r.footprint between ∧ o ∉ offsets r.footprint cells := by
  rw [h.before.mem_offsets_iff, h.kept.mem_offsets_iff, not_exists]
  simp only [not_and]
  exact Iff.rfl

/-- Where a cell was handed out, the header that came with it is the only one, and is wiped. -/
theorem Returns.wiped_where_cut {pre post : List Cell} {size : Nat}
    (h : Returns arena granted final r cells (pre ++ ⟨size, true⟩ :: post) steps)
    (hgranted : Granted r n cells pre post size) :
    (∀ o, ¬ arena.Gains granted o) ∧ final.memory = arena.memory ∨
      ∃ x, (∀ o, arena.Gains granted o ↔ o = x) ∧
        r.base + x = r.payload (extent r.footprint pre) + r.unit.ceil n ∧
        final.memory = r.wipe arena.memory x := by
  rcases hgranted.offsets with hsame | ⟨hnew, hone⟩
  · refine .inl ⟨fun o hgains => ?_, h.memory_eq hsame⟩
    obtain ⟨ho, hnot⟩ := h.gains_iff.mp hgains
    exact hnot (hsame o ho)
  · refine .inr ⟨_, fun o => ?_, ?_, h.memory_eq_wipe hnew hone⟩
    · rw [h.gains_iff, hone]
      constructor
      · intro hgained
        exact hgained.1.resolve_left hgained.2
      · rintro rfl
        exact ⟨.inr rfl, hnew⟩
    · unfold Region.payload
      omega

/-! ### An allocation and the release of what it handed out -/

variable [Tracer τ]

/-- What is left of a block that was handed out to a request and given back at once. -/
structure RoundTrip (arena granted final : Arena τ) (n address : Nat) : Prop where
  blocks : final.blocks = arena.blocks
  /-- A header that was not there before is where the block was cut, and is wiped again. -/
  memory : (∀ o, ¬ arena.Gains granted o) ∧ final.memory = arena.memory ∨
    ∃ x, (∀ o, arena.Gains granted o ↔ o = x) ∧
      arena.region.base + x = address + arena.region.unit.ceil n ∧
      final.memory = arena.region.wipe arena.memory x
  used : final.stats.used = arena.stats.used
  live : final.stats.live = arena.stats.live
  allocs : final.stats.allocs = arena.stats.allocs + 1
  releases : final.stats.releases = arena.stats.releases + 1
  /-- The tracer is asked for one token if there are to be any, and for no other. -/
  captured : granted.tracer = arena.captured.2
  /-- It is given that one back, and no other. -/
  discarded : final.tracer = Tracer.dropped granted.tracer arena.captured.1

theorem Kept.round_trip (h : arena.Kept r cells steps) (hsteps : steps + 1 < 2 ^ 64)
    {address : Nat} (hanswer : (allocated r n cells).1 = some address) :
    ∃ granted final, (allocate n).run arena = .ok (some address) granted ∧
      (release address).run granted = .ok () final ∧ arena.RoundTrip granted final n address := by
  obtain ⟨granted, hrun, hkept, hthere, htokens, -, htracer, size, hstats⟩ :=
    h.run_allocate hsteps n
  obtain ⟨after, hafter⟩ : ∃ after, allocated r n cells = (some address, after) :=
    ⟨_, Prod.ext hanswer rfl⟩
  rw [hafter] at hrun hkept hthere htokens htracer hstats
  rw [if_neg (Option.some_ne_none _)] at htracer hstats
  obtain ⟨pre, post, length, rfl, rfl, hgranted⟩ := exists_granted h.tidy.merged hafter
  obtain ⟨final, hrelease, hfinal, hreclaims⟩ := hkept.run_release rfl hsteps
  have hmerge : merge r.footprint (Cell.mk length true).size pre post = cells := hgranted.merge
  have hreturns : Returns arena granted final r cells (pre ++ ⟨length, true⟩ :: post) steps := by
    refine ⟨h, hkept, hmerge ▸ hfinal, hthere, hmerge ▸ hreclaims.swept,
      hmerge ▸ hreclaims.subset, fun p hp hallocated => ?_⟩
    have hne : p.1 ≠ extent r.footprint pre := by
      intro heq
      rw [free_of_granted hafter hp heq] at hallocated
      cases hallocated
    rw [hreclaims.tokens p.1 (hmerge ▸ mem_offsets.mpr ⟨p.2, hp⟩) hne]
    exact htokens.trace_eq hafter hp hallocated
  have hp : (extent r.footprint pre, Cell.mk length true) ∈
      place r.footprint 0 (pre ++ ⟨length, true⟩ :: post) :=
    mem_place_append_cons.mpr (.inr (.inl rfl))
  refine ⟨granted, final, hrun, hrelease, hreturns.blocks_eq, ?_, ?_, ?_, ?_, ?_, htracer, ?_⟩
  · rw [h.region]
    exact hreturns.wiped_where_cut hgranted
  · exact hreturns.after.counts.used.trans h.counts.used.symm
  · exact hreturns.after.counts.live.trans h.counts.live.symm
  · rw [hreclaims.stats, hstats]
    rfl
  · rw [hreclaims.stats, hstats]
    rfl
  · rw [hreclaims.tracer, htokens.trace_granted hafter hp rfl]

/-- **Allocation and release are a round trip.**  What was handed out can be given back at once,
and then the chain is the one from before, and so is every byte but those of a header that was
written where a block was cut.  Those are zero. -/
theorem Runs.release_undoes_allocate {config : Config} {memory : Memory} {tracer : τ}
    {history : List (Step × Option Nat)} {address : Nat}
    (hcreate : create config memory tracer = .ok first) (hruns : Runs first history last)
    (hgranted : (allocate n).run last = .ok (some address) granted) :
    ∃ final, (release address).run granted = .ok () final ∧
      last.RoundTrip granted final n address := by
  have husable : first.region.Usable := by
    by_contra hnot
    have hrefused := run_allocate_refused (n := n) rfl (.inl (hruns.not_usable hnot))
    rw [hrefused] at hgranted
    cases hgranted
  obtain ⟨cells, -, hkept, hword⟩ := hruns.reaches hcreate husable
  have hsome : (allocated first.region n cells).1 ≠ none := by
    intro hnone
    obtain ⟨journal, hrun⟩ := hkept.run_allocate_unanswered hnone
    rw [hrun] at hgranted
    cases hgranted
  have hallocs := hkept.allocs_lt_of_run_allocate hsome hgranted
  obtain ⟨answer, hanswer⟩ := Option.ne_none_iff_exists'.mp hsome
  obtain ⟨granted', final, hrun, hrelease, hround⟩ :=
    (hkept.recount (Nat.le_refl _)).round_trip hallocs hanswer
  rw [hrun] at hgranted
  cases hgranted
  exact ⟨final, hrelease, hround⟩

theorem release_undoes_allocate_sample :
    ∃ first last granted final : Arena Silent, create {} sample ⟨⟩ = .ok first ∧
      Runs first [(.allocate 8, some 4152), (.allocate 80, some 4216),
        (.write 4222 [7, 7, 7, 7], none), (.release 4216, none)] last ∧
      (allocate 8).run last = .ok (some 4216) granted ∧
      (release 4216).run granted = .ok () final ∧ final.blocks = last.blocks ∧
      final.memory = last.region.wipe last.memory 128 := by
  obtain ⟨first, last, hcreate, -, hruns, hkept⟩ := @exists_sample_run
    [.allocate 8, .allocate 80, .write 4222 [7, 7, 7, 7], .release 4216]
    [some 4152, some 4216, none, none] [⟨8, true⟩, ⟨80, false⟩] (by decide +kernel) (by decide)
  obtain ⟨granted, hallocate, hcut⟩ := @Kept.run_of_cells _ last _ _ _ _ [.allocate 8] [some 4216]
    [⟨8, true⟩, ⟨8, true⟩, ⟨16, false⟩] hkept (by decide +kernel) (by decide +kernel) (by decide)
  cases hallocate with
  | cons _ hgranted hnil =>
    cases hnil
    obtain ⟨final, hrelease, hround⟩ := Runs.release_undoes_allocate hcreate hruns hgranted
    refine ⟨first, last, granted, final, hcreate, hruns, hgranted, hrelease, hround.blocks, ?_⟩
    have hgains : last.Gains granted 128 := by
      refine ⟨hcut.mem_offsets_iff.mp (by decide +kernel), ?_⟩
      intro b hb heq
      have hnot := mt (hkept.mem_offsets_iff (o := 128)).mpr (by decide +kernel)
      exact hnot ⟨b, hb, heq⟩
    rcases hround.memory with ⟨hnone, -⟩ | ⟨x, hone, -, hmemory⟩
    · exact absurd hgains (hnone 128)
    · rw [(hone 128).mp hgains]
      exact hmemory

end Arena

end FirstFit
