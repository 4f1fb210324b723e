/-
What a release does.

A block that was given back is marked free (`Region.Laid.reclaim`) and then merged, first
with the block before it and then with the one behind.  Both merges are `absorb`, and
each is made or not as the cells say: `Act.run_back` and `Act.run_forward` run the two
halves on cells, `Cells.merge_eq` says the same of the list.  So a release of a live
block never fails, and leaves the cells as releasing the cell would.
-/
import FirstFit.Proofs.Allocation

namespace FirstFit

/-! ### On cells -/

namespace Cells

/-- A free cell with the free cell it takes in, if one follows. -/
def takeIn (footprint size : Nat) : List Cell → List Cell
  | ⟨s, false⟩ :: rest => ⟨size + footprint + s, false⟩ :: rest
  | cells => ⟨size, false⟩ :: cells

variable {r : Region} {footprint size offset : Nat} {pre post front before : List Cell} {c : Cell}
  {p : Nat × Cell}

theorem mergeBefore_concat (s : Nat) :
    mergeBefore footprint size (front ++ [⟨s, false⟩]) =
      front ++ [⟨s + footprint + size, false⟩] := by
  simp [mergeBefore]

theorem mergeBefore_of_allocated (h : ∀ a ∈ pre.getLast?, a.allocated = true) :
    mergeBefore footprint size pre = pre ++ [⟨size, false⟩] := by
  unfold mergeBefore
  split
  · next s hlast =>
    have hallocated := h _ hlast
    simp at hallocated
  · rfl

theorem last_cases (pre : List Cell) :
    (∃ front s, pre = front ++ [⟨s, false⟩]) ∨ ∀ a ∈ pre.getLast?, a.allocated = true := by
  rcases List.eq_nil_or_concat pre with rfl | ⟨front, ⟨s, allocated⟩, rfl⟩
  · exact .inr (by simp)
  · cases allocated with
    | false => exact .inl ⟨front, s, by simp⟩
    | true => exact .inr (by simp)

theorem first_cases (post : List Cell) :
    (∃ s rest, post = ⟨s, false⟩ :: rest) ∨ ∀ d ∈ post.head?, d.allocated = true := by
  match post with
  | [] => exact .inr (by simp)
  | ⟨s, false⟩ :: rest => exact .inl ⟨s, rest, rfl⟩
  | ⟨s, true⟩ :: rest => exact .inr (by simp)

theorem takeIn_of_allocated (h : ∀ d ∈ post.head?, d.allocated = true) :
    takeIn footprint size post = ⟨size, false⟩ :: post := by
  unfold takeIn
  split
  · next s rest =>
    have hallocated := h ⟨s, false⟩ rfl
    simp at hallocated
  · rfl

/-- A merge with what is before, then a merge with what is behind. -/
theorem merge_eq {grown : Nat}
    (h : ∀ k, mergeBefore footprint (size + k) pre = front ++ [⟨grown + k, false⟩]) :
    merge footprint size pre post = front ++ takeIn footprint grown post := by
  have hzero := h 0
  rw [Nat.add_zero, Nat.add_zero] at hzero
  match post with
  | [] =>
    show mergeBefore footprint size pre ++ [] = front ++ [⟨grown, false⟩]
    rw [hzero, List.append_nil]
  | ⟨s, true⟩ :: rest =>
    show mergeBefore footprint size pre ++ ⟨s, true⟩ :: rest = _
    rw [hzero, List.append_assoc, List.singleton_append]
    rfl
  | ⟨s, false⟩ :: rest =>
    show mergeBefore footprint (size + footprint + s) pre ++ rest = _
    rw [Nat.add_assoc, h, List.append_assoc, List.singleton_append, ← Nat.add_assoc]
    rfl

theorem merge_of_concat (s : Nat) :
    merge footprint size (front ++ [⟨s, false⟩]) post =
      front ++ takeIn footprint (s + footprint + size) post :=
  merge_eq fun k => by rw [mergeBefore_concat, Nat.add_assoc _ size]

theorem merge_of_allocated (h : ∀ a ∈ pre.getLast?, a.allocated = true) :
    merge footprint size pre post = pre ++ takeIn footprint size post :=
  merge_eq fun _ => mergeBefore_of_allocated h

/-- What a free cell takes in was free and stood before an allocated one. -/
theorem merged_takeIn (hfront : Merged front) (hpost : Merged post)
    (hlast : ∀ a ∈ front.getLast?, a.allocated = true) :
    Merged (front ++ takeIn footprint size post) := by
  rcases first_cases post with ⟨s, rest, rfl⟩ | hhead
  · obtain ⟨-, hrest, hcases⟩ := (@merged_middle [] rest ⟨s, false⟩).mp hpost
    rcases hcases with hallocated | ⟨-, hhead⟩
    · simp at hallocated
    · exact merged_middle.mpr ⟨hfront, hrest, .inr ⟨hlast, hhead⟩⟩
  · rw [takeIn_of_allocated hhead]
    exact merged_middle.mpr ⟨hfront, hpost, .inr ⟨hlast, hhead⟩⟩

theorem used_takeIn : used (takeIn footprint size post) = used post := by
  rcases first_cases post with ⟨s, rest, rfl⟩ | hhead
  · simp [takeIn, used_cons]
  · simp [takeIn_of_allocated hhead, used_cons]

theorem live_takeIn : live (takeIn footprint size post) = live post := by
  rcases first_cases post with ⟨s, rest, rfl⟩ | hhead
  · simp [takeIn, live_cons]
  · simp [takeIn_of_allocated hhead, live_cons]

theorem used_merge : used (merge footprint size pre post) = used pre + used post := by
  rcases last_cases pre with ⟨front, s, rfl⟩ | hlast
  · rw [merge_of_concat, used_append, used_takeIn, used_append]
    simp [used]
  · rw [merge_of_allocated hlast, used_append, used_takeIn]

theorem live_merge : live (merge footprint size pre post) = live pre + live post := by
  rcases last_cases pre with ⟨front, s, rfl⟩ | hlast
  · rw [merge_of_concat, live_append, live_takeIn, live_append]
    simp [live]
  · rw [merge_of_allocated hlast, live_append, live_takeIn]

theorem mem_place_takeIn_iff (hp : p.2.allocated = true) :
    p ∈ place footprint offset (takeIn footprint size post) ↔
      p ∈ place footprint (offset + footprint + size) post := by
  have hne : ∀ o s, p ≠ (o, ⟨s, false⟩) := by
    rintro o s rfl
    simp at hp
  rcases first_cases post with ⟨s, rest, rfl⟩ | hhead
  · have hsum : offset + footprint + (size + footprint + s) =
        offset + footprint + size + footprint + s := by omega
    show p ∈ place footprint offset (⟨size + footprint + s, false⟩ :: rest) ↔ _
    rw [place_cons, place_cons, List.mem_cons, List.mem_cons, hsum]
    exact or_congr_left (iff_of_false (hne _ _) (hne _ _))
  · rw [takeIn_of_allocated hhead, place_cons, List.mem_cons]
    exact or_iff_right (hne _ _)

/-- The cells at other places than a given one. -/
theorem mem_place_other_iff :
    p ∈ place r.footprint 0 (pre ++ c :: post) ∧ p.1 ≠ extent r.footprint pre ↔
      p ∈ place r.footprint 0 pre ∨
        p ∈ place r.footprint (extent r.footprint pre + r.footprint + c.size) post := by
  have hpos := r.footprint_pos
  rw [mem_place_append_cons]
  constructor
  · intro hother
    obtain ⟨hpre | rfl | hpost, hne⟩ := hother
    · exact .inl hpre
    · exact absurd rfl hne
    · exact .inr hpost
  · intro hother
    rcases hother with hpre | hpost
    · have hbounds := (place_bounds hpre).2
      exact ⟨.inl hpre, by omega⟩
    · have hbounds := (place_bounds hpost).1
      exact ⟨.inr (.inr hpost), by omega⟩

/-- **A release leaves the other allocated cells where they are, and makes none.** -/
theorem mem_place_merge_iff (hp : p.2.allocated = true) :
    p ∈ place r.footprint 0 (merge r.footprint c.size pre post) ↔
      p ∈ place r.footprint 0 (pre ++ c :: post) ∧ p.1 ≠ extent r.footprint pre := by
  rw [mem_place_other_iff]
  rcases last_cases pre with ⟨front, s, rfl⟩ | hlast
  · have hne : p ≠ (extent r.footprint front, ⟨s, false⟩) := by
      rintro rfl
      simp at hp
    have hsum : extent r.footprint front + r.footprint + (s + r.footprint + c.size) =
        extent r.footprint (front ++ [⟨s, false⟩]) + r.footprint + c.size := by
      simp only [extent_concat]
      omega
    rw [merge_of_concat, place_append, List.mem_append, Nat.zero_add, mem_place_takeIn_iff hp,
      hsum, mem_place_append_cons, place_nil]
    simp only [hne, List.not_mem_nil, or_false]
  · rw [merge_of_allocated hlast, place_append, List.mem_append, Nat.zero_add,
      mem_place_takeIn_iff hp]

theorem free?_append (hc : c.allocated = true) :
    free? r.footprint (offset + extent r.footprint pre) offset before (pre ++ c :: post) =
      some (merge r.footprint c.size (before ++ pre) post) := by
  induction pre generalizing offset before with
  | nil =>
    rw [List.nil_append, free?, extent_nil, Nat.add_zero, if_pos rfl, if_pos hc, List.append_nil]
  | cons d pre ih =>
    have hpos := r.footprint_pos
    have hsum : offset + extent r.footprint (d :: pre) =
        offset + r.footprint + d.size + extent r.footprint pre := by
      rw [extent_cons]
      omega
    rw [List.cons_append, free?, if_neg (by rw [extent_cons]; omega), hsum, ih,
      List.append_assoc, List.singleton_append]

theorem release?_append (hc : c.allocated = true) :
    release? r (r.payload (extent r.footprint pre)) (pre ++ c :: post) =
      some (merge r.footprint c.size pre post) := by
  have hoffset : r.payload (extent r.footprint pre) - r.payload 0 =
      0 + extent r.footprint pre := by
    unfold Region.payload
    omega
  unfold release?
  rw [if_neg (by unfold Region.payload; omega), hoffset, free?_append hc, List.nil_append]

end Cells

/-! ### The two merges -/

namespace Region.Laid

open Cells

variable {r : Region} {m : Memory} {pre post : List Cell} {a c v : Cell}

theorem reclaim (hl : r.Laid m (pre ++ c :: post)) :
    r.Laid (r.setHeader m (extent r.footprint pre)
      (r.headerAt m (extent r.footprint pre)).reclaimed) (pre ++ ⟨c.size, false⟩ :: post) := by
  obtain ⟨-, hc, -⟩ := hl.at_middle
  refine hl.replace fits_headerAt.reclaimed rfl ?_
  exact ⟨hc.leading, hc.trailing, hc.size, rfl, rfl, rfl, fun _ => rfl⟩

/-- The header a free block takes in disappears, and no other. -/
theorem offsets_absorb_subset (pre post : List Cell) (a v : Cell) :
    ∀ o ∈ offsets r.footprint (pre ++ ⟨a.size + r.footprint + v.size, a.allocated⟩ :: post),
      o ∈ offsets r.footprint (pre ++ a :: v :: post) :=
  fun _ ho => (mem_offsets_two rfl).mpr (.inl ho)

end Region.Laid

namespace Act

open Cells

variable {τ : Type} {arena : Arena τ} {r : Region} {size : Nat} {pre post : List Cell} {a : Cell}

/-- The block of a cell is told if the cell is free. -/
theorem run_freeNeighbour_some (hr : arena.region = r)
    (hl : r.Laid arena.memory (pre ++ a :: post)) :
    (freeNeighbour (some (extent r.footprint pre))).run arena =
      .ok (if a.allocated then none else some (extent r.footprint pre)) arena := by
  obtain ⟨-, hdescribes, -⟩ := hl.at_middle
  rw [run_freeNeighbour hr ?_, Option.filter_some, hdescribes.isFree]
  · cases a.allocated <;> rfl
  · intro n hn
    rw [Option.mem_some_iff] at hn
    subst hn
    exact ⟨hl.middle_admits, hdescribes.intact⟩

variable [Tracer τ]

theorem run_absorb_pair {s : Nat} (hr : arena.region = r)
    (hl : r.Laid arena.memory (pre ++ ⟨s, false⟩ :: ⟨size, false⟩ :: post)) :
    ∃ memory journal,
      (absorb (extent r.footprint pre) (extent r.footprint pre + r.footprint + s)).run arena =
        .ok () { arena with memory, journal } ∧
      r.Laid memory (pre ++ ⟨s + r.footprint + size, false⟩ :: post) ∧
      r.Rearranged arena.memory memory
        (offsets r.footprint (pre ++ ⟨s, false⟩ :: ⟨size, false⟩ :: post))
        (offsets r.footprint (pre ++ ⟨s + r.footprint + size, false⟩ :: post)) := by
  obtain ⟨-, ha, hv, -⟩ := hl.at_middle
  obtain ⟨-, -, hcovers⟩ := hl.middle_fits
  simp only [extent_cons] at hcovers
  have hcapacity := hl.lies.capacity_lt
  have hvictim := hl
  rw [List.append_cons] at hvictim
  have hplace := @extent_concat r.footprint pre ⟨s, false⟩
  have hrun := run_absorb hr hl.middle_admits (hplace ▸ hvictim.middle_admits)
    (fun n hn => hvictim.admits_of_mem_linkTo n (by rw [hplace, ← hv.next]; exact hn))
    (by rw [ha.size, hv.size]; show s + (r.footprint + size) < _; omega) (hv.untraced rfl)
  exact ⟨_, _, hrun, hl.absorb, hl.rearranged_absorb⟩

/-- The block before a free one takes it in, if it is free too; then what follows goes on from
where the merged block starts. -/
theorem run_back {rest : Nat → Act τ Unit} (hr : arena.region = r)
    (hl : r.Laid arena.memory (pre ++ ⟨size, false⟩ :: post)) (hmerged : Merged pre) :
    ∃ front grown memory journal,
      (∀ post, Cells.merge r.footprint size pre post = front ++ takeIn r.footprint grown post) ∧
      (freeNeighbour (behind r.footprint none 0 pre) >>= fun found =>
        match found with
        | some before => absorb before (extent r.footprint pre) >>= fun _ => pure before >>= rest
        | none => pure (extent r.footprint pre) >>= rest).run arena =
        (rest (extent r.footprint front)).run { arena with memory, journal } ∧
      r.Laid memory (front ++ ⟨grown, false⟩ :: post) ∧
      r.Rearranged arena.memory memory (offsets r.footprint (pre ++ ⟨size, false⟩ :: post))
        (offsets r.footprint (front ++ ⟨grown, false⟩ :: post)) ∧
      (∀ o ∈ offsets r.footprint (front ++ ⟨grown, false⟩ :: post),
        o ∈ offsets r.footprint (pre ++ ⟨size, false⟩ :: post)) ∧
      Merged front ∧ ∀ a ∈ front.getLast?, a.allocated = true := by
  rcases last_cases pre with ⟨front, s, rfl⟩ | hlast
  · rw [List.append_assoc, List.singleton_append] at hl ⊢
    obtain ⟨hfront, -, hcases⟩ := merged_middle.mp hmerged
    obtain ⟨memory, journal, hrun, hlaid, hrearranged⟩ := run_absorb_pair hr hl
    refine ⟨front, s + r.footprint + size, memory, journal, fun _ => merge_of_concat s, ?_, hlaid,
      hrearranged, Region.Laid.offsets_absorb_subset front post ⟨s, false⟩ ⟨size, false⟩, hfront,
      ?_⟩
    · rw [behind_concat, Nat.zero_add, extent_concat, run_bind_ok (run_freeNeighbour_some hr hl)]
      exact run_bind_ok hrun
    · rcases hcases with hallocated | ⟨hlast, -⟩
      · simp at hallocated
      · exact hlast
  · refine ⟨pre, size, arena.memory, arena.journal, fun _ => merge_of_allocated hlast, ?_, hl,
      .refl _ _, fun _ ho => ho, hmerged, hlast⟩
    rcases List.eq_nil_or_concat pre with rfl | ⟨front, a, rfl⟩
    · rfl
    · rw [List.concat_eq_append] at hl hlast ⊢
      rw [List.append_assoc, List.singleton_append] at hl
      rw [behind_concat, Nat.zero_add, run_bind_ok (run_freeNeighbour_some hr hl),
        hlast a (by simp)]
      rfl

theorem run_forward (hr : arena.region = r)
    (hl : r.Laid arena.memory (pre ++ ⟨size, false⟩ :: post)) :
    ∃ memory journal,
      (header (extent r.footprint pre) >>= fun h => freeNeighbour h.next >>= fun found =>
        match found with
        | some after => absorb (extent r.footprint pre) after
        | _ => pure ()).run arena = .ok () { arena with memory, journal } ∧
      r.Laid memory (pre ++ takeIn r.footprint size post) ∧
      r.Rearranged arena.memory memory (offsets r.footprint (pre ++ ⟨size, false⟩ :: post))
        (offsets r.footprint (pre ++ takeIn r.footprint size post)) ∧
      ∀ o ∈ offsets r.footprint (pre ++ takeIn r.footprint size post),
        o ∈ offsets r.footprint (pre ++ ⟨size, false⟩ :: post) := by
  obtain ⟨-, hdescribes, -⟩ := hl.at_middle
  rw [run_bind_ok (run_header_eq hr hl.middle_admits), hdescribes.next]
  rcases first_cases post with ⟨s, rest, rfl⟩ | hhead
  · obtain ⟨memory, journal, hrun, hlaid, hrearranged⟩ := run_absorb_pair hr hl
    refine ⟨memory, journal, ?_, hlaid, hrearranged,
      Region.Laid.offsets_absorb_subset pre rest ⟨size, false⟩ ⟨s, false⟩⟩
    rw [hl.linkTo_next, run_bind_ok (run_freeNeighbour_some hr (List.append_cons .. ▸ hl)),
      extent_concat]
    exact hrun
  · rw [takeIn_of_allocated hhead]
    refine ⟨arena.memory, arena.journal, ?_, hl, .refl _ _, fun _ ho => ho⟩
    cases post with
    | nil =>
      rw [hl.linkTo_last]
      rfl
    | cons d rest =>
      rw [hl.linkTo_next, run_bind_ok (run_freeNeighbour_some hr (List.append_cons .. ▸ hl)),
        hhead d rfl]
      rfl

/-- A merge on the memory is a merge of the cells. -/
theorem run_merge (hr : arena.region = r)
    (hl : r.Laid arena.memory (pre ++ ⟨size, false⟩ :: post)) (hpre : Merged pre)
    (hpost : Merged post) :
    ∃ memory journal,
      (merge (extent r.footprint pre) (behind r.footprint none 0 pre)).run arena =
        .ok () { arena with memory, journal } ∧
      r.Laid memory (Cells.merge r.footprint size pre post) ∧
      Merged (Cells.merge r.footprint size pre post) ∧
      r.Rearranged arena.memory memory (offsets r.footprint (pre ++ ⟨size, false⟩ :: post))
        (offsets r.footprint (Cells.merge r.footprint size pre post)) ∧
      ∀ o ∈ offsets r.footprint (Cells.merge r.footprint size pre post),
        o ∈ offsets r.footprint (pre ++ ⟨size, false⟩ :: post) := by
  obtain ⟨front, grown, memory, journal, hmerge, hback, hlaid, hrearranged, hsubset, hfront,
      hlast⟩ :=
    @run_back τ arena r size pre post _
      (fun start => header start >>= fun h => freeNeighbour h.next >>= fun found =>
        match found with
        | some after => absorb start after
        | _ => pure ()) hr hl hpre
  obtain ⟨memory', journal', hforward, hlaid', hrearranged', hsubset'⟩ :=
    @run_forward τ { arena with memory, journal } r grown front post _
      (Arena.region_mk hr hrearranged.start hrearranged.size) hlaid
  rw [hmerge]
  exact ⟨memory', journal', hback.trans hforward, hlaid', merged_takeIn hfront hpost hlast,
    hrearranged.trans hrearranged' (fun o ho => .inl (hsubset o ho)) (fun o _ ho => hsubset' o ho),
    fun o ho => hsubset o (hsubset' o ho)⟩

end Act

/-! ### The run of a release -/

namespace Arena

open Cells

variable {τ : Type} {arena : Arena τ} {r : Region} {pre post : List Cell} {c : Cell}

theorem not_ignored (hr : arena.region = r) (hlies : r.Lies arena.memory) (offset : Nat) :
    ¬ (r.payload offset = 0 ∨ ¬ arena.region.Usable) := by
  have hpos := r.payload_pos offset
  rw [hr]
  exact not_or.mpr ⟨by omega, not_not.mpr hlies.usable⟩

variable [Tracer τ]

theorem run_release_ignored {address : Nat} (h : address = 0 ∨ ¬ arena.region.Usable) :
    (release address).run arena = .ok () arena := by
  unfold release
  rw [Act.run_bind_ok (EStateM.run_get _), if_pos h]
  rfl

/-- What the release of a cell between others makes of an arena. -/
structure Reclaims (arena next : Arena τ) (r : Region) (pre post : List Cell) (c : Cell) :
    Prop where
  config : next.config = arena.config
  stats : next.stats = arena.stats.reclaimed c.size
  /-- The token of the cell is given back, and no other. -/
  tracer : next.tracer =
    Tracer.dropped arena.tracer (r.headerAt arena.memory (extent r.footprint pre)).trace
  swept : r.Swept arena.memory next.memory (offsets r.footprint (pre ++ c :: post))
    (offsets r.footprint (merge r.footprint c.size pre post))
  /-- No header appears. -/
  subset : ∀ o ∈ offsets r.footprint (merge r.footprint c.size pre post),
    o ∈ offsets r.footprint (pre ++ c :: post)
  /-- The headers that stay keep their tokens. -/
  tokens : ∀ o ∈ offsets r.footprint (merge r.footprint c.size pre post),
    o ≠ extent r.footprint pre →
    (r.headerAt next.memory o).trace = (r.headerAt arena.memory o).trace

/-- **The release of a live block succeeds, and changes the cells as the release of its cell.** -/
theorem Kept.run_release {steps : Nat} (h : arena.Kept r (pre ++ c :: post) steps)
    (hc : c.allocated = true) (hsteps : steps < 2 ^ 64) :
    ∃ next, (release (r.payload (extent r.footprint pre))).run arena = .ok () next ∧
      next.Kept r (merge r.footprint c.size pre post) (steps + 1) ∧
      arena.Reclaims next r pre post c := by
  have hl := h.tidy.toLaid
  obtain ⟨-, hdescribes, -⟩ := hl.at_middle
  obtain ⟨-, -, hcovers⟩ := hl.middle_fits
  obtain ⟨hpre, hpost, -⟩ := merged_middle.mp h.tidy.merged
  have hcounts := h.counts.reclaimed hc (@used_merge r.footprint c.size pre post) live_merge
  obtain ⟨hused, hlive⟩ := h.counts.counted hc
  have hreleases : arena.stats.releases + 1 < 2 ^ 64 := by
    have hallocs := h.counts.allocs
    have hle := h.counts.allocs_le
    omega
  have hallocated : (r.headerAt arena.memory (extent r.footprint pre)).isFree = false := by
    rw [hdescribes.isFree, hc]
    rfl
  -- The arena between the two parts of the release.
  let freed : Arena τ := { arena.reclaimed r (extent r.footprint pre) with
    journal := arena.journal.push (.released (r.payload (extent r.footprint pre))
      (extent r.footprint pre) (r.headerAt arena.memory (extent r.footprint pre)).size) }
  obtain ⟨memory, journal, hmerge, hlaid, hmerged, hrearranged, hsubset⟩ :=
    @Act.run_merge τ freed r c.size pre post _
      (Arena.region_mk h.region Region.start_setHeader Region.size_setHeader) hl.reclaim hpre hpost
  rw [@offsets_congr r.footprint pre post c ⟨c.size, false⟩ rfl] at hrearranged hsubset
  have hwhole := (Region.Laid.swept_replace _).trans hrearranged.toSwept (fun _ ho => .inl ho)
    (fun _ ho _ => ho)
  have htidy : r.Tidy memory (merge r.footprint c.size pre post) :=
    ⟨hlaid, hmerged, fun o ho => h.tidy.roomy o (hsubset o ho)⟩
  have hregion : Arena.region { freed with memory, journal } = r :=
    Arena.region_mk h.region hwhole.start hwhole.size
  have hstats : freed.stats = arena.stats.reclaimed c.size := by
    rw [← hdescribes.size]
    rfl
  refine ⟨{ freed with memory, journal }, ?_, ⟨hregion, htidy, hstats ▸ hcounts⟩, rfl, hstats, rfl,
    hwhole, hsubset, ?_⟩
  · unfold release
    rw [Act.run_bind_ok (EStateM.run_get _), if_neg (not_ignored h.region hl.lies _),
      Act.run_bind_ok (Act.run_allocatedAt h.region rfl hl.middle_admits (by omega)
        hdescribes.intact hallocated)]
    dsimp only
    rw [Act.run_bind_ok (Act.run_reclaim h.region hl.middle_admits (hdescribes.size ▸ hused) hlive
      hreleases), Act.run_bind_ok (Act.run_note _), hdescribes.prev]
    refine (Act.run_bind_ok hmerge).trans ?_
    split
    · exact Act.run_verify hregion htidy.verdict_eq
    · rfl
  · intro o ho hne
    have hapart := (apart_of_mem_offsets (hsubset o ho)
      (mem_offsets_middle pre post c)).resolve_left hne
    rw [hrearranged.tokens o (hsubset o ho) ho]
    exact congrArg Header.trace (Region.headerAt_setHeader_of_apart hapart)

/-- A release makes no token. -/
theorem Reclaims.keepsTokens {next : Arena τ} (h : arena.Reclaims next r pre post c) :
    arena.KeepsTokens next r (pre ++ c :: post) (merge r.footprint c.size pre post) none := by
  intro p hp hallocated
  obtain ⟨hbefore, hne⟩ := (mem_place_merge_iff hallocated).mp hp
  exact .inl ⟨hbefore, h.tokens p.1 (mem_offsets.mpr ⟨p.2, hp⟩) hne⟩

end Arena

end FirstFit
