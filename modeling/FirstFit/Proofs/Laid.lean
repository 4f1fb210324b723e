/-
Memories that hold a list of cells.

`Laid` is the invariant that holds between any two of the small steps an operation
consists of: the cells fill the region, and the headers at their places describe them.
Each change of the memory is matched by a change of the list: writing one header over
replaces a cell (`Laid.replace`), `absorb` joins two cells that follow each other, and
`cut` divides one.

Between operations more is true, and `Tidy` says it: no two free cells follow each other,
and behind every header is room for a unit.  Then the cells are the chain that a walk meets.
-/
import Mathlib.Data.List.TakeWhile
import FirstFit.Proofs.Held
import FirstFit.Proofs.Surgery

namespace FirstFit

namespace Cells

/-- The offsets of the headers of the cells. -/
def offsets (footprint : Nat) (cells : List Cell) : List Nat :=
  (place footprint 0 cells).map Prod.fst

theorem mem_offsets {footprint o : Nat} {cells : List Cell} :
    o ∈ offsets footprint cells ↔ ∃ c, (o, c) ∈ place footprint 0 cells := by
  simp [offsets]

theorem mem_offsets_middle {footprint : Nat} (pre post : List Cell) (c : Cell) :
    extent footprint pre ∈ offsets footprint (pre ++ c :: post) :=
  mem_offsets.mpr ⟨c, mem_place_iff.mpr ⟨pre, post, rfl, by simp⟩⟩

/-- Only the sizes count. -/
theorem offsets_congr {footprint : Nat} {pre post : List Cell} {c c' : Cell}
    (h : c'.size = c.size) :
    offsets footprint (pre ++ c' :: post) = offsets footprint (pre ++ c :: post) := by
  simp [offsets, place_append, h]

/-- Two cells in place of one have one more header, where the first of them ends. -/
theorem mem_offsets_two {footprint o : Nat} {pre post : List Cell} {a v w : Cell}
    (h : w.size = a.size + footprint + v.size) :
    o ∈ offsets footprint (pre ++ a :: v :: post) ↔
      o ∈ offsets footprint (pre ++ w :: post) ∨ o = extent footprint pre + footprint + a.size := by
  have hstop : extent footprint pre + footprint + w.size =
      extent footprint pre + footprint + a.size + footprint + v.size := by omega
  simp only [offsets, place_append, place_cons, List.map_append, List.map_cons, List.mem_append,
    List.mem_cons, Nat.zero_add, hstop]
  tauto

/-- Two headers of the cells are one, or do not share a byte. -/
theorem apart_of_mem_offsets {r : Region} {cells : List Cell} {o o' : Nat}
    (ho : o ∈ offsets r.footprint cells) (ho' : o' ∈ offsets r.footprint cells) :
    o = o' ∨ r.Apart o o' := by
  obtain ⟨c, hc⟩ := mem_offsets.mp ho
  obtain ⟨c', hc'⟩ := mem_offsets.mp ho'
  rcases place_apart hc hc' with heq | hbefore | hbehind
  · exact .inl (Prod.mk.inj heq).1
  · simp only at hbefore
    exact .inr (.inl (by omega))
  · simp only at hbehind
    exact .inr (.inr (by omega))

theorem place_unique {r : Region} {cells : List Cell} {p q : Nat × Cell}
    (hp : p ∈ place r.footprint 0 cells) (hq : q ∈ place r.footprint 0 cells) (h : p.1 = q.1) :
    p = q := by
  have hpos := r.footprint_pos
  rcases place_apart hp hq with heq | hbefore | hbehind
  · exact heq
  · omega
  · omega

/-- No header starts behind the start of a cell and before its end. -/
theorem not_mem_offsets_inside {footprint o : Nat} {cells : List Cell} {p : Nat × Cell}
    (hp : p ∈ place footprint 0 cells) (hlow : p.1 < o) (hhigh : o < p.1 + footprint + p.2.size) :
    o ∉ offsets footprint cells := by
  intro ho
  obtain ⟨c, hc⟩ := mem_offsets.mp ho
  rcases place_apart hc hp with heq | hbefore | hbehind
  · have hsame := congrArg Prod.fst heq
    simp only at hsame
    omega
  · simp only at hbefore
    omega
  · simp only at hbehind
    omega

end Cells

/-- The cells fill the region, and the memory has a header for each of them. -/
structure Region.Laid (r : Region) (m : Memory) (cells : List Cell) : Prop where
  lies : r.Lies m
  covers : Cells.extent r.footprint cells = r.capacity
  aligned : ∀ c ∈ cells, r.unit.bytes ∣ c.size
  held : Cells.Held r (r.headerAt m) none 0 cells

namespace Region.Laid

open Cells

variable {r : Region} {m m' : Memory} {cells pre post xs ys : List Cell} {a c v : Cell}

theorem ne_nil (h : r.Laid m cells) : cells ≠ [] := by
  intro heq
  subst heq
  have husable := h.lies.usable
  have hcovers := h.covers
  have hpos := r.footprint_pos
  unfold Usable at husable
  rw [extent_nil] at hcovers
  omega

/-- Cells have room for their header and payload inside the region, at aligned offsets. -/
theorem place_fits (h : r.Laid m cells) {p : Nat × Cell} (hp : p ∈ place r.footprint 0 cells) :
    r.unit.bytes ∣ p.1 ∧ p.1 + r.footprint + p.2.size ≤ r.capacity := by
  have hbounds := (place_bounds hp).2
  rw [h.covers] at hbounds
  exact ⟨place_dvd r.dvd_footprint (Nat.dvd_zero _) h.aligned hp, by omega⟩

theorem room_of_mem_offsets (h : r.Laid m cells) {o : Nat} (ho : o ∈ offsets r.footprint cells) :
    o + r.footprint ≤ r.capacity := by
  obtain ⟨c, hc⟩ := mem_offsets.mp ho
  have hfits := (h.place_fits hc).2
  simp only at hfits
  omega

/-- What is known of a cell in the middle: where it lies, what its header says, and that what
is around it is held. -/
theorem at_middle (h : r.Laid m (pre ++ c :: post)) :
    Held r (r.headerAt m) none 0 pre ∧
      (r.headerAt m (extent r.footprint pre)).Describes c (behind r.footprint none 0 pre)
        (r.linkTo (extent r.footprint pre + r.footprint + c.size)) ∧
      Held r (r.headerAt m) (some (extent r.footprint pre))
        (extent r.footprint pre + r.footprint + c.size) post := by
  obtain ⟨hpre, hc, hpost⟩ := held_append.mp h.held
  simp only [Nat.zero_add] at hc hpost
  exact ⟨hpre, hc, hpost⟩

theorem middle_fits (h : r.Laid m (pre ++ c :: post)) :
    r.unit.bytes ∣ extent r.footprint pre ∧ r.unit.bytes ∣ c.size ∧
      extent r.footprint pre + r.footprint + c.size + extent r.footprint post = r.capacity := by
  have hp : (extent r.footprint pre, c) ∈ place r.footprint 0 (pre ++ c :: post) :=
    mem_place_iff.mpr ⟨pre, post, rfl, by simp⟩
  have hcovers := h.covers
  rw [extent_append, extent_cons] at hcovers
  exact ⟨(h.place_fits hp).1, h.aligned c (by simp), by omega⟩

theorem middle_admits (h : r.Laid m (pre ++ c :: post)) : r.Admits (extent r.footprint pre) := by
  obtain ⟨hdvd, -, hcovers⟩ := h.middle_fits
  exact h.lies.admits_iff.mpr ⟨hdvd, by omega⟩

theorem linkTo_next (h : r.Laid m (pre ++ c :: v :: post)) :
    r.linkTo (extent r.footprint pre + r.footprint + c.size) =
      some (extent r.footprint (pre ++ [c])) := by
  obtain ⟨-, -, hcovers⟩ := h.middle_fits
  have hpos := r.footprint_pos
  rw [extent_cons] at hcovers
  unfold linkTo
  rw [if_neg (by omega), extent_concat]

theorem linkTo_last (h : r.Laid m (pre ++ [c])) :
    r.linkTo (extent r.footprint pre + r.footprint + c.size) = none := by
  obtain ⟨-, -, hcovers⟩ := h.middle_fits
  rw [extent_nil] at hcovers
  exact if_pos hcovers

theorem of_linkTo {o n : Nat} (h : r.linkTo o = some n) : n = o ∧ o ≠ r.capacity := by
  unfold linkTo at h
  split at h
  · simp at h
  · next hne =>
    rw [Option.some.injEq] at h
    exact ⟨h.symm, hne⟩

/-! ### One header -/

/-- Other cells in place of some that take up as much: in front nothing changes, and from
there on the new cells are held. -/
theorem splice (hl : r.Laid m (pre ++ (xs ++ post))) (hstart : m'.start = m.start)
    (hsize : m'.size = m.size) (hextent : extent r.footprint ys = extent r.footprint xs)
    (haligned : ∀ c ∈ ys, r.unit.bytes ∣ c.size)
    (hpre : ∀ p ∈ place r.footprint 0 pre, r.headerAt m' p.1 = r.headerAt m p.1)
    (hheld : Held r (r.headerAt m') (behind r.footprint none 0 pre) (extent r.footprint pre)
      (ys ++ post)) :
    r.Laid m' (pre ++ (ys ++ post)) := by
  refine ⟨hl.lies.congr hstart hsize, ?_, ?_, ?_⟩
  · have hcovers := hl.covers
    rw [extent_append, extent_append] at hcovers ⊢
    rw [hextent, hcovers]
  · intro c hc
    rcases List.mem_append.mp hc with hmem | hmem
    · exact hl.aligned c (List.mem_append_left _ hmem)
    · rcases List.mem_append.mp hmem with hmem | hmem
      · exact haligned c hmem
      · exact hl.aligned c (List.mem_append_right _ (List.mem_append_right _ hmem))
  · refine held_append.mpr ⟨(held_append.mp hl.held).1.congr hpre, ?_⟩
    rw [Nat.zero_add]
    exact hheld

/-- Another header at the place of a cell makes another cell of it. -/
theorem replace (hl : r.Laid m (pre ++ c :: post)) {c' : Cell} {h : Header} (fits : h.Fits)
    (hsize : c'.size = c.size)
    (hd : h.Describes c' (r.headerAt m (extent r.footprint pre)).prev
      (r.headerAt m (extent r.footprint pre)).next) :
    r.Laid (r.setHeader m (extent r.footprint pre) h) (pre ++ c' :: post) := by
  obtain ⟨-, hc, hpost⟩ := hl.at_middle
  obtain ⟨-, hdvd, hcovers⟩ := hl.middle_fits
  rw [hc.prev, hc.next] at hd
  refine @splice r m _ pre post [c] [c'] hl (by simp) (by simp) (by simp [hsize]) ?_
    (fun p hp => ?_) ⟨?_, ?_⟩
  · intro d hmem
    rw [List.mem_singleton.mp hmem, hsize]
    exact hdvd
  · have hbounds := (place_bounds hp).2
    exact headerAt_setHeader_of_apart (.inl (by omega))
  · rw [headerAt_setHeader hl.lies (by omega) fits, hsize]
    exact hd
  · rw [hsize]
    refine hpost.congr fun p hp => headerAt_setHeader_of_apart (.inr ?_)
    have hbounds := (place_bounds hp).1
    omega

theorem swept_replace (h : Header) :
    r.Swept m (r.setHeader m (extent r.footprint pre) h)
      (offsets r.footprint (pre ++ c :: post)) (offsets r.footprint (pre ++ c :: post)) := by
  refine swept_of_kept (by simp) (by simp) (fun _ ho => ho) fun a hout => ?_
  exact byteAt_setHeader_of_not_inWords (hout _ (mem_offsets_middle pre post c))

/-! ### Two cells become one -/

/-- The header at the end of a block links nowhere else than to the cells behind it. -/
theorem of_mem_linkTo {o n : Nat} (hn : n ∈ r.linkTo o)
    (hpost : o + extent r.footprint post = r.capacity) : n = o ∧ ∃ d rest, post = d :: rest := by
  obtain ⟨rfl, hne⟩ := of_linkTo hn
  refine ⟨rfl, ?_⟩
  cases post with
  | nil =>
    rw [extent_nil] at hpost
    omega
  | cons d rest => exact ⟨d, rest, rfl⟩

theorem admits_of_mem_linkTo (hl : r.Laid m (pre ++ c :: post)) :
    ∀ n ∈ r.linkTo (extent r.footprint pre + r.footprint + c.size), r.Admits n := by
  intro n hn
  obtain ⟨rfl, d, rest, rfl⟩ := of_mem_linkTo hn hl.middle_fits.2.2
  rw [List.append_cons] at hl
  have hadmits := hl.middle_admits
  rw [extent_concat] at hadmits
  exact hadmits

/-- Where the link behind a cell leads there is the header of another one. -/
theorem mem_offsets_of_mem_linkTo (hl : r.Laid m (pre ++ c :: post)) :
    ∀ n ∈ r.linkTo (extent r.footprint pre + r.footprint + c.size),
      n ∈ offsets r.footprint (pre ++ c :: post) := by
  intro n hn
  obtain ⟨rfl, d, rest, rfl⟩ := of_mem_linkTo hn hl.middle_fits.2.2
  refine mem_offsets.mpr ⟨d, mem_place_iff.mpr ⟨pre ++ [c], rest, by simp, ?_⟩⟩
  rw [extent_concat, Nat.zero_add]

theorem absorb (hl : r.Laid m (pre ++ a :: v :: post)) :
    r.Laid (r.absorb m (extent r.footprint pre) (extent r.footprint pre + r.footprint + a.size))
      (pre ++ ⟨a.size + r.footprint + v.size, a.allocated⟩ :: post) := by
  obtain ⟨hpre, ha, hv, hpost⟩ := hl.at_middle
  obtain ⟨hdvd, hadvd, hcovers⟩ := hl.middle_fits
  rw [extent_cons] at hcovers
  have hvdvd := hl.aligned v (by simp)
  have hpos := r.footprint_pos
  have hcapacity := hl.lies.capacity_lt
  set i := extent r.footprint pre with hi
  set j := i + r.footprint + a.size with hj
  have hnext : (r.headerAt m j).next = r.linkTo (j + r.footprint + v.size) := hv.next
  have hlink : ∀ n ∈ (r.headerAt m j).next,
      n = j + r.footprint + v.size ∧ ∃ d rest, post = d :: rest := by
    intro n hn
    rw [hnext] at hn
    exact of_mem_linkTo hn (by omega)
  have hinto := @headerAt_absorb_into r m i j hl.lies (by omega)
    (by rw [ha.size, hv.size]; omega) (.inl (by omega))
    (fun n hn => .inl (by have := (hlink n hn).1; omega))
  refine @splice r m _ pre post [a, v] [_] hl (by simp) (by simp) ?_ ?_ (fun p hp => ?_) ⟨?_, ?_⟩
  · simp only [extent_cons, extent_nil]
    omega
  · intro d hmem
    rw [List.mem_singleton.mp hmem]
    exact Nat.dvd_add (Nat.dvd_add hadvd r.dvd_footprint) hvdvd
  · have hbounds := (place_bounds hp).2
    refine headerAt_absorb_of_apart (.inl (by omega)) (.inl (by omega)) fun n hn => .inl ?_
    have := (hlink n hn).1
    omega
  · rw [hinto]
    refine ⟨ha.leading, ha.trailing, ?_, ha.flag, ha.prev, ?_, ha.untraced⟩
    · show (r.headerAt m i).size + (r.footprint + (r.headerAt m j).size) = _
      rw [ha.size, hv.size]
      show _ = a.size + r.footprint + v.size
      omega
    · show (r.headerAt m j).next = r.linkTo (i + r.footprint + (a.size + r.footprint + v.size))
      rw [hnext]
      congr 1
      omega
  · show Held _ _ (some i) (i + r.footprint + (a.size + r.footprint + v.size)) post
    have hstop : i + r.footprint + (a.size + r.footprint + v.size) = j + r.footprint + v.size := by
      omega
    rw [hstop]
    refine hpost.relink (fun d rest hd => ?_) fun p hp hne => ?_
    · have hsome : (r.headerAt m j).next = some (j + r.footprint + v.size) := by
        rw [hnext]
        refine if_neg ?_
        rw [hd, extent_cons] at hcovers
        omega
      rw [hd, extent_cons] at hcovers
      exact headerAt_absorb_next hl.lies hsome (by omega) (by unfold Link.nil; omega)
        (.inr (by omega)) (.inr (by omega))
    · have hbounds := (place_bounds hp).1
      refine headerAt_absorb_of_apart (.inr (by omega)) (.inr (by omega)) fun n hn => ?_
      obtain ⟨rfl, d, rest, rfl⟩ := hlink n hn
      rw [place_cons, List.mem_cons] at hp
      rcases hp with rfl | hp
      · exact absurd rfl hne
      · have := (place_bounds hp).1
        exact .inr (by omega)

theorem rearranged_absorb (hl : r.Laid m (pre ++ a :: v :: post)) :
    r.Rearranged m
      (r.absorb m (extent r.footprint pre) (extent r.footprint pre + r.footprint + a.size))
      (offsets r.footprint (pre ++ a :: v :: post))
      (offsets r.footprint (pre ++ ⟨a.size + r.footprint + v.size, a.allocated⟩ :: post)) := by
  obtain ⟨-, ha, hv, -⟩ := hl.at_middle
  obtain ⟨-, -, hcovers⟩ := hl.middle_fits
  rw [extent_cons] at hcovers
  have hpos := r.footprint_pos
  have hcapacity := hl.lies.capacity_lt
  have hlink := hl.absorb.mem_offsets_of_mem_linkTo
  set i := extent r.footprint pre with hi
  set j := i + r.footprint + a.size with hj
  set after := pre ++ ⟨a.size + r.footprint + v.size, a.allocated⟩ :: post with hafter
  -- The offsets are the same but for that of the victim.
  have hold : ∀ o, o ∈ offsets r.footprint (pre ++ a :: v :: post) ↔
      o ∈ offsets r.footprint after ∨ o = j := fun _ => mem_offsets_two rfl
  have hgrown : (i, ⟨a.size + r.footprint + v.size, a.allocated⟩) ∈ place r.footprint 0 after :=
    mem_place_iff.mpr ⟨pre, post, rfl, by simp [hi]⟩
  have hinto : i ∈ offsets r.footprint after := mem_offsets_middle pre post _
  have hvictim : j ∉ offsets r.footprint after :=
    not_mem_offsets_inside hgrown (by show i < j; omega)
      (by show j < i + r.footprint + (a.size + r.footprint + v.size); omega)
  have hnext : ∀ n ∈ (r.headerAt m j).next, n ∈ offsets r.footprint after := by
    intro n hn
    refine hlink n ?_
    rw [hv.next] at hn
    convert hn using 2
    show i + r.footprint + (a.size + r.footprint + v.size) = _
    omega
  refine ⟨⟨by simp, by simp, ?_, ?_⟩, ?_⟩
  · intro x _ hgone
    obtain ⟨o, ho, hnot, hin⟩ := hgone
    rcases (hold o).mp ho with hnew | rfl
    · exact absurd hnew hnot
    · exact byteAt_absorb_victim hin
  · intro x hwords hkept
    exact byteAt_absorb (hwords i hinto) (fun n hn => hwords n (hnext n hn))
      (hkept j ((hold j).mpr (.inr rfl)) hvictim)
  · intro o ho hnew
    have hne : o ≠ j := fun heq => hvictim (heq ▸ hnew)
    refine trace_absorb hl.lies (hl.absorb.room_of_mem_offsets hinto) ?_
      (apart_of_mem_offsets hnew hinto)
      ((apart_of_mem_offsets ho ((hold j).mpr (.inr rfl))).resolve_left hne) ?_
    · rw [ha.size, hv.size]
      omega
    · intro n hn
      exact ⟨hl.absorb.room_of_mem_offsets (hnext n hn), apart_of_mem_offsets hnew (hnext n hn)⟩

/-! ### One cell becomes two -/

theorem cut (hl : r.Laid m (pre ++ c :: post)) {length : Nat} (hdvd : r.unit.bytes ∣ length)
    (hle : length + r.footprint ≤ c.size) :
    r.Laid
      (r.cut m ⟨extent r.footprint pre, r.headerAt m (extent r.footprint pre)⟩ length)
      (pre ++ ⟨length, c.allocated⟩ :: ⟨c.size - length - r.footprint, false⟩ :: post) := by
  obtain ⟨hpre, hc, hpost⟩ := hl.at_middle
  obtain ⟨-, hcdvd, hcovers⟩ := hl.middle_fits
  have hpos := r.footprint_pos
  have hcapacity := hl.lies.capacity_lt
  set i := extent r.footprint pre with hi
  set b : Block := ⟨i, r.headerAt m i⟩ with hb
  set k := i + r.footprint + length with hk
  have hsize : b.size = c.size := hc.size
  have hnext : b.header.next = r.linkTo (i + r.footprint + c.size) := hc.next
  have hlink : ∀ n ∈ b.header.next,
      n = i + r.footprint + c.size ∧ ∃ d rest, post = d :: rest := by
    intro n hn
    rw [hnext] at hn
    exact of_mem_linkTo hn hcovers
  have hblock := @headerAt_cut_block r m b length hl.lies (by show k + _ ≤ _; omega)
    (fun n hn => .inl (by have := (hlink n hn).1; show i + _ ≤ _; omega))
  have hrest := @headerAt_cut_rest r m b length hl.lies (by omega) (by show k + _ ≤ _; omega)
    fits_headerAt.next
    (fun n hn => .inl (by have := (hlink n hn).1; show k + _ ≤ _; omega))
  refine @splice r m _ pre post [c] [_, _] hl (by simp) (by simp) ?_ ?_ (fun p hp => ?_)
    ⟨?_, ?_, ?_⟩
  · simp only [extent_cons, extent_nil]
    omega
  · intro d hmem
    rcases List.mem_cons.mp hmem with rfl | hmem
    · exact hdvd
    · rw [List.mem_singleton.mp hmem]
      exact Nat.dvd_sub (Nat.dvd_sub hcdvd hdvd) r.dvd_footprint
  · have hbounds := (place_bounds hp).2
    refine headerAt_cut_of_apart (.inl (by show _ ≤ i; omega)) (.inl (by show _ ≤ k; omega))
      fun n hn => .inl ?_
    have := (hlink n hn).1
    omega
  · show (r.headerAt (r.cut m b length) b.offset).Describes _ _ _
    rw [hblock]
    refine ⟨hc.leading, hc.trailing, rfl, hc.flag, hc.prev, ?_, hc.untraced⟩
    exact (if_neg (by show ¬ i + r.footprint + length = _; omega)).symm
  · show (r.headerAt (r.cut m b length) (b.offset + r.footprint + length)).Describes _ _ _
    rw [hrest]
    refine ⟨rfl, rfl, ?_, rfl, rfl, ?_, fun _ => rfl⟩
    · show b.size - length - r.footprint = _
      rw [hsize]
    · show b.header.next = r.linkTo
        (i + r.footprint + length + r.footprint + (c.size - length - r.footprint))
      rw [hnext]
      congr 1
      omega
  · show Held _ _ (some k) (k + r.footprint + (c.size - length - r.footprint)) post
    have hstop : k + r.footprint + (c.size - length - r.footprint) = i + r.footprint + c.size := by
      omega
    rw [hstop]
    refine hpost.relink (fun d rest hd => ?_) fun p hp hne => ?_
    · have hsome : b.header.next = some (i + r.footprint + c.size) := by
        rw [hnext]
        refine if_neg ?_
        rw [hd, extent_cons] at hcovers
        omega
      rw [hd, extent_cons] at hcovers
      exact headerAt_cut_next hl.lies hsome (by omega) (by show k < _; unfold Link.nil; omega)
        (.inr (by show i + _ ≤ _; omega)) (.inr (by show k + _ ≤ _; omega))
    · have hbounds := (place_bounds hp).1
      refine headerAt_cut_of_apart (.inr (by show i + _ ≤ _; omega))
        (.inr (by show k + _ ≤ _; omega)) fun n hn => ?_
      obtain ⟨rfl, d, rest, rfl⟩ := hlink n hn
      rw [place_cons, List.mem_cons] at hp
      rcases hp with rfl | hp
      · exact absurd rfl hne
      · have := (place_bounds hp).1
        exact .inr (by omega)

theorem rearranged_cut (hl : r.Laid m (pre ++ c :: post)) {length : Nat}
    (hle : length + r.footprint ≤ c.size) :
    r.Rearranged m (r.cut m ⟨extent r.footprint pre, r.headerAt m (extent r.footprint pre)⟩ length)
      (offsets r.footprint (pre ++ c :: post))
      (offsets r.footprint
        (pre ++ ⟨length, c.allocated⟩ :: ⟨c.size - length - r.footprint, false⟩ :: post)) := by
  obtain ⟨-, hc, -⟩ := hl.at_middle
  obtain ⟨-, -, hcovers⟩ := hl.middle_fits
  have hpos := r.footprint_pos
  have hlink := hl.mem_offsets_of_mem_linkTo
  rw [← hc.next] at hlink
  set i := extent r.footprint pre with hi
  set k := i + r.footprint + length with hk
  -- The offsets are the same but for that of the rest.
  have hnew : ∀ o, o ∈ offsets r.footprint
      (pre ++ ⟨length, c.allocated⟩ :: ⟨c.size - length - r.footprint, false⟩ :: post) ↔
      o ∈ offsets r.footprint (pre ++ c :: post) ∨ o = k :=
    fun _ => mem_offsets_two (show c.size = length + _ + (c.size - length - _) by omega)
  have hcell : (i, c) ∈ place r.footprint 0 (pre ++ c :: post) :=
    mem_place_iff.mpr ⟨pre, post, rfl, by simp [hi]⟩
  have hblock : i ∈ offsets r.footprint (pre ++ c :: post) := mem_offsets_middle pre post c
  have hrest : k ∉ offsets r.footprint (pre ++ c :: post) :=
    not_mem_offsets_inside hcell (by show i < k; omega)
      (by show k < i + r.footprint + c.size; omega)
  have hsubset : ∀ o ∈ offsets r.footprint (pre ++ c :: post), o ∈ offsets r.footprint
      (pre ++ ⟨length, c.allocated⟩ :: ⟨c.size - length - r.footprint, false⟩ :: post) :=
    fun o ho => (hnew o).mpr (.inl ho)
  refine ⟨swept_of_kept (by simp) (by simp) hsubset ?_, ?_⟩
  · intro x hout
    exact byteAt_cut (hout i (hsubset i hblock)) (hout k ((hnew k).mpr (.inr rfl)))
      fun n hn => hout n (hsubset n (hlink n hn))
  · intro o ho ho'
    have hne : o ≠ k := fun heq => hrest (heq ▸ ho)
    refine trace_cut hl.lies (by show k + r.footprint ≤ _; omega)
      (apart_of_mem_offsets ho hblock)
      ((apart_of_mem_offsets ho' ((hnew k).mpr (.inr rfl))).resolve_left hne) ?_
    intro n hn
    exact ⟨hl.room_of_mem_offsets (hlink n hn), apart_of_mem_offsets ho (hlink n hn)⟩

/-! ### No header -/

theorem congr (hl : r.Laid m cells) (hstart : m'.start = m.start) (hsize : m'.size = m.size)
    (hagree : ∀ o ∈ offsets r.footprint cells, r.headerAt m' o = r.headerAt m o) :
    r.Laid m' cells :=
  ⟨hl.lies.congr hstart hsize, hl.covers, hl.aligned,
    hl.held.congr fun p hp => hagree p.1 (mem_offsets.mpr ⟨p.2, hp⟩)⟩

/-- No header reaches into a payload. -/
theorem not_inFootprint {p : Nat × Cell} {o x : Nat} (hp : p ∈ place r.footprint 0 cells)
    (ho : o ∈ offsets r.footprint cells) (hlow : r.payload p.1 ≤ x)
    (hhigh : x < r.payload p.1 + p.2.size) : ¬ r.InFootprint o x := by
  obtain ⟨c, hc⟩ := mem_offsets.mp ho
  unfold payload at hlow hhigh
  unfold InFootprint
  rcases place_apart hp hc with rfl | hbefore | hbehind
  · omega
  · simp only at hbefore
    omega
  · simp only at hbehind
    omega

end Region.Laid

/-! ### Between operations -/

/-- The cells are laid out, and nothing is left that a release should have merged or an
allocation should not have cut off. -/
structure Region.Tidy (r : Region) (m : Memory) (cells : List Cell) : Prop
    extends r.Laid m cells where
  merged : Cells.Merged cells
  /-- Behind each header is room for a unit, so no payload starts at the end of the region. -/
  roomy : ∀ o ∈ Cells.offsets r.footprint cells, o + r.footprint + r.unit.bytes ≤ r.capacity

namespace Region.Tidy

variable {r : Region} {m : Memory} {cells : List Cell}

theorem chain (h : r.Tidy m cells) :
    Chain r (r.headerAt m) (Cells.blocks r.footprint (r.headerAt m) 0 cells) := by
  refine Region.completes_iff_chain.mp ?_
  refine @Cells.Held.completes r (r.headerAt m) 0 cells none h.lies.usable h.held
    h.toLaid.ne_nil ?_ (Nat.dvd_zero _) h.aligned h.merged (by simp)
  rw [Nat.zero_add, h.covers]

theorem walk_eq (h : r.Tidy m cells) :
    Walk.through r m = ⟨Cells.blocks r.footprint (r.headerAt m) 0 cells, none⟩ := by
  unfold Walk.through
  rw [if_pos h.lies.usable]
  exact h.chain.follow_eq.1

theorem verdict_eq (h : r.Tidy m cells) : (Walk.through r m).verdict = .ok () := by
  rw [h.walk_eq, Walk.verdict, h.chain.follow_eq.2]
  rfl

/-- The walk stops at no header, so the blocks are all of the cells. -/
theorem sound_eq (h : r.Tidy m cells) :
    (Walk.through r m).sound = Cells.blocks r.footprint (r.headerAt m) 0 cells := by
  rw [h.walk_eq, Walk.sound, List.takeWhile_eq_self_iff]
  intro b hb
  have hcheck : b.header.check? b.offset = none := Header.intact_iff.mp (h.chain.intact b hb)
  show (b.header.check? b.offset).isNone = true
  rw [hcheck]
  rfl

end Region.Tidy

end FirstFit
