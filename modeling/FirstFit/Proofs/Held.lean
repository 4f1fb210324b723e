/-
Headers that say what a list of cells says.

The state of an arena is a list of cells; its memory only holds it.  `Held` is the tie
between the two: walking down the list, the header at each place has both canaries, the
cell's size and flag, and links to the neighbours.  It is split where the list is split
(`held_append`), depends only on the headers at the places (`Held.congr`), and survives a
change in front of it if the first header's back link is set (`Held.relink`); so an
operation that changes a few headers is followed by changing a few cells.

`Held.completes` gives the walk: cells that fill a region without two free ones in a row
are a sound chain.
-/
import FirstFit.Proofs.Geometry
import FirstFit.Proofs.Placement
import FirstFit.Proofs.Verdict

namespace FirstFit

/-- Where a block at the end of which an offset lies goes on: nowhere, if that is the end of
the region. -/
def Region.linkTo (r : Region) (offset : Nat) : Link :=
  if offset = r.capacity then none else some offset

/-- A header says what it should of a cell between two neighbours.  A free cell has no token. -/
structure Header.Describes (h : Header) (c : Cell) (prev next : Link) : Prop where
  leading : h.leading = leadingCanary
  trailing : h.trailing = trailingCanary
  size : h.size = c.size
  flag : h.flag = c.allocated.toNat
  prev : h.prev = prev
  next : h.next = next
  untraced : c.allocated = false → h.trace = none

namespace Header.Describes

variable {h : Header} {c : Cell} {prev next : Link}

theorem isFree (hd : h.Describes c prev next) : h.isFree = !c.allocated := by
  unfold Header.isFree
  rw [hd.flag]
  cases c.allocated <;> rfl

theorem intact (hd : h.Describes c prev next) : h.Intact := by
  refine ⟨hd.leading, hd.trailing, ?_⟩
  rw [hd.flag]
  cases c.allocated <;> simp

theorem check? (hd : h.Describes c prev next) (offset : Nat) : h.check? offset = none :=
  Header.intact_iff.mp hd.intact

end Header.Describes

namespace Cells

/-- The headers at the places of the cells describe them.  The first cell lies at an offset
and links back to `prev`. -/
def Held (r : Region) (header : Nat → Header) (prev : Link) (offset : Nat) : List Cell → Prop
  | [] => True
  | c :: rest =>
    (header offset).Describes c prev (r.linkTo (offset + r.footprint + c.size)) ∧
      Held r header (some offset) (offset + r.footprint + c.size) rest

variable {r : Region} {header header' : Nat → Header} {prev : Link} {offset : Nat}
  {cells xs ys : List Cell}

theorem held_append :
    Held r header prev offset (xs ++ ys) ↔ Held r header prev offset xs ∧
      Held r header (behind r.footprint prev offset xs) (offset + extent r.footprint xs) ys := by
  induction xs generalizing prev offset with
  | nil => simp [Held, behind]
  | cons c xs ih =>
    have hsum : offset + r.footprint + c.size + extent r.footprint xs =
        offset + (r.footprint + c.size + extent r.footprint xs) := by omega
    simp only [List.cons_append, Held, ih, behind, extent_cons, hsum, and_assoc]

theorem Held.congr (h : Held r header prev offset cells)
    (hagree : ∀ p ∈ place r.footprint offset cells, header' p.1 = header p.1) :
    Held r header' prev offset cells := by
  induction cells generalizing prev offset with
  | nil => trivial
  | cons c rest ih =>
    obtain ⟨hhead, hrest⟩ := h
    refine ⟨?_, ih hrest fun p hp => hagree p (List.mem_cons_of_mem _ hp)⟩
    rw [hagree (offset, c) List.mem_cons_self]
    exact hhead

/-- The cells behind a change are held again if the first of them links back to where the
change ends. -/
theorem Held.relink {prev' : Link} (h : Held r header prev offset cells)
    (hhead : ∀ c rest, cells = c :: rest → header' offset = { header offset with prev := prev' })
    (hrest : ∀ p ∈ place r.footprint offset cells, p.1 ≠ offset → header' p.1 = header p.1) :
    Held r header' prev' offset cells := by
  cases cells with
  | nil => trivial
  | cons c rest =>
    obtain ⟨hc, hheld⟩ := h
    refine ⟨?_, hheld.congr fun p hp => hrest p (List.mem_cons_of_mem _ hp) ?_⟩
    · rw [hhead c rest rfl]
      exact ⟨hc.leading, hc.trailing, hc.size, hc.flag, rfl, hc.next, hc.untraced⟩
    · have hpos := r.footprint_pos
      have hle := (place_bounds hp).1
      omega

/-- The header at the place of a cell describes it. -/
theorem Held.describes (h : Held r header prev offset cells) {p : Nat × Cell}
    (hp : p ∈ place r.footprint offset cells) :
    ∃ prev', (header p.1).Describes p.2 prev' (r.linkTo (p.1 + r.footprint + p.2.size)) := by
  obtain ⟨pre, post, rfl, hplace⟩ := mem_place_iff.mp hp
  obtain ⟨-, hc, -⟩ := held_append.mp h
  rw [← hplace] at hc
  exact ⟨_, hc⟩

/-- The cells as blocks, with the headers found at their places. -/
def blocks (footprint : Nat) (header : Nat → Header) (offset : Nat) (cells : List Cell) :
    List Block :=
  (place footprint offset cells).map fun p => ⟨p.1, header p.1⟩

theorem blocks_cons (footprint : Nat) (c : Cell) (rest : List Cell) :
    blocks footprint header offset (c :: rest) =
      ⟨offset, header offset⟩ :: blocks footprint header (offset + footprint + c.size) rest := rfl

/-- No two free cells follow each other. -/
def Merged (cells : List Cell) : Prop :=
  cells.IsChain fun a b => a.allocated = true ∨ b.allocated = true

/-- Around an allocated cell anything may stand, around a free one only allocated cells. -/
theorem merged_middle {c : Cell} :
    Merged (xs ++ c :: ys) ↔ Merged xs ∧ Merged ys ∧ (c.allocated = true ∨
      (∀ a ∈ xs.getLast?, a.allocated = true) ∧ ∀ b ∈ ys.head?, b.allocated = true) := by
  unfold Merged
  rw [List.isChain_append, List.isChain_cons, List.head?_cons]
  by_cases hc : c.allocated = true
  · simp [hc]
  · simp only [Option.mem_some_iff, forall_eq', hc, Bool.false_eq_true, false_or, or_false]
    tauto

/-- Held cells that fill a region are what a walk completes. -/
theorem Held.completes {before : Option Block} (usable : r.Usable)
    (h : Held r header (before.map Block.offset) offset cells) (hne : cells ≠ [])
    (hcovers : offset + extent r.footprint cells = r.capacity) (hoffset : r.unit.bytes ∣ offset)
    (hsize : ∀ c ∈ cells, r.unit.bytes ∣ c.size) (hmerged : Merged cells)
    (hjoin : ∀ a ∈ before, ∀ c ∈ cells.head?, a.isFree = true → c.allocated = true) :
    r.Completes header before offset (blocks r.footprint header offset cells) := by
  induction cells generalizing before offset with
  | nil => exact absurd rfl hne
  | cons c rest ih =>
    obtain ⟨hc, hrest⟩ := h
    rw [extent_cons] at hcovers
    have hadmits : r.Admits offset := by
      unfold Region.Usable at usable
      exact ⟨Nat.mod_eq_zero_of_dvd hoffset, by omega⟩
    have hstop : r.stop ⟨offset, header offset⟩ = offset + r.footprint + c.size := by
      show offset + r.footprint + (header offset).size = _
      rw [hc.size]
    have hjoins : Block.Joins ⟨offset, header offset⟩ before := by
      cases before with
      | none => exact hc.prev
      | some a =>
        refine ⟨hc.prev, ?_⟩
        intro hboth
        obtain ⟨ha, hb⟩ := hboth
        have hallocated := hjoin a rfl c rfl ha
        have hfree : (header offset).isFree = true := hb
        rw [hc.isFree, hallocated] at hfree
        simp at hfree
    have htiles : r.Tiles ⟨offset, header offset⟩ := by
      unfold Region.Tiles
      rw [hstop]
      show (header offset).next = _ ∨ (header offset).next = none ∧ _
      rw [hc.next]
      unfold Region.linkTo
      split
      · next heq => exact .inr ⟨rfl, heq⟩
      · exact .inl rfl
    have hclean := Region.clean_iff_intact.mpr ⟨hadmits, hc.intact, hjoins, htiles⟩
    rw [blocks_cons]
    cases rest with
    | nil =>
      refine .last hclean ?_
      rw [hc.next]
      exact if_pos (by simpa [Nat.add_assoc] using hcovers)
    | cons d rest =>
      have hpos := r.footprint_pos
      have hlink : (header offset).next = some (offset + r.footprint + c.size) := by
        rw [hc.next]
        refine if_neg ?_
        rw [extent_cons] at hcovers
        omega
      have hneighbours := List.isChain_cons_cons.mp hmerged
      refine .more hclean hlink (@ih _ (some ⟨offset, header offset⟩) hrest (by simp)
        (by omega) ?_ (fun x hx => hsize x (List.mem_cons_of_mem _ hx)) hneighbours.2 ?_)
      · exact Nat.dvd_add (Nat.dvd_add hoffset r.dvd_footprint) (hsize c List.mem_cons_self)
      · intro a ha x hx hfree
        rw [Option.mem_some_iff] at ha
        subst ha
        rw [List.head?_cons, Option.mem_some_iff] at hx
        subst hx
        have hcfree : (header offset).isFree = true := hfree
        rw [hc.isFree] at hcfree
        rcases hneighbours.1 with h | h
        · simp [h] at hcfree
        · exact h

end Cells

end FirstFit
