/-
Where cells lie.

The place of a cell is the sum of what is before it, so a list that is changed in the
middle keeps the places of all cells in front, and those behind too if the changed part
takes up as much as it did.  `mem_place_iff` turns a place into a way to cut the list in
two, and `place_apart` keeps the places of different cells a whole cell apart.
-/
import FirstFit.Cells

namespace FirstFit.Cells

variable {footprint offset : Nat}

@[simp] theorem extent_nil : extent footprint [] = 0 := rfl

@[simp] theorem extent_cons (c : Cell) (cells : List Cell) :
    extent footprint (c :: cells) = footprint + c.size + extent footprint cells := by
  simp [extent]

@[simp] theorem extent_append (xs ys : List Cell) :
    extent footprint (xs ++ ys) = extent footprint xs + extent footprint ys := by
  simp [extent]

theorem extent_concat (xs : List Cell) (c : Cell) :
    extent footprint (xs ++ [c]) = extent footprint xs + footprint + c.size := by
  rw [extent_append, extent_cons, extent_nil, Nat.add_zero, Nat.add_assoc]

@[simp] theorem place_nil : place footprint offset [] = [] := rfl

@[simp] theorem place_cons (c : Cell) (cells : List Cell) :
    place footprint offset (c :: cells) =
      (offset, c) :: place footprint (offset + footprint + c.size) cells := rfl

theorem place_append (xs ys : List Cell) :
    place footprint offset (xs ++ ys) =
      place footprint offset xs ++ place footprint (offset + extent footprint xs) ys := by
  induction xs generalizing offset with
  | nil => simp
  | cons c xs ih =>
    have hsum : offset + footprint + c.size + extent footprint xs =
        offset + (footprint + c.size + extent footprint xs) := by omega
    simp only [List.cons_append, place_cons, ih, extent_cons, hsum]

/-- A cell is placed where the cells before it end. -/
theorem mem_place_iff {cells : List Cell} {p : Nat × Cell} :
    p ∈ place footprint offset cells ↔
      ∃ pre post, cells = pre ++ p.2 :: post ∧ p.1 = offset + extent footprint pre := by
  constructor
  · intro h
    induction cells generalizing offset with
    | nil => simp at h
    | cons c rest ih =>
      rw [place_cons, List.mem_cons] at h
      rcases h with rfl | h
      · exact ⟨[], rest, rfl, by simp⟩
      · obtain ⟨pre, post, hcells, hplace⟩ := ih h
        refine ⟨c :: pre, post, by rw [hcells, List.cons_append], ?_⟩
        rw [hplace, extent_cons]
        omega
  · intro hsplit
    obtain ⟨pre, post, rfl, hplace⟩ := hsplit
    rw [place_append, ← hplace]
    simp

theorem mem_of_mem_place {cells : List Cell} {p : Nat × Cell}
    (h : p ∈ place footprint offset cells) : p.2 ∈ cells := by
  obtain ⟨pre, post, rfl, -⟩ := mem_place_iff.mp h
  simp

theorem mem_place_append_cons {pre post : List Cell} {c : Cell} {p : Nat × Cell} :
    p ∈ place footprint 0 (pre ++ c :: post) ↔
      p ∈ place footprint 0 pre ∨ p = (extent footprint pre, c) ∨
        p ∈ place footprint (extent footprint pre + footprint + c.size) post := by
  rw [place_append, place_cons, Nat.zero_add, List.mem_append, List.mem_cons]

/-- A placed cell is no further in front than the first, and ends no further behind than the
last. -/
theorem place_bounds {cells : List Cell} {p : Nat × Cell} (h : p ∈ place footprint offset cells) :
    offset ≤ p.1 ∧ p.1 + footprint + p.2.size ≤ offset + extent footprint cells := by
  obtain ⟨pre, post, rfl, hplace⟩ := mem_place_iff.mp h
  rw [extent_append, extent_cons, hplace]
  omega

/-- Of two cells at different places, one ends before the other starts. -/
theorem place_apart {cells : List Cell} {p q : Nat × Cell} (hp : p ∈ place footprint offset cells)
    (hq : q ∈ place footprint offset cells) :
    p = q ∨ p.1 + footprint + p.2.size ≤ q.1 ∨ q.1 + footprint + q.2.size ≤ p.1 := by
  induction cells generalizing offset with
  | nil => simp at hp
  | cons c rest ih =>
    rw [place_cons, List.mem_cons] at hp hq
    rcases hp with rfl | hp <;> rcases hq with rfl | hq
    · exact .inl rfl
    · exact .inr (.inl (place_bounds hq).1)
    · exact .inr (.inr (place_bounds hp).1)
    · exact ih hp hq

theorem place_dvd {unit : Nat} {cells : List Cell} {p : Nat × Cell}
    (hfootprint : unit ∣ footprint) (hoffset : unit ∣ offset) (hsize : ∀ c ∈ cells, unit ∣ c.size)
    (h : p ∈ place footprint offset cells) : unit ∣ p.1 := by
  induction cells generalizing offset with
  | nil => simp at h
  | cons c rest ih =>
    rw [place_cons, List.mem_cons] at h
    rcases h with rfl | h
    · exact hoffset
    · exact ih (Nat.dvd_add (Nat.dvd_add hoffset hfootprint) (hsize c List.mem_cons_self))
        (fun d hd => hsize d (List.mem_cons_of_mem _ hd)) h

theorem dvd_extent {unit : Nat} {cells : List Cell} (hfootprint : unit ∣ footprint)
    (hsize : ∀ c ∈ cells, unit ∣ c.size) : unit ∣ extent footprint cells := by
  induction cells with
  | nil => exact Nat.dvd_zero _
  | cons c rest ih =>
    rw [extent_cons]
    exact Nat.dvd_add (Nat.dvd_add hfootprint (hsize c List.mem_cons_self))
      (ih fun d hd => hsize d (List.mem_cons_of_mem _ hd))

/-- Where the places are cut, the cells are. -/
theorem place_eq_append_cons {cells : List Cell} {xs ys : List (Nat × Cell)} {p : Nat × Cell}
    (h : place footprint offset cells = xs ++ p :: ys) :
    ∃ pre post, cells = pre ++ p.2 :: post ∧ p.1 = offset + extent footprint pre ∧
      place footprint (p.1 + footprint + p.2.size) post = ys := by
  induction xs generalizing offset cells with
  | nil =>
    cases cells with
    | nil => cases h
    | cons c rest =>
      obtain ⟨rfl, rfl⟩ := List.cons.inj h
      exact ⟨[], rest, rfl, rfl, rfl⟩
  | cons x xs ih =>
    cases cells with
    | nil => cases h
    | cons c rest =>
      obtain ⟨-, hrest⟩ := List.cons.inj h
      obtain ⟨pre, post, rfl, hplace, hbehind⟩ := ih hrest
      refine ⟨c :: pre, post, rfl, ?_, hbehind⟩
      rw [hplace, extent_cons]
      omega

/-- The offset of the last cell, or the given link if there is none: what a header behind
the cells links back to. -/
def behind (footprint : Nat) (prev : Link) (offset : Nat) : List Cell → Link
  | [] => prev
  | c :: rest => behind footprint (some offset) (offset + footprint + c.size) rest

theorem behind_append (prev : Link) (xs ys : List Cell) :
    behind footprint prev offset (xs ++ ys) =
      behind footprint (behind footprint prev offset xs) (offset + extent footprint xs) ys := by
  induction xs generalizing prev offset with
  | nil => simp [behind]
  | cons c xs ih =>
    have hsum : offset + footprint + c.size + extent footprint xs =
        offset + (footprint + c.size + extent footprint xs) := by omega
    simp only [List.cons_append, behind, ih, extent_cons, hsum]

theorem behind_concat (prev : Link) (xs : List Cell) (c : Cell) :
    behind footprint prev offset (xs ++ [c]) = some (offset + extent footprint xs) := by
  rw [behind_append]
  rfl

end FirstFit.Cells
