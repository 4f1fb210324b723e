/-
What the counters count.

The counters are changed apart from the headers, and each change is checked.  `Counts`
says what they are of a list of cells: the bytes and the number of the allocated ones, and
that no more has been allocated than steps were taken.  From that no check on them fails.
-/
import FirstFit.Cells
import FirstFit.Stats

namespace FirstFit

namespace Cells

/-- How many bytes of payload the allocated cells have. -/
def used (cells : List Cell) : Nat := ((cells.filter (·.allocated)).map (·.size)).sum

/-- How many cells are allocated. -/
def live (cells : List Cell) : Nat := cells.countP (·.allocated)

theorem used_append (xs ys : List Cell) : used (xs ++ ys) = used xs + used ys := by
  simp [used]

theorem used_cons (c : Cell) (cells : List Cell) :
    used (c :: cells) = (if c.allocated then c.size else 0) + used cells := by
  by_cases hc : c.allocated = true <;> simp [used, hc]

theorem live_append (xs ys : List Cell) : live (xs ++ ys) = live xs + live ys := by
  simp [live]

theorem live_cons (c : Cell) (cells : List Cell) :
    live (c :: cells) = (if c.allocated then 1 else 0) + live cells := by
  by_cases hc : c.allocated = true <;> simp [live, hc, Nat.add_comm]

theorem used_le_extent (footprint : Nat) (cells : List Cell) :
    used cells ≤ extent footprint cells := by
  induction cells with
  | nil => simp [used, extent]
  | cons c rest ih =>
    have hextent : extent footprint (c :: rest) = footprint + c.size + extent footprint rest := by
      simp [extent]
    rw [used_cons, hextent]
    split <;> omega

end Cells

namespace Stats

/-- The counters after a block of `size` bytes was handed out. -/
def granted (size : Nat) (s : Stats) : Stats :=
  raisePeaks { s with used := s.used + size, live := s.live + 1, allocs := s.allocs + 1 }

/-- The counters after a block of `size` bytes was given back. -/
def reclaimed (size : Nat) (s : Stats) : Stats :=
  { s with used := s.used - size, live := s.live - 1, releases := s.releases + 1 }

section Checked

variable {s : Stats} {size : Nat}

/-- A counter is raised exactly if the sum is a word. -/
theorem raised_eq_ok_iff {a b : Nat} {change : Nat → Stats} {s' : Stats} :
    (do return change (← Word.add a b) : Except Fault Stats) = .ok s' ↔
      a + b < 2 ^ 64 ∧ change (a + b) = s' := by
  by_cases h : a + b < 2 ^ 64
  · rw [Word.add_eq_ok_iff.mpr ⟨rfl, h⟩]
    exact ⟨fun heq => ⟨h, Except.ok.inj heq⟩, fun heq => congrArg Except.ok heq.2⟩
  · have hfault : Word.add a b = .error .addition := if_neg h
    rw [hfault]
    exact ⟨fun heq => (by cases heq), fun heq => absurd heq.1 h⟩

theorem addUsed_eq (h : s.used + size < 2 ^ 64) :
    s.addUsed size = .ok { s with used := s.used + size } := raised_eq_ok_iff.mpr ⟨h, rfl⟩

/-- A sum that is no word is a fault. -/
theorem addUsed_eq_error (h : ¬ s.used + size < 2 ^ 64) : s.addUsed size = .error .addition := by
  have hadd : Word.add s.used size = .error .addition := if_neg h
  unfold addUsed
  rw [hadd]
  rfl

theorem addLive_eq (h : s.live + 1 < 2 ^ 64) : s.addLive = .ok { s with live := s.live + 1 } :=
  raised_eq_ok_iff.mpr ⟨h, rfl⟩

theorem addAlloc_eq (h : s.allocs + 1 < 2 ^ 64) :
    s.addAlloc = .ok { s with allocs := s.allocs + 1 } := raised_eq_ok_iff.mpr ⟨h, rfl⟩

theorem dropUsed_eq (h : size ≤ s.used) :
    s.dropUsed size = .ok { s with used := s.used - size } := by
  unfold dropUsed
  rw [Word.sub_eq_ok_iff.mpr ⟨h, rfl⟩]
  rfl

theorem dropLive_eq (h : 1 ≤ s.live) : s.dropLive = .ok { s with live := s.live - 1 } := by
  unfold dropLive
  rw [Word.sub_eq_ok_iff.mpr ⟨h, rfl⟩]
  rfl

/-- What was never counted cannot be discounted. -/
theorem dropUsed_eq_error (h : ¬ size ≤ s.used) : s.dropUsed size = .error .subtraction := by
  have hsub : Word.sub s.used size = .error .subtraction := if_neg h
  unfold dropUsed
  rw [hsub]
  rfl

theorem dropLive_eq_error (h : ¬ 1 ≤ s.live) : s.dropLive = .error .subtraction := by
  have hsub : Word.sub s.live 1 = .error .subtraction := if_neg h
  unfold dropLive
  rw [hsub]
  rfl

theorem addRelease_eq (h : s.releases + 1 < 2 ^ 64) :
    s.addRelease = .ok { s with releases := s.releases + 1 } := raised_eq_ok_iff.mpr ⟨h, rfl⟩

end Checked

/-- The counters are those of the cells, after no more than so many steps. -/
structure Counts (s : Stats) (cells : List Cell) (steps : Nat) : Prop where
  used : s.used = Cells.used cells
  live : s.live = Cells.live cells
  /-- What was allocated is still live or was released. -/
  allocs : s.allocs = s.live + s.releases
  allocs_le : s.allocs ≤ steps

namespace Counts

variable {s : Stats} {pre rest post cells : List Cell} {c : Cell} {steps size : Nat}

theorem later (h : s.Counts cells steps) : s.Counts cells (steps + 1) :=
  ⟨h.used, h.live, h.allocs, Nat.le_succ_of_le h.allocs_le⟩

/-- Counters of cells that fill a region are words, for as long as the steps are. -/
theorem words (h : s.Counts cells steps) (footprint : Nat)
    (hextent : Cells.extent footprint cells < 2 ^ 64) (hsteps : steps < 2 ^ 64) :
    s.used < 2 ^ 64 ∧ s.live < 2 ^ 64 ∧ s.allocs < 2 ^ 64 ∧ s.releases < 2 ^ 64 := by
  have hused := h.used
  have hle := Cells.used_le_extent footprint cells
  have hallocs := h.allocs
  have hallocsLe := h.allocs_le
  omega

/-- An allocated cell was counted. -/
theorem counted (h : s.Counts (pre ++ c :: post) steps) (hc : c.allocated = true) :
    c.size ≤ s.used ∧ 1 ≤ s.live := by
  rw [h.used, h.live, Cells.used_append, Cells.used_cons, Cells.live_append, Cells.live_cons,
    if_pos hc, if_pos hc]
  omega

/-- A free cell was handed out, and what may be left of it is free. -/
theorem granted (h : s.Counts (pre ++ c :: post) steps) (hfree : c.allocated = false)
    (hrest : ∀ d ∈ rest, d.allocated = false) :
    (s.granted size).Counts (pre ++ ⟨size, true⟩ :: (rest ++ post)) (steps + 1) := by
  have hused := h.used
  have hlive := h.live
  have hallocs := h.allocs
  have hle := h.allocs_le
  have hrestUsed : Cells.used rest = 0 := by
    unfold Cells.used
    rw [List.filter_eq_nil_iff.mpr fun d hd => by simp [hrest d hd]]
    rfl
  have hrestLive : Cells.live rest = 0 := by
    unfold Cells.live
    rw [List.countP_eq_zero]
    exact fun d hd => by simp [hrest d hd]
  simp only [Cells.used_append, Cells.used_cons, Cells.live_append, Cells.live_cons, hfree,
    Bool.false_eq_true, if_false] at hused hlive
  refine ⟨?_, ?_, ?_, ?_⟩
  · rw [Cells.used_append, Cells.used_cons, Cells.used_append]
    show s.used + size = _
    simp only [if_true]
    omega
  · rw [Cells.live_append, Cells.live_cons, Cells.live_append]
    show s.live + 1 = _
    simp only [if_true]
    omega
  · show s.allocs + 1 = s.live + 1 + s.releases
    omega
  · exact Nat.succ_le_succ hle

/-- An allocated cell became free; in the cells afterwards it counts for nothing. -/
theorem reclaimed {after : List Cell} (h : s.Counts (pre ++ c :: post) steps)
    (hc : c.allocated = true) (hused : Cells.used after = Cells.used pre + Cells.used post)
    (hlive : Cells.live after = Cells.live pre + Cells.live post) :
    (s.reclaimed c.size).Counts after (steps + 1) := by
  have hused' := h.used
  have hlive' := h.live
  have hallocs := h.allocs
  have hle := h.allocs_le
  simp only [Cells.used_append, Cells.used_cons, Cells.live_append, Cells.live_cons, hc,
    if_true] at hused' hlive'
  refine ⟨?_, ?_, ?_, Nat.le_succ_of_le hle⟩
  · show s.used - c.size = _
    omega
  · show s.live - 1 = _
    omega
  · show s.allocs = s.live - 1 + (s.releases + 1)
    omega

end Counts

end Stats

end FirstFit
