/-
What can still be asked for.

A request and the size of the largest free block are looked at in two ways that never meet.  The
search rounds the request up, after it has compared it with the whole region, and takes the first
block that is long enough; `largestFree` rounds the blocks down and takes the longest.  The two
roundings are two sides of one comparison (`AlignUnit.ceil_le_iff`), and no block is longer than
the region.  So the largest free block tells which requests are answered, whatever their size
(`Arena.Runs.largestFree_foretells`).

The request for nothing at all is a case of its own: any free block answers it, also one without
payload, which the largest free block does not show.
-/
import FirstFit.Proofs.Accounting

namespace FirstFit

namespace Cells

variable {r : Region} {n : Nat} {cells : List Cell}

theorem allocated_isSome_iff :
    (allocated r n cells).1.isSome = true ↔
      n ≤ r.capacity ∧ ∃ c ∈ cells, answers (r.unit.ceil n) c = true := by
  constructor
  · intro hsome
    rcases allocated_cases r n cells with hnone | ⟨pre, c, post, rfl, hc, -, hn, -⟩
    · rw [hnone] at hsome
      cases hsome
    · exact ⟨hn, c, by simp, hc⟩
  · intro hanswer
    obtain ⟨hn, c, hmem, hc⟩ := hanswer
    rcases first_answer (r.unit.ceil n) cells with hnone | ⟨pre, d, post, rfl, hd, hpre⟩
    · rw [hnone c hmem] at hc
      cases hc
    · rw [allocated_append hn hpre hd]
      rfl

end Cells

namespace Arena

open Cells

variable {τ : Type} {arena first last : Arena τ} {r : Region} {cells : List Cell}
  {steps n length : Nat}

/-! ### The largest of the blocks -/

theorem mem_freeBlocks {b : Block} :
    b ∈ arena.freeBlocks ↔ b ∈ arena.blocks ∧ b.isFree = true := List.mem_filter

theorem le_foldl_max_iff {f : Block → Nat} (bs : List Block) (most : Nat) :
    n ≤ bs.foldl (fun most b => max most (f b)) most ↔ n ≤ most ∨ ∃ b ∈ bs, n ≤ f b := by
  induction bs generalizing most with
  | nil => simp
  | cons b rest ih => simp [ih, or_assoc]

/-- The largest free block is long enough for a request exactly if one of them is, as the search
compares them. -/
theorem le_largestFree_iff (hn : 1 ≤ n) :
    n ≤ arena.largestFree ↔ ∃ b ∈ arena.freeBlocks, arena.region.unit.ceil n ≤ b.size := by
  unfold largestFree
  rw [le_foldl_max_iff]
  simp only [AlignUnit.ceil_le_iff]
  constructor
  · intro h
    exact h.resolve_left (by omega)
  · intro h
    exact .inr h

/-! ### The blocks of an arena that keeps cells -/

theorem Kept.exists_answers_iff (h : arena.Kept r cells steps) :
    (∃ c ∈ cells, answers length c = true) ↔ ∃ b ∈ arena.freeBlocks, length ≤ b.size := by
  rw [← h.map_cell]
  constructor
  · intro hcell
    obtain ⟨c, hc, hanswers⟩ := hcell
    obtain ⟨b, hb, rfl⟩ := List.mem_map.mp hc
    obtain ⟨hfree, hle⟩ := answers_iff.mp hanswers
    exact ⟨b, mem_freeBlocks.mpr ⟨hb, by simpa [Block.cell] using hfree⟩, hle⟩
  · intro hblock
    obtain ⟨b, hb, hle⟩ := hblock
    obtain ⟨hmem, hfree⟩ := mem_freeBlocks.mp hb
    exact ⟨b.cell, List.mem_map_of_mem hmem, answers_iff.mpr ⟨by simp [Block.cell, hfree], hle⟩⟩

theorem Kept.size_le_capacity (h : arena.Kept r cells steps) {b : Block} (hb : b ∈ arena.blocks) :
    b.size ≤ r.capacity := by
  obtain ⟨p, hp, rfl⟩ := h.mem_blocks_iff.mp hb
  have hfits := (h.tidy.place_fits hp).2
  rw [← h.size_eq hp] at hfits
  show (r.headerAt arena.memory p.1).size ≤ r.capacity
  omega

/-- Neither the comparison with the region nor the rounding decides about a request: a block that
is long enough passes both. -/
theorem Kept.le_size_iff (h : arena.Kept r cells steps) {b : Block} (hb : b ∈ arena.blocks) :
    n ≤ b.size ↔
      n ≤ r.capacity ∧ ∃ length, roundUp n r.unit.bytes = .ok length ∧ length ≤ b.size := by
  have hdvd := (h.block_facts hb).2.1
  constructor
  · intro hle
    have hn := Nat.le_trans hle (h.size_le_capacity hb)
    exact ⟨hn, _, (h.tidy.lies.roundUp hn).1, r.unit.ceil_le hdvd hle⟩
  · intro hguarded
    obtain ⟨hn, length, hround, hle⟩ := hguarded
    obtain rfl : r.unit.ceil n = length :=
      Except.ok.inj ((h.tidy.lies.roundUp hn).1.symm.trans hround)
    exact Nat.le_trans (r.unit.le_ceil n) hle

theorem Kept.allocated_isSome_iff (h : arena.Kept r cells steps) :
    (allocated r n cells).1.isSome = true ↔ ∃ b ∈ arena.freeBlocks, n ≤ b.size := by
  rw [Cells.allocated_isSome_iff, h.exists_answers_iff]
  constructor
  · intro hanswer
    obtain ⟨-, b, hb, hle⟩ := hanswer
    exact ⟨b, hb, Nat.le_trans (r.unit.le_ceil n) hle⟩
  · intro hfits
    obtain ⟨b, hb, hle⟩ := hfits
    have hmem := (mem_freeBlocks.mp hb).1
    exact ⟨Nat.le_trans hle (h.size_le_capacity hmem), b, hb,
      r.unit.ceil_le (h.block_facts hmem).2.1 hle⟩

theorem Kept.le_largestFree_iff (h : arena.Kept r cells steps) (hn : 1 ≤ n) :
    n ≤ arena.largestFree ↔ ∃ b ∈ arena.freeBlocks, n ≤ b.size := by
  rw [Arena.le_largestFree_iff hn, h.region]
  refine exists_congr fun b => and_congr_right fun hb => ?_
  constructor
  · intro hle
    exact Nat.le_trans (r.unit.le_ceil n) hle
  · intro hle
    exact r.unit.ceil_le (h.block_facts (mem_freeBlocks.mp hb).1).2.1 hle

/-! ### Requests after a run -/

/-- What the free blocks say of a request that is answered like this. -/
structure Foretells (arena : Arena τ) (n : Nat) (answer : Option Nat) : Prop where
  /-- A request for something is answered up to the largest free block. -/
  largest : 1 ≤ n → (answer.isSome = true ↔ n ≤ arena.largestFree)
  /-- A request for nothing is answered as long as any block is free. -/
  nothing : n = 0 → (answer.isSome = true ↔ ∃ b ∈ arena.blocks, b.isFree = true)
  /-- Neither the region nor the unit counts, only how long the free blocks are. -/
  plain : answer.isSome = true ↔ ∃ b ∈ arena.freeBlocks, n ≤ b.size
  guards : ∀ b ∈ arena.freeBlocks, n ≤ b.size ↔ n ≤ arena.region.capacity ∧
    ∃ length, roundUp n arena.region.unit.bytes = .ok length ∧ length ≤ b.size

theorem Kept.foretells (h : arena.Kept r cells steps) :
    arena.Foretells n (allocated r n cells).1 := by
  refine ⟨fun hn => ?_, fun hn => ?_, h.allocated_isSome_iff, fun b hb => ?_⟩
  · rw [h.allocated_isSome_iff, h.le_largestFree_iff hn]
  · rw [h.allocated_isSome_iff, hn]
    simp [mem_freeBlocks]
  · rw [h.region]
    exact h.le_size_iff (mem_freeBlocks.mp hb).1

/-- Without a chain there is no free block, and no request is answered. -/
theorem foretells_of_not_usable (h : ¬ arena.region.Usable) : arena.Foretells n none := by
  have hblocks := blocks_of_not_usable h
  have hfree : arena.freeBlocks = [] := by
    unfold freeBlocks
    rw [hblocks]
    rfl
  have hlargest : arena.largestFree = 0 := by
    unfold largestFree
    rw [hfree]
    rfl
  refine ⟨fun hn => ?_, fun _ => ?_, ?_, ?_⟩
  · rw [hlargest]
    constructor
    · intro hsome
      cases hsome
    · intro hle
      omega
  · simp [hblocks]
  · simp [hfree]
  · simp [hfree]

variable [Tracer τ]

/-- **The largest free block tells which requests succeed.**  After every run of a client a
request for at least one byte is answered with an address exactly if it is not larger, and a
request for nothing exactly if any block is free. -/
theorem Runs.largestFree_foretells {config : Config} {memory : Memory} {tracer : τ}
    {history : List (Step × Option Nat)} (hcreate : create config memory tracer = .ok first)
    (hruns : Runs first history last) (hlength : history.length + 1 < 2 ^ 64) (n : Nat) :
    ∃ answer next, (allocate n).run last = .ok answer next ∧ last.Foretells n answer := by
  by_cases husable : first.region.Usable
  · obtain ⟨cells, -, hkept⟩ := hruns.kept_of_create hcreate husable (by omega)
    obtain ⟨next, hrun, -⟩ := hkept.run_allocate hlength n
    exact ⟨_, next, hrun, hkept.foretells⟩
  · have hlast := hruns.not_usable husable
    exact ⟨none, last, run_allocate_refused rfl (.inl hlast), foretells_of_not_usable hlast⟩

theorem largestFree_foretells_sample :
    ∃ first last : Arena Silent, create {} sample ⟨⟩ = .ok first ∧
      Runs first [(.allocate 8, some 4152), (.allocate 3, some 4216), (.release 4152, none)] last ∧
      last.largestFree = 16 ∧ (∃ address next, (allocate 13).run last = .ok (some address) next) ∧
      ∃ next, (allocate 17).run last = .ok none next := by
  obtain ⟨first, last, hcreate, -, hruns, hkept⟩ := @exists_sample_run
    [.allocate 8, .allocate 3, .release 4152] [some 4152, some 4216, none]
    [⟨8, false⟩, ⟨8, true⟩, ⟨16, false⟩] (by decide +kernel) (by decide)
  have hlargest : ∀ n, 1 ≤ n → (n ≤ last.largestFree ↔ _) := fun n hn => by
    rw [Arena.le_largestFree_iff hn, ← hkept.exists_answers_iff, hkept.region]
  have hsixteen : 16 ≤ last.largestFree := (hlargest 16 (by decide)).mpr (by decide +kernel)
  have hseventeen : ¬ 17 ≤ last.largestFree := mt (hlargest 17 (by decide)).mp (by decide +kernel)
  refine ⟨first, last, hcreate, hruns, by omega, ?_, ?_⟩
  · obtain ⟨answer, next, hrun, hforetells⟩ :=
      Runs.largestFree_foretells hcreate hruns (by decide) 13
    have hsome := (hforetells.largest (by decide)).mpr (by omega)
    obtain ⟨address, rfl⟩ := Option.isSome_iff_exists.mp hsome
    exact ⟨address, next, hrun⟩
  · obtain ⟨answer, next, hrun, hforetells⟩ :=
      Runs.largestFree_foretells hcreate hruns (by decide) 17
    have hnone := mt (hforetells.largest (by decide)).mp hseventeen
    rw [Bool.not_eq_true, Option.isSome_eq_false_iff, Option.isNone_iff_eq_none] at hnone
    exact ⟨next, hnone ▸ hrun⟩

end Arena

end FirstFit
