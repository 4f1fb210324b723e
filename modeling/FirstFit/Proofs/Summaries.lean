/-
Sums over a chain that may be damaged.

The free bytes and the largest free block are taken from the list of blocks, so damage ends them
where it ends the list.  Every block but the last one was seen to end where the next one starts,
and the last one starts in the region, so all that is added up before it fits into the region
(`Arena.sum_front_le_offset`).  The last block itself is listed because its header is intact; that
its size leads somewhere was not asked any more.

So the last block decides.  If it is allocated, or ends in the region, both numbers fit.  If not,
they are as large as its header says, or no numbers at all (`Arena.summaries_stay_inside`).
-/
import Mathlib.Algebra.Order.BigOperators.Group.List
import Mathlib.Algebra.Order.Group.Nat
import FirstFit.Proofs.Forecast
import FirstFit.Proofs.Listing

namespace FirstFit

theorem Region.Trail.offset_eq {r : Region} {header : Nat → Header} {offset : Nat}
    {front : List Block} {last : Block} (h : r.Trail header offset (front ++ [last])) :
    last.offset = offset + (front.map fun b => r.footprint + b.size).sum := by
  have hstop := h.stop_eq (b := last) (by simp)
  rw [List.map_append, List.sum_append, List.map_singleton, List.sum_singleton] at hstop
  unfold stop at hstop
  omega

namespace Arena

variable {τ : Type} {arena : Arena τ} {front : List Block} {last : Block}

/-- The summaries of the free blocks are numbers, and fit into the region behind one header. -/
structure Summed (arena : Arena τ) : Prop where
  freeBytes : ∃ sum, arena.freeBytes = .ok sum ∧
    sum ≤ arena.region.capacity - arena.region.footprint
  largestFree : arena.largestFree ≤ arena.region.capacity - arena.region.footprint

/-- If the list of blocks ends with a free one, that block ends in the region. -/
def EndsInside (arena : Arena τ) : Prop :=
  ∀ last, arena.blocks.getLast? = some last → last.isFree = true →
    arena.region.stop last ≤ arena.region.capacity

/-! ### The two summaries -/

/-- The largest free block is not larger than all of them together. -/
theorem largestFree_le_sum : arena.largestFree ≤ (arena.freeBlocks.map Block.size).sum := by
  rcases Nat.eq_zero_or_pos arena.largestFree with hzero | hpos
  · rw [hzero]
    exact Nat.zero_le _
  · obtain ⟨b, hb, hle⟩ := (le_largestFree_iff hpos).mp (Nat.le_refl _)
    have hceil := arena.region.unit.le_ceil arena.largestFree
    exact (hceil.trans hle).trans (List.le_sum_of_mem (List.mem_map_of_mem hb))

theorem summed_iff (husable : arena.region.Usable) :
    arena.Summed ↔ (arena.freeBlocks.map Block.size).sum ≤
      arena.region.capacity - arena.region.footprint := by
  constructor
  · intro h
    obtain ⟨sum, hsum, hle⟩ := h.freeBytes
    rw [(freeBytes_eq_ok_iff.mp hsum).1]
    exact hle
  · intro hle
    have hcapacity : arena.region.capacity < 2 ^ 63 := (Region.lies_within husable).capacity_lt
    exact ⟨⟨_, freeBytes_eq_ok_iff.mpr ⟨rfl, by omega⟩, hle⟩, largestFree_le_sum.trans hle⟩

/-! ### The last block -/

/-- The free blocks before the last one are no longer than the way to it, and its header is in the
region. -/
theorem sum_front_le_offset (husable : arena.region.Usable)
    (hblocks : arena.blocks = front ++ [last]) :
    ((front.filter Block.isFree).map Block.size).sum ≤ last.offset ∧
      last.offset + arena.region.footprint ≤ arena.region.capacity := by
  obtain ⟨htrail, -⟩ := (prefix_blocks_iff husable).mp (List.prefix_refl _)
  rw [hblocks] at htrail
  refine ⟨?_, (htrail.admitted last (by simp)).footprint_le husable⟩
  rw [htrail.offset_eq, Nat.zero_add]
  calc ((front.filter Block.isFree).map Block.size).sum
      ≤ (front.map Block.size).sum :=
        (List.filter_sublist.map _).sum_le_sum fun _ _ => Nat.zero_le _
    _ ≤ (front.map fun b => arena.region.footprint + b.size).sum :=
        List.sum_le_sum fun _ _ => Nat.le_add_left _ _

theorem summed_iff_of_concat (husable : arena.region.Usable)
    (hblocks : arena.blocks = front ++ [last]) :
    arena.Summed ↔ (last.isFree = true → ((front.filter Block.isFree).map Block.size).sum +
      last.size ≤ arena.region.capacity - arena.region.footprint) := by
  obtain ⟨hfront, hroom⟩ := sum_front_le_offset husable hblocks
  have hsum : (arena.freeBlocks.map Block.size).sum =
      ((front.filter Block.isFree).map Block.size).sum + if last.isFree then last.size else 0 := by
    unfold freeBlocks
    rw [hblocks, List.filter_append, List.map_append, List.sum_append]
    cases hfree : last.isFree <;> simp [hfree]
  rw [summed_iff husable, hsum]
  cases last.isFree with
  | true => simp
  | false =>
    refine iff_of_true ?_ (by simp)
    simp only [Bool.false_eq_true, if_false]
    omega

/-- **On any bytes the last block of the list decides whether the free bytes and the largest free
block are numbers that fit into the region.**  They do if that block is allocated, or ends in the
region; and they do exactly if it is allocated, or fits into the region together with the free
blocks before it. -/
theorem summaries_stay_inside (arena : Arena τ) (husable : arena.region.Usable) :
    (arena.EndsInside → arena.Summed) ∧
      (arena.Summed ↔ ∀ front last, arena.blocks = front ++ [last] → last.isFree = true →
        ((front.filter Block.isFree).map Block.size).sum + last.size ≤
          arena.region.capacity - arena.region.footprint) := by
  rcases List.eq_nil_or_concat' arena.blocks with hnil | ⟨front, last, hblocks⟩
  · have hsummed : arena.Summed := by
      rw [summed_iff husable, freeBlocks, hnil]
      exact Nat.zero_le _
    refine ⟨fun _ => hsummed, iff_of_true hsummed fun front last hblocks => ?_⟩
    simp [hnil] at hblocks
  · have hiff := summed_iff_of_concat husable hblocks
    constructor
    · intro hends
      refine hiff.mpr fun hfree => ?_
      have hstop := hends last (by simp [hblocks]) hfree
      have hfront := (sum_front_le_offset husable hblocks).1
      unfold Region.stop at hstop
      omega
    · refine hiff.trans ⟨fun h front' last' hblocks' => ?_, fun h => h front last hblocks⟩
      obtain ⟨rfl, rfl⟩ := List.append_singleton_inj.mp (hblocks.symm.trans hblocks')
      exact h

theorem summaries_stay_inside_looping :
    looping.region.Usable ∧ looping.verify = .error (.tiling 64) ∧ looping.Summed ∧
      overstated.region.Usable ∧ ¬ overstated.Summed := by
  have husable : looping.region.Usable := by decide +kernel
  have husable' : overstated.region.Usable := by decide +kernel
  have hends : looping.EndsInside := by
    have hlast : looping.blocks.getLast? = some ⟨64, .fresh 8 (some 0) (some 0)⟩ := by
      decide +kernel
    intro last hlast' _
    obtain rfl := Option.some.inj (hlast.symm.trans hlast')
    decide +kernel
  refine ⟨husable, by decide +kernel, (summaries_stay_inside looping husable).1 hends, husable',
    fun hsummed => ?_⟩
  have hblocks : overstated.blocks = [] ++ [⟨0, .fresh 1000 none none⟩] := by decide +kernel
  have hfits := (summaries_stay_inside overstated husable').2.mp hsummed _ _ hblocks (by decide)
  exact absurd hfits (by decide +kernel)

/-- Two free blocks, of which the second is said to have all the bytes there could be. -/
def boundless : Arena Silent where
  config := {}
  memory := (littered.setHeader 4096 (.fresh 8 none (some 64))).setHeader 4160
    (.fresh (2 ^ 64 - 1) (some 0) none)
  tracer := ⟨⟩

/-- What a header says of the last block is believed, up to where the sum is no word. -/
theorem summaries_exceed_region :
    overstated.region.Usable ∧
      overstated.region.capacity - overstated.region.footprint = 144 ∧
      overstated.freeBytes = .ok 1000 ∧ overstated.largestFree = 1000 ∧
      boundless.region.Usable ∧ boundless.freeBytes = .error .addition := by
  decide +kernel

end Arena

end FirstFit
