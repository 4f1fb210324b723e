/-
What the list of blocks tells.

The list of blocks and the verification walk along the same links, but the list says nothing of
why it ends: a header in no place, a damaged one, or a link to another place than the end of its
block all just end it, and links back and free neighbours it does not look at.  All the same
nothing is lost, because the blocks of the list tell where it should have ended.  Their sizes add
up to the end of the last one (`Region.Trail.stop_eq`), so if the sum is that of the region, no
block is missing, and the rest of what verification asks can be asked of the list
(`Arena.listing_decides_verify`).
-/
import FirstFit.Proofs.Passage
import FirstFit.Proofs.Trail

namespace FirstFit

/-- What a list of blocks has to show if nothing is wrong with the region. -/
structure Region.AccountedBy (r : Region) (blocks : List Block) : Prop where
  first : ∃ b, blocks.head? = some b ∧ b.header.prev = none
  last : ∃ b, blocks.getLast? = some b ∧ b.header.next = none
  /-- No byte of the region is missing, and none is too many. -/
  total : (blocks.map fun b => r.footprint + b.size).sum = r.capacity
  neighbours : blocks.IsChain fun a b => a.header.next = some b.offset ∧
    b.header.prev = some a.offset ∧ ¬ (a.isFree = true ∧ b.isFree = true)

section Lists

variable {r : Region} {header : Nat → Header} {blocks : List Block}

theorem Region.Completes.accounted (h : r.Completes header none 0 blocks)
    (htrail : r.Trail header 0 blocks) : r.AccountedBy blocks := by
  obtain ⟨-, ⟨a, hhead, -, hjoins⟩, ⟨z, hlast, hstop, hend⟩, hchain⟩ := completes_iff.mp h
  refine ⟨⟨a, hhead, hjoins⟩, ⟨z, hlast, hend⟩, ?_, ?_⟩
  · rw [← hstop, htrail.stop_eq hlast, Nat.zero_add]
  · exact hchain.imp fun a b hab => ⟨hab.next, hab.prev, hab.merged⟩

theorem Region.Trail.completes (h : r.Trail header 0 blocks)
    (hcheck : ∀ b ∈ blocks, b.check? = none) (haccounted : r.AccountedBy blocks) :
    r.Completes header none 0 blocks := by
  obtain ⟨a, hhead, hprev⟩ := haccounted.first
  obtain ⟨z, hlast, hend⟩ := haccounted.last
  rw [completes_iff]
  refine ⟨fun b hb => ?_, ⟨a, hhead, h.starts a hhead, hprev⟩, ⟨z, hlast, ?_, hend⟩, ?_⟩
  · exact ⟨h.admitted b hb, h.found b hb, Header.intact_iff.mpr (hcheck b hb)⟩
  · rw [h.stop_eq hlast, haccounted.total, Nat.zero_add]
  · have hneighbours := haccounted.neighbours
    have hleads := h.leads
    rw [List.isChain_iff_getElem] at hneighbours hleads ⊢
    intro i hi
    obtain ⟨hnext, hprev, hmerged⟩ := hneighbours i hi
    exact ⟨(hleads i hi).tiles, hnext, hprev, hmerged⟩

end Lists

theorem prefix_takeWhile_iff {α : Type} {p : α → Bool} {xs ys : List α} :
    xs <+: ys.takeWhile p ↔ xs <+: ys ∧ ∀ x ∈ xs, p x = true := by
  constructor
  · intro h
    exact ⟨h.trans (List.takeWhile_prefix p), fun x hx => List.mem_takeWhile_imp (h.subset hx)⟩
  · intro h
    obtain ⟨⟨rest, rfl⟩, hall⟩ := h
    rw [List.takeWhile_append_of_pos hall]
    exact List.prefix_append _ _

namespace Arena

variable {τ : Type} {arena : Arena τ} {blocks : List Block}

/-- The list of blocks is the longest trail of intact headers. -/
theorem prefix_blocks_iff (husable : arena.region.Usable) :
    blocks <+: arena.blocks ↔
      arena.region.Trail arena.headerAt 0 blocks ∧ ∀ b ∈ blocks, b.check? = none := by
  unfold Arena.blocks Walk.sound
  rw [walk_of_usable husable, prefix_takeWhile_iff, Walk.trail_iff_prefix]
  simp only [Option.isNone_iff_eq_none]

/-- **The list of blocks tells whether verification finds anything wrong, whatever the bytes
are.**  It does not exactly if there is a first block that has none before it, a last one that
has none behind it, each two neighbours link to each other and are not both free, and with a
footprint each they are as long as the region.  The list itself is the longest way from the
start over headers that are in a place for one and intact, each but the last leading to the
next where its block ends. -/
theorem listing_decides_verify (arena : Arena τ) (husable : arena.region.Usable) :
    (arena.verify = .ok () ↔ arena.region.AccountedBy arena.blocks) ∧
      ∀ blocks, blocks <+: arena.blocks ↔
        arena.region.Trail arena.headerAt 0 blocks ∧ ∀ b ∈ blocks, b.check? = none := by
  refine ⟨?_, fun blocks => prefix_blocks_iff husable⟩
  obtain ⟨htrail, hcheck⟩ := (prefix_blocks_iff husable).mp (List.prefix_refl _)
  constructor
  · intro hok
    exact (completes_of_verify husable hok).accounted htrail
  · intro haccounted
    obtain ⟨hwalk, hclean⟩ := Walk.follow_of_completes (htrail.completes hcheck haccounted)
    rw [verify_eq_match arena husable, hwalk]
    simp [Walk.defectBehind?, hclean]

/-- One block that is said to be longer than the region, with no neighbours. -/
def overstated : Arena Silent where
  config := {}
  memory := littered.setHeader 4096 (.fresh 1000 none none)
  tracer := ⟨⟩

theorem listing_decides_verify_overstated :
    overstated.region.Usable ∧ overstated.verify = .error (.tiling 0) ∧
      overstated.blocks = [⟨0, .fresh 1000 none none⟩] ∧
      ¬ overstated.region.AccountedBy overstated.blocks := by
  have husable : overstated.region.Usable := by decide +kernel
  have hverify : overstated.verify = .error (.tiling 0) := by decide +kernel
  refine ⟨husable, hverify, by decide +kernel, fun haccounted => ?_⟩
  have hok := (listing_decides_verify overstated husable).1.mpr haccounted
  rw [hverify] at hok
  cases hok

end Arena

end FirstFit
