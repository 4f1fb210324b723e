/-
How far a walk gets when headers have been changed.

A walk along a sound chain comes to its end.  If some of the headers were changed since, it
still comes to every block with nothing but unchanged headers before it, since it looks at no
header before it is there (`Region.Completes.passage`).  What it says of the chain is then
decided from that block on (`Walk.defectBehind?_of_reached`): if something is wrong with it,
that is reported, whatever stands behind it, and if not, the walk goes on as before as long
as the next block accepts the changed one as its neighbour (`Region.Completes.resume`).
-/
import Mathlib.Data.List.TakeWhile
import FirstFit.Proofs.Verdict

namespace FirstFit

open Relation (ReflTransGen)

section Walks

variable {r : Region} {header header' : Nat → Header} {before before' : Option Block}
  {offset : Nat} {left right blocks : List Block} {b : Block} {place : Option Block × Nat}

theorem Region.Clean.congr (h : r.Clean header before offset)
    (hsame : header' offset = header offset) : r.Clean header' before offset := by
  unfold Clean conditions at h ⊢
  rw [hsame]
  exact h

theorem Region.Completes.head (h : r.Completes header before offset blocks) :
    r.Clean header before offset ∧ ⟨offset, header offset⟩ ∈ blocks := by
  cases h with
  | last clean link => exact ⟨clean, List.mem_cons_self⟩
  | more clean link tail => exact ⟨clean, List.mem_cons_self⟩

theorem Region.completes_cons_iff :
    r.Completes header before offset (b :: right) ↔
      b = ⟨offset, header offset⟩ ∧ r.Clean header before offset ∧
        ((header offset).next = none ∧ right = [] ∨
          ∃ next, (header offset).next = some next ∧ r.Completes header (some b) next right) := by
  constructor
  · intro h
    cases h with
    | last clean link => exact ⟨rfl, clean, .inl ⟨link, rfl⟩⟩
    | more clean link tail => exact ⟨rfl, clean, .inr ⟨_, link, tail⟩⟩
  · intro h
    obtain ⟨rfl, clean, ⟨link, rfl⟩ | ⟨next, link, tail⟩⟩ := h
    · exact .last clean link
    · exact .more clean link tail

/-- **A walk comes to every block before which no header was changed.** -/
theorem Region.Completes.passage (h : r.Completes header before offset (left ++ b :: right))
    (hagree : ∀ a ∈ left, header' a.offset = header a.offset) :
    ReflTransGen (r.Onward header') (before, offset) (left.getLast?.or before, b.offset) ∧
      r.Completes header (left.getLast?.or before) b.offset (b :: right) := by
  induction left generalizing before offset with
  | nil =>
    obtain ⟨hb, -⟩ := completes_cons_iff.mp h
    have hoffset : b.offset = offset := by rw [hb]
    rw [hoffset]
    exact ⟨.refl, h⟩
  | cons a left ih =>
    rw [List.cons_append, completes_cons_iff] at h
    obtain ⟨ha, clean, hend | ⟨next, link, tail⟩⟩ := h
    · simp at hend
    · obtain ⟨hreach, hrest⟩ := ih tail fun a' ha' => hagree a' (List.mem_cons_of_mem _ ha')
      have hlast : (a :: left).getLast?.or before = left.getLast?.or (some a) := by
        rw [List.getLast?_cons]
        cases left.getLast? <;> rfl
      rw [hlast]
      refine ⟨.head ?_ hreach, hrest⟩
      -- The header of the first block is read where it was, so the first step is the same.
      have hsame := hagree a List.mem_cons_self
      rw [ha] at hsame ⊢
      dsimp only at hsame
      rw [← hsame] at link ⊢
      exact .mk (clean.congr hsame) link

/-- Behind a changed block a walk goes on as before, if nothing is wrong with the first block
there. -/
theorem Region.Completes.resume (h : r.Completes header before offset blocks)
    (hagree : ∀ a ∈ blocks, header' a.offset = header a.offset)
    (hclean : r.Clean header' before' offset) : r.Completes header' before' offset blocks := by
  induction h generalizing before' with
  | @last before offset clean link =>
    have hsame := hagree _ (List.mem_singleton_self _)
    rw [← hsame] at link ⊢
    exact .last hclean link
  | @more before offset next rest clean link tail ih =>
    have hsame := hagree _ List.mem_cons_self
    have hrest := fun a ha => hagree a (List.mem_cons_of_mem _ ha)
    dsimp only at hsame
    obtain ⟨hnext, hmem⟩ := tail.head
    have htail := hnext.congr (hrest _ hmem)
    have hcompletes := ih hrest htail
    rw [← hsame] at link hcompletes ⊢
    exact .more hclean link hcompletes

theorem Walk.defectBehind?_of_reached (h : ReflTransGen (r.Onward header) (before, offset) place) :
    (follow r header offset).defectBehind? before =
      (follow r header place.2).defectBehind? place.1 := by
  induction h with
  | refl => rfl
  | tail _ hstep ih => exact ih.trans (defectBehind?_of_onward hstep)

end Walks

namespace Arena

variable {τ : Type} {arena : Arena τ}

/-- If nothing is reported, the walk has come through all blocks to the end. -/
theorem completes_of_verify (husable : arena.region.Usable) (hok : arena.verify = .ok ()) :
    arena.region.Completes arena.headerAt none 0 arena.blocks := by
  have hnone : (Walk.follow arena.region arena.headerAt 0).defectBehind? none = none := by
    rw [verify_eq_match arena husable] at hok
    split at hok
    · assumption
    · simp at hok
  have hcompletes := Walk.completes_of_defectBehind? hnone
  have hchain := Region.completes_iff_chain.mp hcompletes
  have hblocks : arena.blocks = (Walk.follow arena.region arena.headerAt 0).blocks := by
    unfold blocks
    rw [walk_of_usable husable, Walk.sound]
    refine List.takeWhile_eq_self_iff.mpr fun b hb => ?_
    have hcheck : b.header.check? b.offset = none := Header.intact_iff.mp (hchain.intact b hb)
    unfold Block.check?
    rw [hcheck]
    rfl
  rw [hblocks]
  exact hcompletes

end Arena

end FirstFit
