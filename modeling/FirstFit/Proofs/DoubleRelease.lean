/-
Releasing twice.

A payload that was given back stays out of reach for as long as nothing is allocated: no block
grows over the place where its header was, unless it takes in all of it, and no client has a
payload there to write to (`Arena.Abandoned`).  So a second release finds the header of a free
block, or, where that block became part of one before it, nothing but zeros.  Whatever clients
write elsewhere, neither is taken for an allocated block.
-/
import FirstFit.Proofs.Commute

namespace FirstFit

namespace Arena

open Cells

variable {τ : Type} {arena next first last : Arena τ} {r : Region} {cells after : List Cell}
  {steps o a : Nat} {xs : List Nat}

/-- Nobody has anything where a header was, or still is. -/
structure Abandoned (arena : Arena τ) (r : Region) (cells : List Cell) (o : Nat) : Prop where
  /-- Other headers share no byte with it. -/
  apart : ∀ o' ∈ offsets r.footprint cells, o' = o ∨ r.Apart o' o
  /-- Allocated cells end before it or start behind it. -/
  unused : ∀ p ∈ place r.footprint 0 cells, p.2.allocated = true →
    p.1 + r.footprint + p.2.size ≤ o ∨ o + r.footprint ≤ p.1
  /-- If it is not there any more, nothing is. -/
  blank : o ∉ offsets r.footprint cells → ∀ a, r.InFootprint o a → arena.memory.byteAt a = 0

/-! ### How a header is abandoned -/

/-- After releases a header is abandoned if it was before, or if they have left nobody there. -/
theorem Vacates.abandoned (h : arena.Vacates next r cells after xs)
    (hapart : ∀ o' ∈ offsets r.footprint cells, o' = o ∨ r.Apart o' o)
    (hunused : ∀ p ∈ place r.footprint 0 after, p.2.allocated = true →
      p.1 + r.footprint + p.2.size ≤ o ∨ o + r.footprint ≤ p.1)
    (hblank : o ∉ offsets r.footprint cells → ∀ a, r.InFootprint o a → arena.memory.byteAt a = 0) :
    next.Abandoned r after o := by
  refine ⟨fun o' ho' => hapart o' (h.subset o' ho'), hunused, ?_⟩
  intro hgone a hin
  have hout : ∀ o' ∈ offsets r.footprint after, ¬ r.InWords o' a :=
    Region.not_inWords_of_apart (fun o' ho' => hapart o' (h.subset o' ho')) hgone hin
  by_cases ho : o ∈ offsets r.footprint cells
  · exact h.swept.wiped a hout ⟨o, ho, hgone, hin⟩
  · rcases h.swept.zero_or_kept hout with hzero | ⟨-, hkept⟩
    · exact hzero
    · rw [hkept, hblank ho a hin]

theorem Vacates.abandons {c : Cell} (h : arena.Vacates next r cells after [r.payload o])
    (hc : (o, c) ∈ place r.footprint 0 cells) : next.Abandoned r after o := by
  have ho : o ∈ offsets r.footprint cells := mem_offsets.mpr ⟨c, hc⟩
  refine h.abandoned (fun o' ho' => apart_of_mem_offsets ho' ho) ?_ fun hnot => absurd ho hnot
  intro p hp hallocated
  obtain ⟨hp, hother⟩ := (h.allocated p hallocated).mp hp
  rcases place_apart hp hc with rfl | hbefore | hbehind
  · exact absurd List.mem_cons_self hother
  · exact .inl hbefore
  · exact .inr (Nat.le_trans (Nat.le_add_right _ _) hbehind)

theorem Abandoned.write (h : arena.Abandoned r cells o) (hkept : arena.Kept r cells steps)
    {p : Nat × Cell} (hp : p ∈ place r.footprint 0 cells) (hallocated : p.2.allocated = true)
    {address : Nat} {bytes : List UInt8} (hlow : r.payload p.1 ≤ address)
    (hhigh : address + bytes.length ≤ r.payload p.1 + p.2.size) :
    Abandoned { arena with memory := arena.memory.write address bytes } r cells o := by
  refine ⟨h.apart, h.unused, fun hgone a hin => ?_⟩
  obtain ⟨hlow', hhigh'⟩ := hin
  have hunused := h.unused p hp hallocated
  have hunwritten : (Step.write address bytes).writes a = none := by
    unfold Region.payload at hlow hhigh
    show (if address ≤ a then bytes[a - address]? else none) = none
    split
    · exact List.getElem?_eq_none (by omega)
    · rfl
  show (arena.memory.write address bytes).byteAt a = 0
  rw [hkept.byteAt_write hp hlow hhigh, hunwritten]
  exact h.blank hgone a ⟨hlow', hhigh'⟩

/-! ### How it stays so -/

variable [Tracer τ]

theorem Abandoned.step (h : arena.Abandoned r cells o) (hkept : arena.Kept r cells steps)
    (hword : arena.stats.allocs < 2 ^ 64) {s : Step} {answer : Option Nat}
    (hallows : arena.Allows s) (hrun : (step s).run arena = .ok answer next)
    (hs : ∀ n, s ≠ .allocate n) :
    ∃ after, next.Kept r after steps ∧ next.stats.allocs < 2 ^ 64 ∧ next.Abandoned r after o := by
  cases s with
  | allocate n => exact absurd rfl (hs n)
  | release address =>
    rcases hallows with rfl | ⟨b, hlive⟩
    · obtain ⟨-, hrelease⟩ := run_step_release_iff.mp hrun
      rw [run_release_ignored (.inl rfl)] at hrelease
      cases hrelease
      exact ⟨cells, hkept, hword, h⟩
    · obtain ⟨next', after, hrun', hkept', hvacates⟩ := hkept.vacates_release hword hlive
      rw [hrun'] at hrun
      cases hrun
      refine ⟨after, hkept', hvacates.allocs ▸ hword, hvacates.abandoned h.apart ?_ h.blank⟩
      intro p hp hallocated
      exact h.unused p ((hvacates.allocated p hallocated).mp hp).1 hallocated
  | resetPeaks =>
    cases hrun
    exact ⟨cells, ⟨hkept.region, hkept.tidy, hkept.counts.used, hkept.counts.live,
      hkept.counts.allocs, hkept.counts.allocs_le⟩, hword, h.apart, h.unused, h.blank⟩
  | write address bytes =>
    cases hrun
    obtain ⟨p, hp, hallocated, hlow, hhigh⟩ := hkept.allows_iff.mp hallows
    exact ⟨cells, hkept.write hp hlow hhigh, hword, h.write hkept hp hallocated hlow hhigh⟩

theorem Runs.abandoned {later : List (Step × Option Nat)} (hruns : Runs first later last)
    (h : first.Abandoned r cells o) (hkept : first.Kept r cells steps)
    (hword : first.stats.allocs < 2 ^ 64) (hlater : ∀ x ∈ later, ∀ n, x.1 ≠ .allocate n) :
    ∃ after, last.Kept r after steps ∧ last.Abandoned r after o := by
  induction hruns generalizing cells with
  | nil => exact ⟨cells, hkept, h⟩
  | @cons arena mid last s answer rest hallows hstep hrest ih =>
    obtain ⟨after, hmid, hword', habandoned⟩ :=
      h.step hkept hword hallows hstep (hlater _ List.mem_cons_self)
    exact ih habandoned hmid hword' fun x hx => hlater x (List.mem_cons_of_mem _ hx)

/-! ### What a second release finds -/

/-- There is no allocated block at an abandoned header. -/
theorem Abandoned.run_release (h : arena.Abandoned r cells o) (hkept : arena.Kept r cells steps)
    (hadmits : r.Admits o) :
    (release (r.payload o)).run arena = .error (.corrupt (
      if ∃ b ∈ arena.blocks, b.offset = o then .doubleRelease (r.payload o)
      else .leadingCanary o)) arena := by
  have hlies := hkept.tidy.lies
  unfold release
  rw [Act.run_bind_ok (EStateM.run_get _), if_neg (not_ignored hkept.region hlies o)]
  refine Act.run_bind_error ?_
  rw [Act.run_allocatedAt_payload hkept.region hadmits (hlies.admits_iff.mp hadmits).2]
  by_cases ho : o ∈ offsets r.footprint cells
  · rw [if_pos (hkept.mem_offsets_iff.mp ho)]
    obtain ⟨c, hc⟩ := mem_offsets.mp ho
    obtain ⟨_, hdescribes⟩ := hkept.tidy.held.describes hc
    have hfree : c.allocated = false := by
      by_contra hallocated
      rw [Bool.not_eq_false] at hallocated
      have hunused := h.unused _ hc hallocated
      have hpos := r.footprint_pos
      simp only at hunused
      omega
    rw [hdescribes.check?, hdescribes.isFree, hfree]
    rfl
  · rw [if_neg (mt hkept.mem_offsets_iff.mpr ho)]
    have hleading : (r.headerAt arena.memory o).leading ≠ Header.leadingCanary := by
      have hbytes := r.byteCount_le_footprint
      unfold Header.byteCount at hbytes
      have hzero : arena.memory.word (r.base + o) = 0 :=
        Memory.word_eq_zero fun a hlow hhigh => h.blank ho a ⟨hlow, by omega⟩
      show (arena.memory.word (r.base + o)).toNat ≠ _
      rw [hzero]
      decide
    have hcheck : (r.headerAt arena.memory o).check? o = some (.leadingCanary o) := if_pos hleading
    rw [hcheck]

/-- **A second release is always noticed.**  A live block can be released, and after that every
run that allocates nothing, whatever it writes and releases, leads to an arena that refuses the
address and is not changed by it.  The block is free if it is still there; if it became part of
one before it, there is no canary where its header was. -/
theorem Runs.double_release_detected {config : Config} {memory : Memory} {tracer : τ}
    {history : List (Step × Option Nat)} (hcreate : create config memory tracer = .ok first)
    (hruns : Runs first history last) {b : Block} {address : Nat} (hlive : last.Live b address) :
    ∃ mid, (release address).run last = .ok () mid ∧
      ∀ later final, Runs mid later final → (∀ x ∈ later, ∀ n, x.1 ≠ .allocate n) →
        (release address).run final = .error (.corrupt (
          if ∃ b' ∈ final.blocks, b'.offset = b.offset then .doubleRelease address
          else .leadingCanary b.offset)) final := by
  have husable := hruns.usable (usable_of_mem_blocks hlive.1)
  obtain ⟨cells, -, hkept, hword⟩ := hruns.reaches hcreate husable
  obtain ⟨p, hp, hallocated, rfl, rfl⟩ := hkept.live_iff.mp hlive
  obtain ⟨hdvd, hfits⟩ := hkept.tidy.place_fits hp
  have hadmits := hkept.tidy.lies.admits_iff.mpr ⟨hdvd, Nat.le_of_add_right_le hfits⟩
  obtain ⟨mid, after, hrun, hmid, hvacates⟩ := hkept.vacates_release hword hlive
  refine ⟨mid, (run_step_release_iff.mp hrun).2, fun later final hlater hnone => ?_⟩
  obtain ⟨cells', hfinal, habandoned⟩ :=
    hlater.abandoned (hvacates.abandons hp) hmid (hvacates.allocs ▸ hword) hnone
  exact habandoned.run_release hfinal hadmits

theorem double_release_detected_sample :
    ∃ first last mid final : Arena Silent, create {} sample ⟨⟩ = .ok first ∧
      Runs first [(.allocate 8, some 4152), (.allocate 16, some 4216),
        (.write 4216 [0x55, 0xAA, 0x00, 0xFF], none)] last ∧
      (release 4216).run last = .ok () mid ∧
      (release 4216).run mid = .error (.corrupt (.doubleRelease 4216)) mid ∧
      Runs mid [(.write 4152 [0x55, 0xAA], none), (.release 4152, none)] final ∧
      (release 4216).run final = .error (.corrupt (.leadingCanary 64)) final := by
  obtain ⟨first, last, hcreate, -, hruns, hkept⟩ := @exists_sample_run
    [.allocate 8, .allocate 16, .write 4216 [0x55, 0xAA, 0x00, 0xFF]] [some 4152, some 4216, none]
    [⟨8, true⟩, ⟨16, true⟩, ⟨8, false⟩] (by decide +kernel) (by decide)
  obtain ⟨mid, hfirst, hmid⟩ := @Kept.run_of_cells _ last _ _ _ _ [.release 4216] [none]
    [⟨8, true⟩, ⟨80, false⟩] hkept (by decide +kernel) (by decide +kernel) (by decide)
  obtain ⟨final, hlater, hfinal⟩ := @Kept.run_of_cells _ mid _ _ _ _
    [.write 4152 [0x55, 0xAA], .release 4152] [none, none] [⟨144, false⟩] hmid (by decide +kernel)
    (by decide +kernel) (by decide)
  cases hfirst with
  | cons hallows hstep hnil =>
    cases hnil
    obtain ⟨-, hrelease⟩ := run_step_release_iff.mp hstep
    obtain ⟨b, hlive⟩ := hallows.resolve_left (by decide)
    have hoffset : b.offset = 64 := by
      have haddress : 4216 = last.region.base + b.offset + last.region.footprint := hlive.2.2
      have hbase : (Region.within ({} : Config).unit sample).base = 4096 := by decide +kernel
      have hfootprint : (Region.within ({} : Config).unit sample).footprint = 56 := by
        decide +kernel
      rw [hkept.region, hbase, hfootprint] at haddress
      omega
    obtain ⟨mid', hmid', hrefused⟩ := Runs.double_release_detected hcreate hruns hlive
    rw [hrelease] at hmid'
    cases hmid'
    refine ⟨first, last, mid, final, hcreate, hruns, hrelease, ?_, hlater, ?_⟩
    · have hagain := hrefused [] mid (.nil mid) (by simp)
      rw [hoffset, if_pos (hmid.mem_offsets_iff.mp (by decide +kernel))] at hagain
      exact hagain
    · have hagain := hrefused _ final hlater (by simp)
      rw [hoffset, if_neg (mt hfinal.mem_offsets_iff.mpr (by decide +kernel))] at hagain
      exact hagain

end Arena

end FirstFit
