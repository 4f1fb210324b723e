/-
What becomes of a single damaged word in a header.

The words of a header depend on each other: a size is held against a link, a link back against
the block it was reached from, a flag against those of the neighbours.  So nearly every word of a
sound chain is settled by the others, and if one is overwritten, verification says so and says
where.  `Region.damage?` tells what it reports, for each word and each value; for three changes
that is nothing, as the chain is still a sound one then.

The walk comes to the damaged block as it did before (`Region.Completes.passage`), and what it
finds there is one case for each word (`Region.Completes.defectBehind?_eq_damage?`).
-/
import FirstFit.Proofs.Geometry
import FirstFit.Proofs.Passage
import FirstFit.Proofs.Runs

namespace FirstFit

open Relation (ReflTransGen)

/-! ### One word of a header -/

/-- A number that is a link to somewhere is one to the offset of that number. -/
theorem Link.ofNat_of_ne_none {n : Nat} (h : Link.ofNat n ≠ none) : Link.ofNat n = some n := by
  unfold ofNat at h ⊢
  split at h
  · exact absurd rfl h
  · next hne => rw [if_neg hne]

namespace Header

variable {h : Header} {field : Field} {w : UInt64}

/-- The header with another word in one of its fields. -/
def withWord (h : Header) (w : UInt64) : Field → Header
  | .leading => { h with leading := w.toNat }
  | .size => { h with size := w.toNat }
  | .flag => { h with flag := w.toNat }
  | .prev => { h with prev := .ofNat w.toNat }
  | .next => { h with next := .ofNat w.toNat }
  | .trace => { h with trace := Token.ofWord? w }
  | .trailing => { h with trailing := w.toNat }

@[simp] theorem toWord_withWord : (h.withWord w field).toWord field = w := by
  cases field <;> simp [withWord, toWord]

theorem ofWords_withWord (word : Field → UInt64) :
    (ofWords word).withWord w field = ofWords fun f => if f = field then w else word f := by
  cases field <;> rfl

theorem Field.position_apart {f g : Field} (hne : f ≠ g) :
    f.position + 8 ≤ g.position ∨ g.position + 8 ≤ f.position := by
  cases f <;> cases g <;> first | exact absurd rfl hne | decide

theorem Field.position_le (field : Field) : field.position + 8 ≤ byteCount := by
  cases field <;> decide

end Header

namespace Memory

variable {m : Memory} {a c : Nat} {field : Header.Field}

theorem header_setWord (w : UInt64) (hm : m.Covers a Header.byteCount) :
    (m.setWord (a + field.position) w).header a = (m.header a).withWord w field := by
  have hle := field.position_le
  unfold header
  rw [Header.ofWords_withWord]
  congr 1
  funext f
  by_cases hf : f = field
  · subst hf
    rw [if_pos rfl]
    refine word_setWord w ?_
    unfold Covers at hm ⊢
    omega
  · have hapart := Header.Field.position_apart hf
    rw [if_neg hf]
    exact word_setWord_of_disjoint w (by omega)

theorem header_setWord_of_disjoint (w : UInt64)
    (hac : c + Header.byteCount ≤ a ∨ a + Header.byteCount ≤ c) :
    (m.setWord (a + field.position) w).header c = m.header c := by
  have hle := field.position_le
  exact header_congr fun d hlow hhigh => byteAt_setWord_of_outside w (by omega)

end Memory

/-! ### What is reported -/

/-- What is reported of a block that names another predecessor than the block before it. -/
def Block.strayLink (b : Block) (found : Nat) : (before : Option Block) → Corruption
  | none => .firstBackLink found
  | some a => .backLink b.offset a.offset found

/-- What is reported if one word of a header in a sound chain is overwritten with another
number, given the blocks before and after it. -/
def Region.damage? (r : Region) (before : Option Block) (b : Block) (after : Option Block)
    (v : Nat) : Header.Field → Option Corruption
  | .leading => some (.leadingCanary b.offset)
  | .trailing => some (.trailingCanary b.offset)
  | .size => some (.tiling b.offset)
  | .next =>
    -- The end of the region is where the last block ends, so only there the link passes for one.
    if after = none ∧ v = r.capacity then some (.linkOutside v) else some (.tiling b.offset)
  | .prev => some (b.strayLink v before)
  | .flag =>
    if 1 < v then some (.flag b.offset v)
    else if v = 1 then none
    else ((before.filter Block.isFree).map fun a => .unmerged a.offset).or
      ((after.filter Block.isFree).map fun _ => .unmerged b.offset)
  | .trace => none

section Walks

variable {r : Region} {header header' : Nat → Header} {before : Option Block} {b : Block}
  {right : List Block} {field : Header.Field} {w : UInt64} {c : Corruption}

/-- Three changes go unnoticed. -/
theorem Region.damage?_eq_none_iff {after : Option Block} {v : Nat} :
    r.damage? before b after v field = none ↔
      field = .trace ∨ field = .flag ∧ (v = 1 ∨ v = 0 ∧ (∀ a ∈ before, a.isFree = false) ∧
        ∀ d ∈ after, d.isFree = false) := by
  cases field with
  | flag =>
    show (if 1 < v then _ else if v = 1 then _ else _) = none ↔ _
    by_cases hv : 1 < v
    · rw [if_pos hv]
      simp
      omega
    · by_cases hone : v = 1
      · simp [hone]
      · have hzero : v = 0 := by omega
        simp [hzero, Option.filter_eq_none_iff]
  | next =>
    show (if _ then _ else _) = none ↔ _
    split <;> simp
  | _ => simp [damage?]

/-! ### The damaged block -/

/-- A block is where a block can be, and nothing is wrong with its header. -/
structure Block.Sits (b : Block) (r : Region) (before : Option Block) : Prop where
  admits : r.Admits b.offset
  intact : b.header.Intact
  joins : b.Joins before
  tiles : r.Tiles b

theorem Region.clean_iff_sits {offset : Nat} :
    r.Clean header before offset ↔ Block.Sits ⟨offset, header offset⟩ r before := by
  rw [clean_iff_intact]
  constructor
  · intro h
    obtain ⟨admits, intact, joins, tiles⟩ := h
    exact ⟨admits, intact, joins, tiles⟩
  · intro h
    exact ⟨h.admits, h.intact, h.joins, h.tiles⟩

theorem Block.defect?_first (hintact : b.header.Intact) :
    b.defect? none = b.header.prev.map .firstBackLink := by
  unfold defect? check?
  rw [Header.intact_iff.mp hintact]
  simp

/-- A block behind another one has to link back to it, and one of them has to be allocated. -/
theorem Block.defect?_behind {a : Block} (hintact : b.header.Intact) :
    b.defect? (some a) =
      if b.header.prev = some a.offset then
        if a.isFree = true ∧ b.isFree = true then some (.unmerged a.offset) else none
      else some (.backLink b.offset a.offset (Link.toNat b.header.prev)) := by
  unfold defect? check?
  rw [Header.intact_iff.mp hintact]
  by_cases hprev : b.header.prev = some a.offset <;> simp [hprev]

theorem Block.defect?_eq_none (hintact : b.header.Intact) (hjoins : b.Joins before) :
    b.defect? before = none := by
  cases before with
  | none =>
    have hprev : b.header.prev = none := hjoins
    rw [defect?_first hintact, hprev]
    rfl
  | some a => rw [defect?_behind hintact, if_pos hjoins.1, if_neg hjoins.2]

namespace Walk

variable (hhere : header b.offset = b.header)

include hhere

/-- What is wrong with a header itself is reported before anything else. -/
theorem defectBehind?_of_defect? (hadmits : r.Admits b.offset)
    (hdefect : b.defect? before = some c) :
    (follow r header b.offset).defectBehind? before = some c := by
  refine (defectBehind?_follow before b.offset c).mpr ⟨_, .refl, ?_⟩
  refine Region.firstFailing_conditions.mpr (.inr ⟨hadmits, .inl ?_⟩)
  dsimp only
  rw [hhere]
  exact hdefect

theorem defectBehind?_of_check? (hadmits : r.Admits b.offset) (hcheck : b.check? = some c) :
    (follow r header b.offset).defectBehind? before = some c := by
  refine defectBehind?_of_defect? hhere hadmits ?_
  cases before <;> simp [Block.defect?, hcheck]

/-- What does not end where its link says is reported if its header is sound. -/
theorem defectBehind?_of_not_tiles (hadmits : r.Admits b.offset) (hintact : b.header.Intact)
    (hjoins : b.Joins before) (htiles : ¬ r.Tiles b) :
    (follow r header b.offset).defectBehind? before = some (.tiling b.offset) := by
  refine (defectBehind?_follow before b.offset _).mpr ⟨_, .refl, ?_⟩
  refine Region.firstFailing_conditions.mpr (.inr ⟨hadmits, .inr ?_⟩)
  dsimp only
  rw [hhere]
  exact ⟨Block.defect?_eq_none hintact hjoins, htiles, rfl⟩

theorem defectBehind?_of_sits {next : Nat} (hsits : b.Sits r before)
    (hlink : b.header.next = some next) :
    (follow r header b.offset).defectBehind? before =
      (follow r header next).defectBehind? (some b) := by
  have hb : Block.mk b.offset (header b.offset) = b := by rw [hhere]
  have hclean : r.Clean header before b.offset := Region.clean_iff_sits.mpr (hb ▸ hsits)
  have honward := defectBehind?_of_onward (.mk hclean (hhere ▸ hlink))
  rw [hb] at honward
  exact honward

end Walk

/-- Behind a block that has changed, what is left of a sound chain is walked to its end, if the
changed one is sound too and not free before a free one. -/
theorem Region.Completes.defectBehind?_of_sits {b' : Block}
    (h : r.Completes header before b.offset (b :: right))
    (hhere : header' b'.offset = b'.header) (hbehind : ∀ d ∈ right, header' d.offset = d.header)
    (hoffset : b'.offset = b.offset) (hnext : b'.header.next = b.header.next)
    (hsits : b'.Sits r before) :
    (Walk.follow r header' b'.offset).defectBehind? before =
      if b'.isFree = true ∧ ∃ d ∈ right.head?, d.isFree = true then some (.unmerged b'.offset)
      else none := by
  obtain ⟨hb, -, htail⟩ := completes_cons_iff.mp h
  rw [← (completes_iff.mp h).1 b List.mem_cons_self |>.2.1, ← hnext] at htail
  rcases htail with ⟨link, rfl⟩ | ⟨next, link, tail⟩
  · -- The changed block is the last one.
    have hb' : Block.mk b'.offset (header' b'.offset) = b' := by rw [hhere]
    have hclean : r.Clean header' before b'.offset := clean_iff_sits.mpr (hb' ▸ hsits)
    obtain ⟨hwalk, hnone⟩ := Walk.follow_of_completes (.last hclean (hhere ▸ link))
    rw [hwalk]
    simp [Walk.defectBehind?, hnone]
  · rw [Walk.defectBehind?_of_sits hhere hsits link]
    have hfound : ∀ d ∈ right, d.header = header d.offset :=
      fun d hd => ((completes_iff.mp tail).1 d hd).2.1
    cases right with
    | nil => cases tail
    | cons d rest =>
      obtain ⟨hd, hclean, -⟩ := completes_cons_iff.mp tail
      have hnext : next = d.offset := by rw [hd]
      subst hnext
      have hbefore := clean_iff_sits.mp hclean
      rw [← hd] at hbefore
      have hthere : header' d.offset = d.header := hbehind d List.mem_cons_self
      obtain ⟨hprev, -⟩ := hbefore.joins
      by_cases hboth : b'.isFree = true ∧ d.isFree = true
      · rw [if_pos ⟨hboth.1, d, rfl, hboth.2⟩]
        refine Walk.defectBehind?_of_defect? hthere hbefore.admits ?_
        rw [Block.defect?_behind hbefore.intact, hoffset, if_pos hprev, if_pos hboth]
      · have hjoins : d.Joins (some b') := ⟨hoffset ▸ hprev, hboth⟩
        have hclean' : r.Clean header' (some b') d.offset := by
          rw [clean_iff_sits, hthere]
          exact ⟨hbefore.admits, hbefore.intact, hjoins, hbefore.tiles⟩
        obtain ⟨hwalk, hnone⟩ := Walk.follow_of_completes
          (tail.resume (fun a ha => (hbehind a ha).trans (hfound a ha)) hclean')
        rw [hwalk, if_neg]
        · simp [Walk.defectBehind?, hnone]
        · intro hfree
          obtain ⟨hb'free, e, he, hefree⟩ := hfree
          rw [List.head?_cons, Option.mem_some_iff] at he
          exact hboth ⟨hb'free, he ▸ hefree⟩

/-! ### The damaged word -/

/-- The block with another word in one of the fields of its header. -/
def Block.withWord (b : Block) (w : UInt64) (field : Header.Field) : Block :=
  ⟨b.offset, b.header.withWord w field⟩

@[simp] theorem Block.offset_withWord : (b.withWord w field).offset = b.offset := rfl

theorem Block.Sits.intact_withWord (h : b.Sits r before) (hleading : field ≠ .leading)
    (htrailing : field ≠ .trailing) (hflag : field ≠ .flag) :
    (b.withWord w field).header.Intact := by
  obtain ⟨leading, trailing, flag⟩ := h.intact
  cases field with
  | leading => exact absurd rfl hleading
  | trailing => exact absurd rfl htrailing
  | flag => exact absurd rfl hflag
  | _ => exact ⟨leading, trailing, flag⟩

/-- The neighbours of a block look at its link back and at its flag. -/
theorem Block.Sits.joins_withWord (h : b.Sits r before) (hprev : field ≠ .prev)
    (hflag : field ≠ .flag) : (b.withWord w field).Joins before := by
  have hjoins := h.joins
  have hlink : (b.withWord w field).header.prev = b.header.prev := by
    cases field with
    | prev => exact absurd rfl hprev
    | _ => rfl
  have hfree : (b.withWord w field).isFree = b.isFree := by
    cases field with
    | flag => exact absurd rfl hflag
    | _ => rfl
  cases before with
  | none => exact hlink.trans hjoins
  | some a => exact ⟨hlink.trans hjoins.1, fun hboth => hjoins.2 ⟨hboth.1, hfree ▸ hboth.2⟩⟩

/-- A block with another size ends somewhere else than its link says. -/
theorem Block.Sits.not_tiles_size (h : b.Sits r before) (hne : w.toNat ≠ b.size) :
    ¬ r.Tiles (b.withWord w .size) := by
  intro htiles
  have hstop : r.stop (b.withWord w .size) = b.offset + r.footprint + w.toNat := rfl
  have hbefore := h.tiles
  unfold Region.Tiles at htiles hbefore
  rw [hstop] at htiles
  have hlink : (b.withWord w .size).header.next = b.header.next := rfl
  rw [hlink] at htiles
  unfold Region.stop at hbefore
  rcases htiles with hsome | ⟨hnone, hstop'⟩
  · rcases hbefore with hsome' | ⟨hnone', -⟩
    · rw [hsome, Option.some.injEq] at hsome'
      omega
    · rw [hsome] at hnone'
      cases hnone'
  · rcases hbefore with hsome' | ⟨-, hstop''⟩
    · rw [hnone] at hsome'
      cases hsome'
    · omega

/-- A block with another link ends where the link says only if it is the last one and the link
leads to the end of the region. -/
theorem Block.Sits.tiles_next_iff (h : b.Sits r before) (hne : Link.ofNat w.toNat ≠ b.header.next)
    (hlast : b.header.next ≠ none → r.stop b ≠ r.capacity) :
    r.Tiles (b.withWord w .next) ↔
      b.header.next = none ∧ Link.ofNat w.toNat = some r.capacity := by
  have hbefore := h.tiles
  show Link.ofNat w.toNat = some (r.stop b) ∨ Link.ofNat w.toNat = none ∧ r.stop b = r.capacity ↔ _
  rcases hbefore with hsome | ⟨hnone, hstop⟩
  · have hstop := hlast (by simp [hsome])
    rw [hsome] at hne
    simp [hsome, hne, hstop]
  · rw [hnone] at hne
    simp [hnone, hne, hstop]

/-- Only the last block ends with the region, and only it has no link. -/
theorem Region.Completes.link_cases (husable : r.Usable)
    (h : r.Completes header before b.offset (b :: right)) :
    b.header.next = none ∧ right = [] ∨
      b.header.next ≠ none ∧ right ≠ [] ∧ r.stop b ≠ r.capacity := by
  obtain ⟨hb, hclean, htail⟩ := completes_cons_iff.mp h
  have hsits := clean_iff_sits.mp hclean
  rw [← hb] at hsits
  have hfound : header b.offset = b.header := congrArg Block.header hb.symm
  rw [hfound] at htail
  rcases htail with hend | ⟨next, link, tail⟩
  · exact .inl hend
  · obtain ⟨hnext, hmem⟩ := tail.head
    have hle := (clean_iff_sits.mp hnext).admits.footprint_le husable
    have hpos := r.footprint_pos
    refine .inr ⟨by simp [link], List.ne_nil_of_mem hmem, ?_⟩
    rcases hsits.tiles with hsome | ⟨hnone, -⟩
    · rw [link, Option.some.injEq] at hsome
      dsimp only at hle
      omega
    · simp [link] at hnone

theorem Region.Completes.sits (h : r.Completes header before b.offset (b :: right)) :
    b.Sits r before := by
  obtain ⟨hb, hclean, -⟩ := completes_cons_iff.mp h
  have hsits := clean_iff_sits.mp hclean
  rw [← hb] at hsits
  exact hsits

namespace Walk

theorem defectBehind?_size (hsits : b.Sits r before)
    (hhere : header' b.offset = (b.withWord w .size).header) (hne : w.toNat ≠ b.size) :
    (follow r header' b.offset).defectBehind? before = some (.tiling b.offset) := by
  exact @defectBehind?_of_not_tiles r header' before (b.withWord w .size) hhere hsits.admits
    (hsits.intact_withWord (by simp) (by simp) (by simp)) (hsits.joins_withWord (by simp) (by simp))
    (hsits.not_tiles_size hne)

theorem defectBehind?_next (husable : r.Usable)
    (h : r.Completes header before b.offset (b :: right))
    (hhere : header' b.offset = (b.withWord w .next).header)
    (hne : Link.ofNat w.toNat ≠ b.header.next) :
    (follow r header' b.offset).defectBehind? before =
      r.damage? before b right.head? w.toNat .next := by
  have hsits := h.sits
  have hintact : (b.withWord w .next).header.Intact :=
    hsits.intact_withWord (by simp) (by simp) (by simp)
  have hjoins : (b.withWord w .next).Joins before := hsits.joins_withWord (by simp) (by simp)
  have hcases := h.link_cases husable
  have htiles := hsits.tiles_next_iff hne fun hsome => by
    rcases hcases with ⟨hnone, -⟩ | ⟨-, -, hstop⟩
    · exact absurd hnone hsome
    · exact hstop
  rcases hcases with ⟨hnone, rfl⟩ | ⟨hsome, hright, -⟩
  · rw [hnone] at hne
    have hlink : (b.withWord w .next).header.next = some w.toNat := Link.ofNat_of_ne_none hne
    rw [Link.ofNat_of_ne_none hne, Option.some.injEq] at htiles
    show _ = if _ then _ else _
    by_cases hvalue : w.toNat = r.capacity
    · -- The block still ends where its link says, but no header can be there.
      have hsits' : (b.withWord w .next).Sits r before :=
        ⟨hsits.admits, hintact, hjoins, htiles.mpr ⟨hnone, hvalue⟩⟩
      have houtside : ¬ r.Admits w.toNat := by
        intro hadmits
        have hle := hadmits.footprint_le husable
        have hpos := r.footprint_pos
        omega
      rw [if_pos ⟨rfl, hvalue⟩]
      refine (@defectBehind?_of_sits r header' before (b.withWord w .next) hhere _ hsits'
        hlink).trans ?_
      rw [follow_of_not_admits houtside]
      rfl
    · rw [if_neg fun hend => hvalue hend.2]
      exact @defectBehind?_of_not_tiles r header' before (b.withWord w .next) hhere hsits.admits
        hintact hjoins fun h => hvalue (htiles.mp h).2
  · show _ = if _ then _ else _
    rw [if_neg fun hend => hright (List.head?_eq_none_iff.mp hend.1)]
    exact @defectBehind?_of_not_tiles r header' before (b.withWord w .next) hhere hsits.admits
      hintact hjoins fun h => hsome (htiles.mp h).1

theorem defectBehind?_prev (hsits : b.Sits r before)
    (hhere : header' b.offset = (b.withWord w .prev).header)
    (hne : Link.ofNat w.toNat ≠ b.header.prev) :
    (follow r header' b.offset).defectBehind? before = some (b.strayLink w.toNat before) := by
  have hjoins := hsits.joins
  have hintact : (b.withWord w .prev).header.Intact :=
    hsits.intact_withWord (by simp) (by simp) (by simp)
  have hprev : (b.withWord w .prev).header.prev = Link.ofNat w.toNat := rfl
  refine @defectBehind?_of_defect? r header' before (b.withWord w .prev) _ hhere hsits.admits ?_
  cases before with
  | none =>
    have hnone : b.header.prev = none := hjoins
    rw [hnone] at hne
    rw [Block.defect?_first hintact, hprev, Link.ofNat_of_ne_none hne]
    rfl
  | some a =>
    rw [Block.defect?_behind hintact, hprev, if_neg (hjoins.1 ▸ hne), Link.toNat_ofNat]
    rfl

/-- A flag that is no flag is reported, and otherwise it is held against the neighbours. -/
theorem defectBehind?_flag (h : r.Completes header before b.offset (b :: right))
    (hhere : header' b.offset = (b.withWord w .flag).header)
    (hbehind : ∀ d ∈ right, header' d.offset = d.header) :
    (follow r header' b.offset).defectBehind? before =
      r.damage? before b right.head? w.toNat .flag := by
  have hsits := h.sits
  have hflag : (b.withWord w .flag).header.flag = w.toNat := rfl
  show _ = if _ then _ else _
  by_cases hlarge : 1 < w.toNat
  · rw [if_pos hlarge]
    refine @defectBehind?_of_check? r header' before (b.withWord w .flag) _ hhere hsits.admits ?_
    have hleading : (b.withWord w .flag).header.leading = Header.leadingCanary :=
      hsits.intact.leading
    have htrailing : (b.withWord w .flag).header.trailing = Header.trailingCanary :=
      hsits.intact.trailing
    simp [Block.check?, Header.check?, hleading, htrailing, hflag, hlarge]
  · have hintact : (b.withWord w .flag).header.Intact :=
      ⟨hsits.intact.leading, hsits.intact.trailing, by rw [hflag]; omega⟩
    have hfree : (b.withWord w .flag).isFree = true ↔ w.toNat = 0 := Header.isFree_iff
    rw [if_neg hlarge]
    by_cases hbefore : ∃ a ∈ before, a.isFree = true ∧ w.toNat = 0
    · obtain ⟨a, ha, hafree, hzero⟩ := hbefore
      rw [Option.mem_def] at ha
      subst ha
      rw [if_neg (by omega), Option.filter_some, if_pos hafree]
      refine @defectBehind?_of_defect? r header' (some a) (b.withWord w .flag) _ hhere
        hsits.admits ?_
      rw [Block.defect?_behind hintact]
      exact (if_pos hsits.joins.1).trans (if_pos ⟨hafree, hfree.mpr hzero⟩)
    · have hsits' : (b.withWord w .flag).Sits r before := by
        refine ⟨hsits.admits, hintact, ?_, hsits.tiles⟩
        have hjoins := hsits.joins
        cases before with
        | none => exact hjoins
        | some a => exact ⟨hjoins.1, fun hboth => hbefore ⟨a, rfl, hboth.1, hfree.mp hboth.2⟩⟩
      refine (@Region.Completes.defectBehind?_of_sits r header header' before b right
        (b.withWord w .flag) h hhere hbehind rfl rfl hsits').trans ?_
      by_cases hone : w.toNat = 1
      · rw [if_pos hone, if_neg]
        intro hboth
        have hzero := hfree.mp hboth.1
        omega
      · have hzero : w.toNat = 0 := by omega
        have hnone : before.filter Block.isFree = none := by
          refine Option.filter_eq_none_iff.mpr fun a ha hafree => hbefore ⟨a, ha, hafree, hzero⟩
        rw [if_neg hone, hnone, Option.map_none, Option.none_or]
        cases right.head? with
        | none => simp
        | some d => by_cases hd : d.isFree = true <;> simp [hfree.mpr hzero, hd, Option.filter_some]

end Walk

/-- **What a walk says of a chain with one damaged word.** -/
theorem Region.Completes.defectBehind?_eq_damage? (husable : r.Usable)
    (h : r.Completes header before b.offset (b :: right))
    (hhere : header' b.offset = b.header.withWord w field)
    (hbehind : ∀ d ∈ right, header' d.offset = d.header)
    (hne : b.header.withWord w field ≠ b.header) :
    (Walk.follow r header' b.offset).defectBehind? before =
      r.damage? before b right.head? w.toNat field := by
  have hintact := h.sits.intact
  have hadmits := h.sits.admits
  cases field with
  | leading =>
    have hvalue : w.toNat ≠ Header.leadingCanary := by
      intro heq
      rw [← hintact.leading] at heq
      exact hne (by rw [Header.withWord, heq])
    refine @Walk.defectBehind?_of_check? r header' before (b.withWord w .leading) _ hhere hadmits ?_
    simp [Block.check?, Header.check?, Block.withWord, Header.withWord, hvalue]
  | trailing =>
    have hvalue : w.toNat ≠ Header.trailingCanary := by
      intro heq
      rw [← hintact.trailing] at heq
      exact hne (by rw [Header.withWord, heq])
    refine @Walk.defectBehind?_of_check? r header' before (b.withWord w .trailing) _ hhere
      hadmits ?_
    simp [Block.check?, Header.check?, Block.withWord, Header.withWord, hvalue, hintact.leading]
  | size =>
    exact Walk.defectBehind?_size h.sits hhere fun heq => hne (by rw [Header.withWord, heq]; rfl)
  | next =>
    exact Walk.defectBehind?_next husable h hhere fun heq => hne (by rw [Header.withWord, heq])
  | prev =>
    exact Walk.defectBehind?_prev h.sits hhere fun heq => hne (by rw [Header.withWord, heq])
  | flag => exact Walk.defectBehind?_flag h hhere hbehind
  | trace =>
    -- Nothing but the trace has changed, so the walk says what it said of the sound chain.
    obtain ⟨hwalk, hnone⟩ := Walk.follow_of_completes h
    have hfound : ∀ d ∈ b :: right, header d.offset = d.header :=
      fun d hd => ((completes_iff.mp h).1 d hd).2.1.symm
    have hbefore := h.defectBehind?_of_sits (hfound b List.mem_cons_self)
      (fun d hd => hfound d (List.mem_cons_of_mem _ hd)) rfl rfl h.sits
    have hsits : (b.withWord w .trace).Sits r before :=
      ⟨hadmits, h.sits.intact_withWord (by simp) (by simp) (by simp),
        h.sits.joins_withWord (by simp) (by simp), h.sits.tiles⟩
    have hafter := @defectBehind?_of_sits r header header' before b right (b.withWord w .trace)
      h hhere hbehind rfl rfl hsits
    refine hafter.trans (hbefore.symm.trans ?_)
    rw [hwalk]
    simp [Walk.defectBehind?, hnone, damage?]

end Walks

namespace Arena

variable {τ : Type} {arena : Arena τ} {b : Block} {left right : List Block}
  {field : Header.Field} {w : UInt64}

/-- Overwrites one word of the header at an offset. -/
def overwriteAt (arena : Arena τ) (offset : Nat) (field : Header.Field) (w : UInt64) : Arena τ :=
  { arena with memory := arena.memory.setWord (arena.region.base + offset + field.position) w }

@[simp] theorem region_overwriteAt (arena : Arena τ) (offset : Nat) (field : Header.Field)
    (w : UInt64) : (arena.overwriteAt offset field w).region = arena.region :=
  Region.within_congr (Memory.start_setWord ..) (Memory.size_setWord ..)

theorem headerAt_overwriteAt (husable : arena.region.Usable)
    (hchain : Chain arena.region arena.headerAt (left ++ b :: right)) :
    (arena.overwriteAt b.offset field w).headerAt b.offset = b.header.withWord w field ∧
      ∀ a ∈ left ++ right,
        (arena.overwriteAt b.offset field w).headerAt a.offset = arena.headerAt a.offset := by
  have hlies : arena.region.Lies arena.memory := Region.lies_within husable
  have hb : b ∈ left ++ b :: right := by simp
  have hbytes := arena.region.byteCount_le_footprint
  obtain ⟨-, hbehind, hbefore⟩ := List.pairwise_append.mp hchain.stop_le
  unfold headerAt
  rw [region_overwriteAt]
  constructor
  · have hroom := (hlies.admits_iff.mp (hchain.admitted b hb)).2
    rw [hchain.found b hb]
    exact Memory.header_setWord w (hlies.covers hroom)
  · intro a ha
    refine Memory.header_setWord_of_disjoint w ?_
    rcases List.mem_append.mp ha with ha | ha
    · have hle := hbefore a ha b List.mem_cons_self
      unfold Region.stop at hle
      omega
    · have hle := (List.pairwise_cons.mp hbehind).1 a ha
      unfold Region.stop at hle
      omega

/-- **Verification notices every overwritten word of a header that matters to the chain, and
names its place.**  Of a sound chain it reports what `Region.damage?` says; so it is silent on a
token, on a free block that is marked allocated, and on an allocated block between others that is
marked free, and on no other change of one word. -/
theorem verify_locates_damaged_word (husable : arena.region.Usable) (hok : arena.verify = .ok ())
    (hblocks : arena.blocks = left ++ b :: right)
    (hchanged : w ≠ arena.memory.word (arena.region.base + b.offset + field.position)) :
    ((arena.overwriteAt b.offset field w).verify =
      match arena.region.damage? left.getLast? b right.head? w.toNat field with
      | none => .ok ()
      | some c => .error c) ∧
    ((arena.overwriteAt b.offset field w).verify = .ok () ↔
      field = .trace ∨ field = .flag ∧ (w = 1 ∨ w = 0 ∧
        (∀ a ∈ left.getLast?, a.isFree = false) ∧ ∀ d ∈ right.head?, d.isFree = false)) := by
  have hcompletes := completes_of_verify husable hok
  rw [hblocks] at hcompletes
  have hchain := Region.completes_iff_chain.mp hcompletes
  obtain ⟨hhere, hothers⟩ := @headerAt_overwriteAt τ arena b left right field w husable hchain
  obtain ⟨hreach, hrest⟩ := hcompletes.passage fun a ha => hothers a (List.mem_append_left _ ha)
  rw [Option.or_none] at hreach hrest
  have hne : b.header.withWord w field ≠ b.header := by
    intro heq
    rw [hchain.found b (by simp)] at heq
    have hword := congrArg (fun h : Header => h.toWord field) heq
    rw [Header.toWord_withWord] at hword
    exact hchanged (hword.trans (Memory.toWord_header _ _ _))
  have hbehind : ∀ d ∈ right, (arena.overwriteAt b.offset field w).headerAt d.offset = d.header :=
    fun d hd => (hothers d (List.mem_append_right _ hd)).trans (hchain.found d (by simp [hd])).symm
  have hverify := verify_eq_match (arena.overwriteAt b.offset field w)
    (by rw [region_overwriteAt]; exact husable)
  rw [region_overwriteAt, Walk.defectBehind?_of_reached hreach,
    hrest.defectBehind?_eq_damage? husable hhere hbehind hne] at hverify
  refine ⟨hverify, ?_⟩
  have hone : w.toNat = 1 ↔ w = 1 := UInt64.toNat_inj (b := 1)
  have hzero : w.toNat = 0 ↔ w = 0 := UInt64.toNat_inj (b := 0)
  rw [hverify, ← hone, ← hzero, ← Region.damage?_eq_none_iff]
  cases arena.region.damage? left.getLast? b right.head? w.toNat field <;> simp

/-- An allocated block at the start of a region, and the free one that is the rest of it. -/
def pairFront : Block := ⟨0, { Header.fresh 8 none (some 64) with flag := 1 }⟩

def pairBack : Block := ⟨64, .fresh 80 (some 0) none⟩

/-- An arena whose chain they are. -/
def pair : Arena Silent where
  config := {}
  memory := Memory.setHeader (Memory.setHeader sample 4096 pairFront.header) 4160 pairBack.header
  tracer := ⟨⟩

theorem verify_locates_damaged_word_pair :
    pair.region.Usable ∧ pair.verify = .ok () ∧ pair.blocks = [pairFront, pairBack] ∧
      (pair.overwriteAt pairBack.offset .next 200).verify = .error (.linkOutside 200) ∧
      (pair.overwriteAt pairFront.offset .flag 0).verify = .error (.unmerged 0) ∧
      (pair.overwriteAt pairBack.offset .flag 1).verify = .ok () := by
  -- One computation for all that is asked of the arena, whose bytes are costly to lay out.
  obtain ⟨husable, hok, hblocks, hlink, hfree, hused⟩ :
      pair.region.Usable ∧ pair.verify = .ok () ∧ pair.blocks = [pairFront, pairBack] ∧
        200 ≠ pair.memory.word (pair.region.base + 64 + Header.Field.next.position) ∧
        0 ≠ pair.memory.word (pair.region.base + 0 + Header.Field.flag.position) ∧
        1 ≠ pair.memory.word (pair.region.base + 64 + Header.Field.flag.position) := by
    decide +kernel
  have hback {field : Header.Field} {w : UInt64} :=
    @verify_locates_damaged_word Silent pair pairBack [pairFront] [] field w husable hok hblocks
  have hfront := @verify_locates_damaged_word Silent pair pairFront [] [pairBack] .flag 0 husable
    hok hblocks hfree
  refine ⟨husable, hok, hblocks, ?_, ?_, ?_⟩
  · exact (hback hlink).1.trans (by decide +kernel)
  · exact hfront.1.trans (by decide +kernel)
  · exact (hback hused).2.mpr (.inr ⟨rfl, .inl rfl⟩)

end Arena

end FirstFit
