/-
What a look at the whole chain tells.

`verify` walks along links that may be anything, and carries the block it came from.  Here
that walk is held against two things that are said without it.  If it finds no damage,
there is a `Chain`; if there is one, the walk meets exactly its blocks and finds nothing.
If it finds damage, that is the first condition that fails at the first block where one
fails, with the blocks taken in the order of the links.

`conditions` lists what is asked of one block in the order in which it is asked, and
`Onward` says how a walk gets from one block to the next.  Everything about a single block
is a `Judges` fact, and these are put together by `Judges.append`; the walk itself is
followed by one induction for each of the two halves.
-/
import Mathlib.Data.List.Chain
import Mathlib.Logic.Relation
import FirstFit.Arena
import FirstFit.Chain

namespace FirstFit

open Relation (ReflTransGen)

/-! ### Conditions in order -/

/-- The damage of the first condition that fails. -/
def FirstFailing (conditions : List (Prop × Corruption)) (c : Corruption) : Prop :=
  ∃ held p rest, conditions = held ++ (p, c) :: rest ∧ (∀ q ∈ held, q.1) ∧ ¬ p

/-- A search for damage that tries conditions in their order. -/
structure Judges (found : Option Corruption) (conditions : List (Prop × Corruption)) : Prop where
  none_iff : found = none ↔ ∀ q ∈ conditions, q.1
  some_iff : ∀ c, found = some c ↔ FirstFailing conditions c

theorem not_firstFailing {conditions : List (Prop × Corruption)} {c : Corruption}
    (h : ∀ q ∈ conditions, q.1) : ¬ FirstFailing conditions c := by
  intro hfails
  obtain ⟨held, p, rest, rfl, -, hp⟩ := hfails
  exact hp (h (p, c) (by simp))

theorem firstFailing_cons {p : Prop} {c d : Corruption} {rest : List (Prop × Corruption)} :
    FirstFailing ((p, d) :: rest) c ↔ ¬ p ∧ c = d ∨ p ∧ FirstFailing rest c := by
  constructor
  · intro hfails
    obtain ⟨held, q, tail, heq, hheld, hq⟩ := hfails
    cases held with
    | nil =>
      simp only [List.nil_append, List.cons.injEq, Prod.mk.injEq] at heq
      obtain ⟨⟨rfl, rfl⟩, rfl⟩ := heq
      exact .inl ⟨hq, rfl⟩
    | cons x held =>
      simp only [List.cons_append, List.cons.injEq] at heq
      obtain ⟨rfl, rfl⟩ := heq
      exact .inr ⟨hheld (p, d) List.mem_cons_self, held, q, tail, rfl,
        fun y hy => hheld y (List.mem_cons_of_mem _ hy), hq⟩
  · intro hfails
    rcases hfails with ⟨hp, rfl⟩ | ⟨hp, held, q, tail, rfl, hheld, hq⟩
    · exact ⟨[], p, rest, rfl, by simp, hp⟩
    · refine ⟨(p, d) :: held, q, tail, rfl, ?_, hq⟩
      intro y hy
      rcases List.mem_cons.mp hy with rfl | hy
      · exact hp
      · exact hheld y hy

theorem firstFailing_append {xs ys : List (Prop × Corruption)} {c : Corruption} :
    FirstFailing (xs ++ ys) c ↔ FirstFailing xs c ∨ (∀ q ∈ xs, q.1) ∧ FirstFailing ys c := by
  induction xs with
  | nil =>
    have hnil : ¬ FirstFailing [] c := not_firstFailing (by simp)
    simp [hnil]
  | cons x xs ih =>
    obtain ⟨p, d⟩ := x
    rw [List.cons_append, firstFailing_cons, firstFailing_cons, ih]
    by_cases hp : p <;> simp [hp]

/-- If not all conditions hold, one of them fails first. -/
theorem exists_firstFailing {conditions : List (Prop × Corruption)}
    (h : ¬ ∀ q ∈ conditions, q.1) : ∃ c, FirstFailing conditions c := by
  induction conditions with
  | nil => simp at h
  | cons x rest ih =>
    obtain ⟨p, d⟩ := x
    by_cases hp : p
    · have hrest : ¬ ∀ q ∈ rest, q.1 := by
        intro hall
        refine h fun q hq => ?_
        rcases List.mem_cons.mp hq with rfl | hq
        · exact hp
        · exact hall q hq
      obtain ⟨c, hc⟩ := ih hrest
      exact ⟨c, firstFailing_cons.mpr (.inr ⟨hp, hc⟩)⟩
    · exact ⟨d, firstFailing_cons.mpr (.inl ⟨hp, rfl⟩)⟩

theorem Judges.single {p : Prop} [Decidable p] (c : Corruption) :
    Judges (if p then none else some c) [(p, c)] := by
  have hnil : ∀ d, ¬ FirstFailing [] d := fun d => not_firstFailing (by simp)
  constructor
  · by_cases hp : p <;> simp [hp]
  · intro d
    rw [firstFailing_cons]
    by_cases hp : p <;> simp [hp, hnil, eq_comm]

theorem Judges.append {found found' : Option Corruption} {xs ys : List (Prop × Corruption)}
    (hx : Judges found xs) (hy : Judges found' ys) : Judges (found <|> found') (xs ++ ys) := by
  cases hfound : found with
  | none =>
    have hall := hx.none_iff.mp hfound
    constructor
    · rw [Option.orElse_eq_orElse, Option.orElse_eq_or, Option.none_or, hy.none_iff]
      simp only [List.mem_append]
      exact ⟨fun h q hq => hq.elim (hall q) (h q), fun h q hq => h q (.inr hq)⟩
    · intro c
      rw [Option.orElse_eq_orElse, Option.orElse_eq_or, Option.none_or, hy.some_iff,
        firstFailing_append]
      exact ⟨fun h => .inr ⟨hall, h⟩, fun h => h.elim (absurd · (not_firstFailing hall)) (·.2)⟩
  | some d =>
    have hd := (hx.some_iff d).mp hfound
    have hnot : ¬ ∀ q ∈ xs, q.1 := fun h => not_firstFailing h hd
    constructor
    · simp only [Option.orElse_eq_orElse, Option.orElse_eq_or, Option.some_or, reduceCtorEq,
        false_iff]
      exact fun h => hnot fun q hq => h q (List.mem_append_left _ hq)
    · intro c
      rw [Option.orElse_eq_orElse, Option.orElse_eq_or, Option.some_or, firstFailing_append,
        ← hx.some_iff, hfound]
      exact ⟨.inl, fun h => h.elim id fun h => absurd h.1 hnot⟩

/-! ### What is asked of one block -/

/-- What the header of a block has to say, given the block it was reached from. -/
def Block.conditions (b : Block) (before : Option Block) : List (Prop × Corruption) :=
  [(b.header.leading = Header.leadingCanary, .leadingCanary b.offset),
    (b.header.trailing = Header.trailingCanary, .trailingCanary b.offset),
    (b.header.flag ≤ 1, .flag b.offset b.header.flag)] ++
  match before with
  | none => [(b.header.prev = none, .firstBackLink (Link.toNat b.header.prev))]
  | some a =>
    [(b.header.prev = some a.offset, .backLink b.offset a.offset (Link.toNat b.header.prev)),
      (¬ (a.isFree = true ∧ b.isFree = true), .unmerged a.offset)]

/-- Whether a block ends where its link says: where the next one starts, or with the region. -/
def Region.Tiles (r : Region) (b : Block) : Prop :=
  b.header.next = some (r.stop b) ∨ b.header.next = none ∧ r.stop b = r.capacity

/-- All that is asked at an offset that was reached from `before`: that a header can be
there, that it is one, that it fits to the one before, and that its block ends where the
link says. -/
def Region.conditions (r : Region) (header : Nat → Header) (before : Option Block)
    (offset : Nat) : List (Prop × Corruption) :=
  (r.Admits offset, .linkOutside offset) ::
    Block.conditions ⟨offset, header offset⟩ before ++
      [(r.Tiles ⟨offset, header offset⟩, .tiling offset)]

/-- Nothing is wrong at an offset that was reached from `before`. -/
def Region.Clean (r : Region) (header : Nat → Header) (before : Option Block)
    (offset : Nat) : Prop :=
  ∀ q ∈ r.conditions header before offset, q.1

theorem Header.judges_check? (h : Header) (offset : Nat) :
    Judges (h.check? offset)
      [(h.leading = leadingCanary, .leadingCanary offset),
        (h.trailing = trailingCanary, .trailingCanary offset),
        (h.flag ≤ 1, .flag offset h.flag)] := by
  have hcheck : h.check? offset =
      ((if h.leading = leadingCanary then none else some (.leadingCanary offset))
        <|> (if h.trailing = trailingCanary then none else some (.trailingCanary offset))
        <|> (if h.flag ≤ 1 then none else some (.flag offset h.flag))) := by
    unfold check?
    by_cases hl : h.leading = leadingCanary <;> by_cases ht : h.trailing = trailingCanary <;>
      by_cases hf : h.flag ≤ 1 <;> simp [hl, ht, hf, Nat.lt_of_not_le, Nat.not_lt_of_le]
  rw [hcheck]
  exact (Judges.single _).append ((Judges.single _).append (Judges.single _))

theorem Block.judges_defect? (b : Block) (before : Option Block) :
    Judges (b.defect? before) (b.conditions before) := by
  cases before with
  | none =>
    have hlink : b.header.prev.map Corruption.firstBackLink =
        if b.header.prev = none then none
        else some (.firstBackLink (Link.toNat b.header.prev)) := by
      cases hp : b.header.prev <;> simp [Link.toNat]
    unfold defect? conditions check?
    rw [hlink]
    exact (Header.judges_check? ..).append (.single _)
  | some a =>
    have hmerged : (if a.isFree && b.isFree then some (Corruption.unmerged a.offset) else none) =
        if ¬ (a.isFree = true ∧ b.isFree = true) then none else some (.unmerged a.offset) := by
      by_cases ha : a.isFree = true <;> by_cases hb : b.isFree = true <;> simp [ha, hb]
    have hdefect : b.defect? (some a) = (b.check?
        <|> (if b.header.prev = some a.offset then none
          else some (.backLink b.offset a.offset (Link.toNat b.header.prev)))
        <|> (if a.isFree && b.isFree then some (.unmerged a.offset) else none)) := rfl
    rw [hdefect, hmerged]
    exact (Header.judges_check? ..).append ((Judges.single _).append (.single _))

/-- The three ways in which a walk can go on behind a block. -/
theorem Region.successor_cases (r : Region) (b : Block) :
    (r.successor b = .error (.tiling b.offset) ∧ ¬ r.Tiles b) ∨
      (r.successor b = .ok none ∧ b.header.next = none ∧ r.Tiles b) ∨
      (r.successor b = .ok (some (r.stop b)) ∧ b.header.next = some (r.stop b) ∧ r.Tiles b) := by
  unfold successor Tiles
  cases hnext : b.header.next with
  | none => by_cases hstop : r.stop b = r.capacity <;> simp [hstop]
  | some next =>
    by_cases hstop : next = r.stop b
    · subst hstop
      simp
    · simp [hstop]

section Conditions

variable {r : Region} {header : Nat → Header} {before : Option Block} {offset : Nat}

theorem Region.clean_iff :
    r.Clean header before offset ↔ r.Admits offset ∧
      (∀ q ∈ Block.conditions ⟨offset, header offset⟩ before, q.1) ∧
      r.Tiles ⟨offset, header offset⟩ := by
  simp only [Clean, conditions, List.cons_append, List.mem_cons, List.mem_append,
    List.not_mem_nil, or_false]
  constructor
  · intro h
    exact ⟨h _ (.inl rfl), fun q hq => h q (.inr (.inl hq)), h _ (.inr (.inr rfl))⟩
  · intro hall q hq
    obtain ⟨ha, hb, ht⟩ := hall
    rcases hq with rfl | hq | rfl
    · exact ha
    · exact hb q hq
    · exact ht

theorem Region.firstFailing_conditions {c : Corruption} :
    FirstFailing (r.conditions header before offset) c ↔
      (¬ r.Admits offset ∧ c = .linkOutside offset) ∨
      (r.Admits offset ∧
        ((Block.mk offset (header offset)).defect? before = some c ∨
          (Block.mk offset (header offset)).defect? before = none ∧
            ¬ r.Tiles ⟨offset, header offset⟩ ∧ c = .tiling offset)) := by
  have hnil : ¬ FirstFailing [] c := not_firstFailing (by simp)
  have hjudges := Block.judges_defect? ⟨offset, header offset⟩ before
  rw [conditions, List.cons_append, firstFailing_cons, firstFailing_append, firstFailing_cons,
    hjudges.some_iff, hjudges.none_iff]
  simp [hnil]

end Conditions

/-! ### From block to block -/

/-- One step of a walk: nothing is wrong where it is, and the link leads on. -/
inductive Region.Onward (r : Region) (header : Nat → Header) :
    Option Block × Nat → Option Block × Nat → Prop
  | mk {before : Option Block} {offset next : Nat} (clean : r.Clean header before offset)
      (link : (header offset).next = some next) :
      Onward r header (before, offset) (some ⟨offset, header offset⟩, next)

/-- A walk from an offset on that meets these blocks, comes to the end of the region and
finds nothing wrong. -/
inductive Region.Completes (r : Region) (header : Nat → Header) :
    Option Block → Nat → List Block → Prop
  | last {before : Option Block} {offset : Nat} (clean : r.Clean header before offset)
      (link : (header offset).next = none) :
      Completes r header before offset [⟨offset, header offset⟩]
  | more {before : Option Block} {offset next : Nat} {rest : List Block}
      (clean : r.Clean header before offset) (link : (header offset).next = some next)
      (tail : Completes r header (some ⟨offset, header offset⟩) next rest) :
      Completes r header before offset (⟨offset, header offset⟩ :: rest)

theorem Region.onward_iff {r : Region} {header : Nat → Header} {before : Option Block}
    {offset : Nat} {place : Option Block × Nat} :
    r.Onward header (before, offset) place ↔ r.Clean header before offset ∧
      ∃ next, (header offset).next = some next ∧ place = (some ⟨offset, header offset⟩, next) := by
  constructor
  · intro honward
    obtain ⟨clean, link⟩ := honward
    exact ⟨clean, _, link, rfl⟩
  · intro hclean
    obtain ⟨clean, next, link, rfl⟩ := hclean
    exact ⟨clean, link⟩

namespace Walk

variable {r : Region} {header : Nat → Header}

/-- What a walk says that was begun behind `before`. -/
def defectBehind? (w : Walk) (before : Option Block) : Option Corruption :=
  firstDefect? before w.blocks <|> w.defect

theorem defectBehind?_cons (b : Block) (w : Walk) (before : Option Block) :
    defectBehind? ⟨b :: w.blocks, w.defect⟩ before =
      (b.defect? before <|> w.defectBehind? (some b)) := by
  simp [defectBehind?, firstDefect?, Option.or_assoc]

theorem defect?_of_clean {before : Option Block} {offset : Nat}
    (h : r.Clean header before offset) :
    (Block.mk offset (header offset)).defect? before = none :=
  (Block.judges_defect? _ _).none_iff.mpr (Region.clean_iff.mp h).2.1

/-- Where something is wrong, the walk says what fails there first. -/
theorem defectBehind?_of_not_clean {before : Option Block} {offset : Nat}
    (hdirty : ¬ r.Clean header before offset) (c : Corruption) :
    (follow r header offset).defectBehind? before = some c ↔
      FirstFailing (r.conditions header before offset) c := by
  rw [Region.firstFailing_conditions]
  by_cases hadmits : r.Admits offset
  · simp only [hadmits, not_true_eq_false, false_and, true_and, false_or]
    by_cases htiles : r.Tiles ⟨offset, header offset⟩
    · -- The block tiles, so what is wrong is in its own header.
      obtain ⟨d, hd⟩ : ∃ d, (Block.mk offset (header offset)).defect? before = some d := by
        refine Option.ne_none_iff_exists'.mp fun hnone => hdirty ?_
        exact Region.clean_iff.mpr ⟨hadmits, (Block.judges_defect? _ _).none_iff.mp hnone, htiles⟩
      obtain ⟨w, hw⟩ : ∃ w : Walk,
          follow r header offset = ⟨⟨offset, header offset⟩ :: w.blocks, w.defect⟩ := by
        rcases r.successor_cases ⟨offset, header offset⟩ with
          ⟨hsucc, -⟩ | ⟨hsucc, -⟩ | ⟨hsucc, -⟩
        · exact ⟨⟨[], _⟩, follow_of_error hadmits hsucc⟩
        · exact ⟨⟨[], _⟩, follow_of_end hadmits hsucc⟩
        · exact ⟨_, follow_of_next hadmits hsucc⟩
      rw [hw, defectBehind?_cons, hd]
      simp
    · rcases r.successor_cases ⟨offset, header offset⟩ with
        ⟨hsucc, -⟩ | ⟨-, -, h⟩ | ⟨-, -, h⟩
      · rw [follow_of_error hadmits hsucc]
        cases hd : (Block.mk offset (header offset)).defect? before <;>
          simp [defectBehind?, firstDefect?, htiles, hd, eq_comm]
      · exact absurd h htiles
      · exact absurd h htiles
  · rw [follow_of_not_admits hadmits]
    simp [defectBehind?, firstDefect?, hadmits, eq_comm]

/-- What a walk makes of the place it is at: either something is wrong there, or it has come
to the end, or it goes on. -/
theorem follow_cases (r : Region) (header : Nat → Header) (before : Option Block) (offset : Nat) :
    ¬ r.Clean header before offset ∨
    (r.Clean header before offset ∧ (header offset).next = none ∧
      follow r header offset = ⟨[⟨offset, header offset⟩], none⟩) ∨
    ∃ next, r.Clean header before offset ∧ (header offset).next = some next ∧
      r.capacity + 1 - next < r.capacity + 1 - offset ∧
      follow r header offset = ⟨⟨offset, header offset⟩ :: (follow r header next).blocks,
        (follow r header next).defect⟩ := by
  by_cases hclean : r.Clean header before offset
  · obtain ⟨hadmits, -, htiles⟩ := Region.clean_iff.mp hclean
    rcases r.successor_cases ⟨offset, header offset⟩ with
      ⟨-, hnot⟩ | ⟨hsucc, hnext, -⟩ | ⟨hsucc, hnext, -⟩
    · exact absurd htiles hnot
    · exact .inr (.inl ⟨hclean, hnext, follow_of_end hadmits hsucc⟩)
    · exact .inr (.inr ⟨_, hclean, hnext, Region.rest_lt_of_successor hadmits hsucc,
        follow_of_next hadmits hsucc⟩)
  · exact .inl hclean

/-- Where nothing is wrong, the walk says what it says from the next block on. -/
theorem defectBehind?_of_onward {before : Option Block} {offset : Nat} {place : Option Block × Nat}
    (h : r.Onward header (before, offset) place) :
    (follow r header offset).defectBehind? before =
      (follow r header place.2).defectBehind? place.1 := by
  obtain ⟨clean, next, link, rfl⟩ := Region.onward_iff.mp h
  rcases follow_cases r header before offset with
    hdirty | ⟨-, hend, -⟩ | ⟨next', -, hnext, -, hw⟩
  · exact absurd clean hdirty
  · simp [link] at hend
  · rw [link, Option.some.injEq] at hnext
    subst hnext
    rw [hw, defectBehind?_cons, defect?_of_clean clean]
    simp

/-- The damage a walk finds is what fails first where it comes to. -/
theorem defectBehind?_follow (before : Option Block) (offset : Nat) (c : Corruption) :
    (follow r header offset).defectBehind? before = some c ↔
      ∃ place, ReflTransGen (r.Onward header) (before, offset) place ∧
        FirstFailing (r.conditions header place.1 place.2) c := by
  induction hn : r.capacity + 1 - offset using Nat.strong_induction_on
    generalizing before offset with
  | _ n ih =>
  rcases follow_cases r header before offset with
    hdirty | ⟨hclean, hend, hw⟩ | ⟨next, hclean, hnext, hlt, hw⟩
  · rw [defectBehind?_of_not_clean hdirty]
    constructor
    · intro h
      exact ⟨_, .refl, h⟩
    · intro hfails
      obtain ⟨place, hreach, h⟩ := hfails
      rcases hreach.cases_head with rfl | ⟨mid, hstep, -⟩
      · exact h
      · exact absurd (Region.onward_iff.mp hstep).1 hdirty
  · have hnone : (follow r header offset).defectBehind? before = none := by
      rw [hw]
      simp [defectBehind?, firstDefect?, defect?_of_clean hclean]
    rw [hnone]
    refine ⟨fun h => by simp at h, ?_⟩
    intro hfails
    obtain ⟨place, hreach, h⟩ := hfails
    rcases hreach.cases_head with rfl | ⟨mid, hstep, -⟩
    · exact absurd h (not_firstFailing hclean)
    · obtain ⟨-, next, hnext, -⟩ := Region.onward_iff.mp hstep
      rw [hend] at hnext
      simp at hnext
  · rw [defectBehind?_of_onward (.mk hclean hnext), ih _ (by omega) _ next rfl]
    constructor
    · intro hfails
      obtain ⟨place, hreach, h⟩ := hfails
      exact ⟨place, .head (.mk hclean hnext) hreach, h⟩
    · intro hfails
      obtain ⟨place, hreach, h⟩ := hfails
      rcases hreach.cases_head with rfl | ⟨mid, hstep, hrest⟩
      · exact absurd h (not_firstFailing hclean)
      · obtain ⟨-, next', hnext', rfl⟩ := Region.onward_iff.mp hstep
        rw [hnext, Option.some.injEq] at hnext'
        subst hnext'
        exact ⟨place, hrest, h⟩

/-- A walk that finds nothing wrong has met all blocks there are. -/
theorem completes_of_defectBehind? {before : Option Block} {offset : Nat}
    (h : (follow r header offset).defectBehind? before = none) :
    r.Completes header before offset (follow r header offset).blocks := by
  induction hn : r.capacity + 1 - offset using Nat.strong_induction_on
    generalizing before offset with
  | _ n ih =>
  rcases follow_cases r header before offset with
    hdirty | ⟨hclean, hend, hw⟩ | ⟨next, hclean, hnext, hlt, hw⟩
  · obtain ⟨c, hc⟩ := exists_firstFailing hdirty
    rw [(defectBehind?_of_not_clean hdirty c).mpr hc] at h
    simp at h
  · rw [hw]
    exact .last hclean hend
  · rw [hw] at h ⊢
    refine .more hclean hnext (ih _ (by omega) ?_ rfl)
    rw [defectBehind?_cons, defect?_of_clean hclean] at h
    simpa using h

/-- A walk meets the blocks that lead to the end, and finds nothing wrong with them. -/
theorem follow_of_completes {before : Option Block} {offset : Nat} {blocks : List Block}
    (h : r.Completes header before offset blocks) :
    follow r header offset = ⟨blocks, none⟩ ∧ firstDefect? before blocks = none := by
  induction h with
  | @last before offset clean link =>
    rcases follow_cases r header before offset with
      hdirty | ⟨-, -, hw⟩ | ⟨next, -, hnext, -⟩
    · exact absurd clean hdirty
    · exact ⟨hw, by simp [firstDefect?, defect?_of_clean clean]⟩
    · simp [link] at hnext
  | @more before offset next rest clean link tail ih =>
    rcases follow_cases r header before offset with
      hdirty | ⟨-, hend, -⟩ | ⟨next', -, hnext, -, hw⟩
    · exact absurd clean hdirty
    · simp [link] at hend
    · rw [link, Option.some.injEq] at hnext
      subst hnext
      exact ⟨by rw [hw, ih.1], by simp [firstDefect?, defect?_of_clean clean, ih.2]⟩

end Walk

/-! ### Walks that complete, and chains -/

/-- A block fits to the one before it, or to the start of the region. -/
def Block.Joins (b : Block) : Option Block → Prop
  | none => b.header.prev = none
  | some a => b.header.prev = some a.offset ∧ ¬ (a.isFree = true ∧ b.isFree = true)

section Chains

variable {r : Region} {header : Nat → Header} {before : Option Block} {offset : Nat}
  {blocks : List Block}

theorem Header.intact_iff_le {h : Header} :
    h.Intact ↔ h.leading = leadingCanary ∧ h.trailing = trailingCanary ∧ h.flag ≤ 1 := by
  rw [@Header.intact_iff h 0, Header.check?_eq_none_iff]

theorem Region.clean_iff_intact :
    r.Clean header before offset ↔ r.Admits offset ∧ (header offset).Intact ∧
      Block.Joins ⟨offset, header offset⟩ before ∧ r.Tiles ⟨offset, header offset⟩ := by
  rw [Region.clean_iff, Header.intact_iff_le]
  cases before <;> simp [Block.conditions, Block.Joins, and_assoc]

/-- The blocks of a completed walk, said of each block and of each two neighbours. -/
theorem Region.completes_iff :
    r.Completes header before offset blocks ↔
      (∀ b ∈ blocks, r.Admits b.offset ∧ b.header = header b.offset ∧ b.header.Intact) ∧
      (∃ b, blocks.head? = some b ∧ b.offset = offset ∧ b.Joins before) ∧
      (∃ b, blocks.getLast? = some b ∧ r.stop b = r.capacity ∧ b.header.next = none) ∧
      blocks.IsChain (Block.Precedes r) := by
  constructor
  · intro h
    induction h with
    | @last before offset clean link =>
      obtain ⟨hadmits, hintact, hjoins, htiles⟩ := clean_iff_intact.mp clean
      have hstop : r.stop ⟨offset, header offset⟩ = r.capacity := by
        rcases htiles with h | h
        · rw [link] at h
          simp at h
        · exact h.2
      exact ⟨by simp [hadmits, hintact], ⟨_, rfl, rfl, hjoins⟩, ⟨_, rfl, hstop, link⟩,
        .singleton _⟩
    | @more before offset next rest clean link tail ih =>
      obtain ⟨hadmits, hintact, hjoins, htiles⟩ := clean_iff_intact.mp clean
      obtain ⟨hall, ⟨b, hhead, hoffset, hb⟩, ⟨z, hlast, hz⟩, hchain⟩ := ih
      have hstop : r.stop ⟨offset, header offset⟩ = b.offset := by
        rcases htiles with h | h
        · rw [link, Option.some.injEq] at h
          omega
        · rw [link] at h
          simp at h
      refine ⟨?_, ⟨_, rfl, rfl, hjoins⟩, ⟨z, ?_, hz⟩, ?_⟩
      · intro x hx
        rcases List.mem_cons.mp hx with rfl | hx
        · exact ⟨hadmits, rfl, hintact⟩
        · exact hall x hx
      · rw [List.getLast?_cons, hlast]
        rfl
      · refine List.isChain_cons.mpr ⟨fun y hy => ?_, hchain⟩
        rw [hhead, Option.mem_some_iff] at hy
        subst hy
        exact ⟨hstop, by rw [link, hoffset], hb.1, hb.2⟩
  · intro h
    induction blocks generalizing before offset with
    | nil =>
      obtain ⟨-, ⟨b, hhead, -⟩, -⟩ := h
      simp at hhead
    | cons b rest ih =>
      obtain ⟨hall, ⟨b', hhead, rfl, hjoins⟩, ⟨z, hlast, hstop, hend⟩, hchain⟩ := h
      rw [List.head?_cons, Option.some.injEq] at hhead
      subst hhead
      obtain ⟨hadmits, hfound, hintact⟩ := hall b List.mem_cons_self
      have hb : b = ⟨b.offset, header b.offset⟩ := by
        rw [← hfound]
      cases rest with
      | nil =>
        rw [List.getLast?_singleton, Option.some.injEq] at hlast
        subst hlast
        rw [hb]
        refine .last (clean_iff_intact.mpr ⟨hadmits, hfound ▸ hintact, hb ▸ hjoins, ?_⟩)
          (hfound ▸ hend)
        rw [← hb]
        exact .inr ⟨hend, hstop⟩
      | cons c rest =>
        rw [List.isChain_cons_cons] at hchain
        obtain ⟨hprecedes, hchain⟩ := hchain
        have htail := @ih (some b) c.offset
          ⟨fun x hx => hall x (List.mem_cons_of_mem _ hx),
            ⟨c, rfl, rfl, hprecedes.prev, hprecedes.merged⟩,
            ⟨z, by simpa [List.getLast?_cons] using hlast, hstop, hend⟩, hchain⟩
        rw [hb] at htail ⊢
        refine .more (clean_iff_intact.mpr ⟨hadmits, hfound ▸ hintact, hb ▸ hjoins, ?_⟩)
          (hfound ▸ hprecedes.next) htail
        rw [← hb]
        exact .inl (by rw [hprecedes.next, hprecedes.tiles])

/-- A chain is what a walk from the start of the region completes. -/
theorem Region.completes_iff_chain :
    r.Completes header none 0 blocks ↔ Chain r header blocks := by
  rw [completes_iff, List.isChain_iff_getElem]
  constructor
  · intro hsound
    obtain ⟨hall, hfirst, hlast, hchain⟩ := hsound
    refine ⟨fun b hb => (hall b hb).1, fun b hb => (hall b hb).2.1, fun b hb => (hall b hb).2.2,
      hfirst, hlast, ?_⟩
    intro i a b ha hb
    obtain ⟨hi, rfl⟩ := List.getElem?_eq_some_iff.mp ha
    obtain ⟨hj, rfl⟩ := List.getElem?_eq_some_iff.mp hb
    exact hchain i hj
  · intro h
    refine ⟨fun b hb => ⟨h.admitted b hb, h.found b hb, h.intact b hb⟩, h.first, h.last, ?_⟩
    intro i hi
    exact h.consecutive i _ _ (List.getElem?_eq_getElem _) (List.getElem?_eq_getElem hi)

/-- **A walk along a sound chain meets its blocks and nothing else, and has no complaint.** -/
theorem Chain.follow_eq (h : Chain r header blocks) :
    Walk.follow r header 0 = ⟨blocks, none⟩ ∧ Walk.firstDefect? none blocks = none :=
  Walk.follow_of_completes (Region.completes_iff_chain.mpr h)

/-- Where each block starts at the end of the one before it, none reaches into one that comes
after it. -/
theorem Region.pairwise_stop_le (h : blocks.IsChain fun a b => r.stop a = b.offset) :
    blocks.Pairwise fun a b => r.stop a ≤ b.offset := by
  have : Trans (fun a b : Block => r.stop a ≤ b.offset) (fun a b : Block => r.stop a ≤ b.offset)
      (fun a b : Block => r.stop a ≤ b.offset) := by
    refine ⟨fun {a b c} hab hbc => ?_⟩
    unfold stop at hab hbc ⊢
    omega
  exact List.isChain_iff_pairwise.mp (h.imp fun a b hab => Nat.le_of_eq hab)

/-- No block of a chain reaches into one that comes after it. -/
theorem Chain.stop_le (h : Chain r header blocks) :
    blocks.Pairwise fun a b => r.stop a ≤ b.offset := by
  obtain ⟨-, -, -, hchain⟩ := Region.completes_iff.mp (Region.completes_iff_chain.mpr h)
  exact Region.pairwise_stop_le (hchain.imp fun a b hab => hab.tiles)

theorem Chain.offset_lt (h : Chain r header blocks) :
    blocks.Pairwise fun a b => a.offset < b.offset := by
  refine h.stop_le.imp fun {a b} hab => ?_
  have hpos := r.footprint_pos
  unfold Region.stop at hab
  omega

end Chains

namespace Arena

variable {τ : Type}

theorem walk_of_usable {arena : Arena τ} (husable : arena.region.Usable) :
    arena.walk = .follow arena.region arena.headerAt 0 := by
  unfold walk Walk.through
  rw [if_pos husable]
  rfl

theorem verify_eq_match (arena : Arena τ) (husable : arena.region.Usable) :
    arena.verify =
      match (Walk.follow arena.region arena.headerAt 0).defectBehind? none with
      | none => .ok ()
      | some c => .error c := by
  unfold verify
  rw [walk_of_usable husable]
  rfl

/-- **Verification finds nothing wrong exactly if the headers in the memory are a sound chain,
and otherwise reports what fails first at the first place where something fails.** -/
theorem verify_decides_chain (arena : Arena τ) (husable : arena.region.Usable) :
    (arena.verify = .ok () ↔ ∃ blocks, Chain arena.region arena.headerAt blocks ∧
      blocks.Pairwise fun a b => a.offset < b.offset) ∧
    ∀ c, arena.verify = .error c ↔ ∃ before offset,
      ReflTransGen (arena.region.Onward arena.headerAt) (none, 0) (before, offset) ∧
        FirstFailing (arena.region.conditions arena.headerAt before offset) c := by
  constructor
  · constructor
    · intro hok
      have hnone : (Walk.follow arena.region arena.headerAt 0).defectBehind? none = none := by
        rw [verify_eq_match arena husable] at hok
        split at hok
        · assumption
        · simp at hok
      have hchain := Region.completes_iff_chain.mp (Walk.completes_of_defectBehind? hnone)
      exact ⟨_, hchain, hchain.offset_lt⟩
    · intro hexists
      obtain ⟨blocks, hchain, -⟩ := hexists
      obtain ⟨hwalk, hclean⟩ := hchain.follow_eq
      rw [verify_eq_match arena husable, hwalk]
      simp [Walk.defectBehind?, hclean]
  · intro c
    have hiff := @Walk.defectBehind?_follow arena.region arena.headerAt none 0 c
    rw [verify_eq_match arena husable]
    constructor
    · intro herror
      split at herror
      · simp at herror
      · next d hd =>
        rw [Except.error.injEq] at herror
        subst herror
        obtain ⟨⟨before, offset⟩, hreach, hfails⟩ := hiff.mp hd
        exact ⟨before, offset, hreach, hfails⟩
    · intro hreported
      obtain ⟨before, offset, hreach, hfails⟩ := hreported
      rw [hiff.mpr ⟨(before, offset), hreach, hfails⟩]

/-- A memory that was never cleared, with one header in front that leads to where there is
none. -/
def astray : Arena Silent where
  config := {}
  memory := Memory.setHeader
    ⟨4096, Memory.repeated 200 165, by rw [Memory.size_repeated]; decide,
      by rw [Memory.size_repeated]; decide⟩
    4096 (.fresh 8 none (some 64))
  tracer := ⟨⟩

theorem verify_decides_chain_astray :
    astray.region.Usable ∧ astray.verify = .error (.leadingCanary 64) ∧ ∃ before offset,
      ReflTransGen (astray.region.Onward astray.headerAt) (none, 0) (before, offset) ∧
        FirstFailing (astray.region.conditions astray.headerAt before offset)
          (.leadingCanary 64) := by
  have husable : astray.region.Usable := by decide +kernel
  have hverify : astray.verify = .error (.leadingCanary 64) := by decide +kernel
  exact ⟨husable, hverify, ((verify_decides_chain astray husable).2 _).mp hverify⟩

end Arena

end FirstFit
