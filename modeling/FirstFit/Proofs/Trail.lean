/-
Where walks come to, whatever the memory holds.

A `Region.Trail` is a list of blocks each of which leads to the next one.  Nothing is asked of
what the headers say beside that, so it says what a walk knows of its way when every byte may be
anything, and the blocks a walk meets are the longest trail there is (`Walk.trail_iff_prefix`).
All bounds are read off the trail: each block starts at the end of the one before it, at least a
footprint further on, and a header is only looked at if it lies in the region.

Verification, the list of blocks and the search for a free one ask different questions of the
same way, and each stops where its question is decided.  `Question.visited` is how far each of
them gets.  That it looks at nothing else is said in terms of its answer: that answer is the same
in every other memory that has the same headers there (`Walk.same_of_visited`).
-/
import Mathlib.Algebra.GroupWithZero.Nat
import FirstFit.Proofs.Verdict

namespace FirstFit

/-! ### Trails -/

/-- A block leads to the one that starts at its end. -/
structure Block.Leads (r : Region) (a b : Block) : Prop where
  next : a.header.next = some b.offset
  tiles : r.stop a = b.offset

/-- Blocks that are met one after the other from an offset on. -/
structure Region.Trail (r : Region) (header : Nat → Header) (offset : Nat)
    (blocks : List Block) : Prop where
  starts : ∀ b ∈ blocks.head?, b.offset = offset
  /-- Each header is where the region allows one, and it is the one in the memory. -/
  admitted : ∀ b ∈ blocks, r.Admits b.offset
  found : ∀ b ∈ blocks, b.header = header b.offset
  leads : blocks.IsChain (Block.Leads r)

section Trails

variable {r : Region} {header header' : Nat → Header} {offset next : Nat} {b : Block}
  {blocks rest : List Block}

theorem Region.successor_eq_some_iff :
    r.successor b = .ok (some next) ↔ b.header.next = some next ∧ r.stop b = next := by
  rcases r.successor_cases b with ⟨hsucc, htiles⟩ | ⟨hsucc, hnext, -⟩ | ⟨hsucc, hnext, -⟩
  · rw [hsucc]
    refine iff_of_false (by simp) fun h => htiles ?_
    obtain ⟨hnext, rfl⟩ := h
    exact .inl hnext
  · simp [hsucc, hnext]
  · simp [hsucc, hnext]

theorem Region.trail_nil : r.Trail header offset [] := ⟨by simp, by simp, by simp, .nil⟩

/-- A trail goes on where the first block leads to, if it goes on at all. -/
theorem Region.trail_cons_iff :
    r.Trail header offset (b :: rest) ↔ b = ⟨offset, header offset⟩ ∧ r.Admits offset ∧
      (rest = [] ∨ ∃ next, r.successor b = .ok (some next) ∧ r.Trail header next rest) := by
  constructor
  · intro h
    obtain rfl : b.offset = offset := h.starts b rfl
    have hb : b = ⟨b.offset, header b.offset⟩ := by
      rw [← h.found b List.mem_cons_self]
    refine ⟨hb, h.admitted b List.mem_cons_self, ?_⟩
    obtain ⟨hlead, htail⟩ := List.isChain_cons.mp h.leads
    cases rest with
    | nil => exact .inl rfl
    | cons c rest =>
      obtain ⟨hnext, htiles⟩ := hlead c rfl
      refine .inr ⟨c.offset, successor_eq_some_iff.mpr ⟨hnext, htiles⟩, by simp, ?_, ?_, htail⟩
      · exact fun d hd => h.admitted d (List.mem_cons_of_mem _ hd)
      · exact fun d hd => h.found d (List.mem_cons_of_mem _ hd)
  · intro h
    obtain ⟨rfl, hadmits, rfl | ⟨next, hnext, htrail⟩⟩ := h
    · exact ⟨by simp, by simpa using hadmits, by simp, .singleton _⟩
    · obtain ⟨hlink, htiles⟩ := successor_eq_some_iff.mp hnext
      refine ⟨by simp, ?_, ?_, List.isChain_cons.mpr ⟨fun c hc => ?_, htrail.leads⟩⟩
      · exact List.forall_mem_cons.mpr ⟨hadmits, htrail.admitted⟩
      · exact List.forall_mem_cons.mpr ⟨rfl, htrail.found⟩
      · obtain rfl := htrail.starts c hc
        exact ⟨hlink, htiles⟩

/-- So does a walk. -/
theorem Walk.cons_prefix_follow_iff :
    b :: rest <+: (follow r header offset).blocks ↔ b = ⟨offset, header offset⟩ ∧
      r.Admits offset ∧ (rest = [] ∨ ∃ next, r.successor b = .ok (some next) ∧
        rest <+: (follow r header next).blocks) := by
  by_cases hadmits : r.Admits offset
  · rcases r.successor_cases ⟨offset, header offset⟩ with
      ⟨hsucc, -⟩ | ⟨hsucc, -⟩ | ⟨hsucc, -⟩
    · rw [follow_of_error hadmits hsucc, List.cons_prefix_cons, List.prefix_nil]
      refine and_congr_right fun hb => ?_
      simp [hb, hsucc, hadmits]
    · rw [follow_of_end hadmits hsucc, List.cons_prefix_cons, List.prefix_nil]
      refine and_congr_right fun hb => ?_
      simp [hb, hsucc, hadmits]
    · rw [follow_of_next hadmits hsucc, List.cons_prefix_cons]
      refine and_congr_right fun hb => ?_
      constructor
      · intro hrest
        exact ⟨hadmits, .inr ⟨_, hb ▸ hsucc, hrest⟩⟩
      · intro hcases
        obtain ⟨-, rfl | ⟨next, hnext, hrest⟩⟩ := hcases
        · exact List.nil_prefix
        · obtain rfl : r.stop ⟨offset, header offset⟩ = next := by
            simpa [hb, hsucc] using hnext
          exact hrest
  · rw [follow_of_not_admits hadmits]
    simp [hadmits]

/-- **The blocks a walk meets are the longest trail.** -/
theorem Walk.trail_iff_prefix :
    r.Trail header offset blocks ↔ blocks <+: (follow r header offset).blocks := by
  induction blocks generalizing offset with
  | nil => exact iff_of_true Region.trail_nil List.nil_prefix
  | cons b rest ih =>
    rw [Region.trail_cons_iff, cons_prefix_follow_iff]
    simp only [ih]

theorem Walk.trail_follow : r.Trail header offset (follow r header offset).blocks :=
  trail_iff_prefix.mpr (List.prefix_refl _)

/-! ### What bounds a trail -/

theorem Region.Trail.ascending (h : r.Trail header offset blocks) :
    blocks.Pairwise fun a b => a.offset < b.offset := by
  have hstop := r.pairwise_stop_le (h.leads.imp fun a b hab => hab.tiles)
  have hpos := r.footprint_pos
  refine hstop.imp fun {a b} hab => ?_
  unfold stop at hab
  omega

/-- The headers of a trail lie behind each other in the region. -/
theorem Region.Trail.room (h : r.Trail header offset blocks) (husable : r.Usable)
    (hne : blocks ≠ []) : offset + blocks.length * r.footprint ≤ r.capacity := by
  induction blocks generalizing offset with
  | nil => exact absurd rfl hne
  | cons b rest ih =>
    obtain ⟨rfl, hadmits, hrest⟩ := trail_cons_iff.mp h
    have hroom := hadmits.footprint_le husable
    rw [List.length_cons, Nat.succ_mul]
    by_cases hend : rest = []
    · rw [hend, List.length_nil, Nat.zero_mul]
      omega
    · obtain ⟨next, hnext, htrail⟩ := hrest.resolve_left hend
      obtain ⟨-, hstop⟩ := successor_eq_some_iff.mp hnext
      have hbehind := ih htrail hend
      unfold stop at hstop
      dsimp only at hstop
      omega

/-- A trail comes as far as its blocks are long, with a footprint each. -/
theorem Region.Trail.stop_eq (h : r.Trail header offset blocks)
    (hlast : blocks.getLast? = some b) :
    r.stop b = offset + (blocks.map fun b => r.footprint + b.size).sum := by
  induction blocks generalizing offset with
  | nil => cases hlast
  | cons c rest ih =>
    obtain ⟨hc, -, hrest⟩ := trail_cons_iff.mp h
    have hoffset : c.offset = offset := by rw [hc]
    rw [List.map_cons, List.sum_cons]
    by_cases hend : rest = []
    · subst hend
      obtain rfl : c = b := by simpa using hlast
      unfold stop
      rw [hoffset]
      simp [Nat.add_assoc]
    · obtain ⟨next, hnext, htrail⟩ := hrest.resolve_left hend
      obtain ⟨-, hstop⟩ := successor_eq_some_iff.mp hnext
      rw [List.getLast?_cons_of_ne_nil hend] at hlast
      rw [ih htrail hlast, ← hstop]
      unfold stop
      rw [hoffset]
      omega

/-- What is said of the headers a walk has looked at: each of them was reached from the one
before, further on, lies in the region at a multiple of the unit, and there are no more than
have room. -/
structure Region.Visits (r : Region) (header : Nat → Header) (visited : List Block) : Prop where
  trail : r.Trail header 0 visited
  ascending : visited.Pairwise fun a b => a.offset < b.offset
  inside : ∀ b ∈ visited, r.unit.bytes ∣ b.offset ∧ b.offset + r.footprint ≤ r.capacity
  count : visited.length ≤ r.capacity / r.footprint

theorem Region.Trail.visits (h : r.Trail header 0 blocks) (husable : r.Usable) :
    r.Visits header blocks := by
  refine ⟨h, h.ascending, fun b hb => ?_, ?_⟩
  · have hadmits := h.admitted b hb
    exact ⟨Nat.dvd_of_mod_eq_zero hadmits.1, hadmits.footprint_le husable⟩
  · rw [Nat.le_div_iff_mul_le r.footprint_pos]
    by_cases hne : blocks = []
    · rw [hne, List.length_nil, Nat.zero_mul]
      exact Nat.zero_le _
    · have hroom := h.room husable hne
      omega

end Trails

/-! ### Where a question is decided -/

namespace Walk

/-- The blocks up to the first that decides, which may depend on the block it was reached
from. -/
def upTo (decides : Option Block → Block → Bool) : Option Block → List Block → List Block
  | _, [] => []
  | before, b :: rest => if decides before b then [b] else b :: upTo decides (some b) rest

variable {r : Region} {header header' : Nat → Header} {decides : Option Block → Block → Bool}
  {before : Option Block} {offset : Nat} {blocks : List Block}

theorem upTo_prefix : upTo decides before blocks <+: blocks := by
  induction blocks generalizing before with
  | nil => exact List.nil_prefix
  | cons b rest ih =>
    unfold upTo
    split
    · exact List.cons_prefix_cons.mpr ⟨rfl, List.nil_prefix⟩
    · exact List.cons_prefix_cons.mpr ⟨rfl, ih⟩

theorem head_mem_upTo {b : Block} : b ∈ upTo decides before (b :: blocks) := by
  unfold upTo
  split <;> exact List.mem_cons_self

/-- A walk that comes to a block first. -/
def behind (b : Block) (w : Walk) : Walk := ⟨b :: w.blocks, w.defect⟩

/-- **An answer that is decided by some blocks only depends on their headers.**  Behind a block
that decides nothing matters, and behind any other no more than what the rest answers. -/
theorem same_of_visited {same : Option Block → Walk → Walk → Prop}
    (hrefl : ∀ before w, same before w w)
    (hstops : ∀ before b w w', decides before b = true → same before (behind b w) (behind b w'))
    (hgoesOn : ∀ before b w w', same (some b) w w' → same before (behind b w) (behind b w'))
    (hsame : ∀ b ∈ upTo decides before (follow r header offset).blocks,
      header' b.offset = b.header) :
    same before (follow r header' offset) (follow r header offset) := by
  induction offset using follow.induct r header generalizing before with
  | case1 offset hadmits c hnext =>
    rw [follow_of_error hadmits hnext] at hsame ⊢
    have hheader : header' offset = header offset := hsame _ head_mem_upTo
    rw [follow_of_error hadmits (hheader ▸ hnext), hheader]
    exact hrefl _ _
  | case2 offset hadmits hnext =>
    rw [follow_of_end hadmits hnext] at hsame ⊢
    have hheader : header' offset = header offset := hsame _ head_mem_upTo
    rw [follow_of_end hadmits (hheader ▸ hnext), hheader]
    exact hrefl _ _
  | case3 offset hadmits next hnext _ ih =>
    rw [follow_of_next hadmits hnext] at hsame ⊢
    have hheader : header' offset = header offset := hsame _ head_mem_upTo
    rw [follow_of_next hadmits (hheader ▸ hnext), hheader]
    unfold upTo at hsame
    by_cases hdecides : decides before ⟨offset, header offset⟩ = true
    · exact hstops before _ (follow r header' next) (follow r header next) hdecides
    · rw [if_neg hdecides] at hsame
      apply hgoesOn before _ (follow r header' next) (follow r header next)
      apply ih
      intro b hb
      exact hsame b (List.mem_cons_of_mem _ hb)
  | case4 offset hadmits =>
    rw [follow_of_not_admits hadmits, follow_of_not_admits hadmits]
    exact hrefl _ _

theorem defectBehind?_behind (b : Block) (w : Walk) (before : Option Block) :
    (behind b w).defectBehind? before = (b.defect? before <|> w.defectBehind? (some b)) :=
  defectBehind?_cons b w before

theorem sound_behind (b : Block) (w : Walk) :
    (behind b w).sound = if b.check?.isNone then b :: w.sound else [] := List.takeWhile_cons

theorem firstFit_behind (b : Block) (w : Walk) (length : Nat) :
    (behind b w).firstFit length =
      if b.isFree && decide (length ≤ b.size) then
        match b.check? with
        | none => .ok (some b)
        | some c => .error c
      else w.firstFit length := by
  unfold firstFit behind
  rw [List.find?_cons]
  cases b.isFree && decide (length ≤ b.size) <;> rfl

end Walk

/-- What an arena asks of the blocks of its chain. -/
inductive Question
  | verify
  | list
  | search (length : Nat)

namespace Question

/-- Whether a walk stops at a block: because something is wrong with it, or with its header
alone, or because it can be handed out. -/
def decides : Question → Option Block → Block → Bool
  | verify, before, b => (b.defect? before).isSome
  | list, _, b => b.check?.isSome
  | search length, _, b => b.isFree && decide (length ≤ b.size)

/-- Whether two walks that were begun behind `before` answer the same. -/
def Same : Question → Option Block → Walk → Walk → Prop
  | verify, before, w, w' => w.defectBehind? before = w'.defectBehind? before
  | list, _, w, w' => w.sound = w'.sound
  | search length, _, w, w' => w.firstFit length = w'.firstFit length

/-- The blocks whose headers are looked at. -/
def visited (q : Question) (w : Walk) : List Block := Walk.upTo q.decides none w.blocks

variable {q : Question} {before : Option Block} {b : Block} {w w' : Walk}

theorem same_refl (q : Question) (before : Option Block) (w : Walk) : q.Same before w w := by
  cases q with
  | _ => rfl

/-- Nothing behind the block that decides has a say. -/
theorem same_of_decides (h : q.decides before b = true) :
    q.Same before (.behind b w) (.behind b w') := by
  cases q with
  | verify =>
    obtain ⟨c, hc⟩ := Option.isSome_iff_exists.mp h
    simp only [Same, Walk.defectBehind?_behind, hc]
    rfl
  | list =>
    obtain ⟨c, hc⟩ := Option.isSome_iff_exists.mp h
    simp [Same, Walk.sound_behind, hc]
  | search length =>
    simp only [decides] at h
    simp only [Same, Walk.firstFit_behind, if_pos h]

/-- Behind a block only what the rest would answer matters. -/
theorem same_behind (h : q.Same (some b) w w') :
    q.Same before (.behind b w) (.behind b w') := by
  cases q with
  | verify =>
    simp only [Same] at h
    simp only [Same, Walk.defectBehind?_behind, h]
  | list =>
    simp only [Same] at h
    simp only [Same, Walk.sound_behind, h]
  | search length =>
    simp only [Same] at h
    simp only [Same, Walk.firstFit_behind, h]

end Question

namespace Arena

variable {τ : Type}

/-- Whether two arenas answer the same. -/
def AnswersAs (arena other : Arena τ) : Question → Prop
  | .verify => arena.verify = other.verify
  | .list => arena.blocks = other.blocks
  | .search length => arena.walk.firstFit length = other.walk.firstFit length

theorem answersAs_of_same {arena other : Arena τ} {q : Question}
    (h : q.Same none arena.walk other.walk) : arena.AnswersAs other q := by
  cases q with
  | verify =>
    have hdefect : arena.walk.defectBehind? none = other.walk.defectBehind? none := h
    show arena.walk.verdict = other.walk.verdict
    unfold Walk.verdict
    rw [← Walk.defectBehind?, hdefect, Walk.defectBehind?]
  | list => exact h
  | search length => exact h

/-- **Whatever the bytes are, walks go forwards, stay inside the region and end.**  Verification,
the list of blocks and the search for a free one each look at headers that lie in the region,
one behind the other, and at no more of them than have room there; links that lead back or
outside end the walk.  No other header has any influence on what is answered. -/
theorem walks_stay_inside (arena : Arena τ) (husable : arena.region.Usable) :
    arena.region.Visits arena.headerAt arena.walk.blocks ∧
      ∀ q : Question, arena.region.Visits arena.headerAt (q.visited arena.walk) ∧
        q.visited arena.walk <+: arena.walk.blocks ∧
        ∀ other : Arena τ, other.region = arena.region →
          (∀ b ∈ q.visited arena.walk, other.headerAt b.offset = b.header) →
          other.AnswersAs arena q := by
  have hwalk := walk_of_usable husable
  refine ⟨?_, fun q => ?_⟩
  · rw [hwalk]
    exact Walk.trail_follow.visits husable
  · have hprefix := @Walk.upTo_prefix q.decides none arena.walk.blocks
    refine ⟨?_, hprefix, fun other hregion hsame => answersAs_of_same ?_⟩
    · rw [hwalk] at hprefix
      rw [Question.visited, hwalk]
      exact (Walk.trail_iff_prefix.mpr hprefix).visits husable
    · rw [Question.visited, hwalk] at hsame
      rw [hwalk, walk_of_usable (hregion ▸ husable), hregion]
      exact Walk.same_of_visited q.same_refl (fun _ _ _ _ => Question.same_of_decides)
        (fun _ _ _ _ => Question.same_behind) hsame

/-- A memory that was never cleared. -/
def littered : Memory :=
  ⟨4096, Memory.repeated 200 170, by rw [Memory.size_repeated]; decide,
    by rw [Memory.size_repeated]; decide⟩

/-- Two blocks, of which the second leads back to the first. -/
def looping : Arena Silent where
  config := {}
  memory := (littered.setHeader 4096 { Header.fresh 8 none (some 64) with flag := 1 }).setHeader
    4160 (.fresh 8 (some 0) (some 0))
  tracer := ⟨⟩

theorem walks_stay_inside_looping :
    looping.region.Usable ∧ looping.verify = .error (.tiling 64) ∧
      (Question.verify.visited looping.walk).map Block.offset = [0, 64] ∧
      looping.region.Visits looping.headerAt (Question.verify.visited looping.walk) := by
  have husable : looping.region.Usable := by decide +kernel
  exact ⟨husable, by decide +kernel, by decide +kernel,
    ((walks_stay_inside looping husable).2 .verify).1⟩

end Arena

end FirstFit
