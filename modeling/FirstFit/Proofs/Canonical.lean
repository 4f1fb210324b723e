/-
The chain forgets how it came about.

Free space is not remembered but left over.  Where no two free cells follow each other and
all of them fill the region, each free cell reaches from one allocated cell to the next, so
the allocated ones tell all the others (`Cells.eq_of_allocated`).  What a chain shows of a
cell is settled by the cells too, all but the token (`Cells.Held.map_bare`).  So two arenas
that were used in quite different ways have the same chain as soon as the same blocks are
live in both, and whatever follows, follows in both: the answers are the same but for the
base of the region, by which `Region.carry` corrects them.
-/
import FirstFit.Proofs.Exclusive

namespace FirstFit

/-! ### Free cells -/

namespace Cells

variable {footprint offset : Nat} {c d : Cell} {xs ys : List Cell} {p : Nat × Cell}

theorem eq_head_of_mem_place (hpos : 0 < footprint)
    (h : (offset, c) ∈ place footprint offset (d :: ys)) : c = d := by
  rcases List.mem_cons.mp h with heq | hrest
  · exact (Prod.mk.inj heq).2
  · have hlow := (place_bounds hrest).1
    simp only at hlow
    omega

theorem mem_place_rest (hpos : 0 < footprint)
    (h : p ∈ place footprint (offset + footprint + c.size) xs)
    (hp : p ∈ place footprint offset (c :: ys)) :
    p ∈ place footprint (offset + footprint + c.size) ys := by
  rcases List.mem_cons.mp hp with rfl | hrest
  · have hlow := (place_bounds h).1
    simp only at hlow
    omega
  · exact hrest

/-- A free cell ends where an allocated one starts or the region ends, and no other free cell
in its place reaches further. -/
theorem free_size_le (hmerged : Merged (c :: xs)) (hc : c.allocated = false)
    (hd : d.allocated = false)
    (hextent : extent footprint (c :: xs) = extent footprint (d :: ys))
    (hsubset : ∀ p ∈ place footprint offset (c :: xs), p.2.allocated = true →
      p ∈ place footprint offset (d :: ys)) : d.size ≤ c.size := by
  rw [extent_cons, extent_cons] at hextent
  cases xs with
  | nil =>
    rw [extent_nil] at hextent
    omega
  | cons e xs =>
    have he : e.allocated = true := by
      have hnext := (List.isChain_cons_cons.mp hmerged).1
      simpa [hc] using hnext
    have hmem := hsubset (offset + footprint + c.size, e) (by simp) he
    rcases List.mem_cons.mp hmem with heq | hrest
    · obtain ⟨-, rfl⟩ := Prod.mk.inj heq
      rw [hd] at he
      cases he
    · have hlow := (place_bounds hrest).1
      simp only at hlow
      omega

/-- Lists of cells with the same allocated cells start with the same cell. -/
theorem head_eq_of_allocated (hpos : 0 < footprint) (hxs : Merged (c :: xs))
    (hys : Merged (d :: ys)) (hextent : extent footprint (c :: xs) = extent footprint (d :: ys))
    (hsame : ∀ p : Nat × Cell, p.2.allocated = true →
      (p ∈ place footprint offset (c :: xs) ↔ p ∈ place footprint offset (d :: ys))) : c = d := by
  by_cases hc : c.allocated = true
  · exact eq_head_of_mem_place hpos ((hsame (offset, c) hc).mp List.mem_cons_self)
  by_cases hd : d.allocated = true
  · exact (eq_head_of_mem_place hpos ((hsame (offset, d) hd).mpr List.mem_cons_self)).symm
  rw [Bool.not_eq_true] at hc hd
  -- Both end where the next allocated cell starts, so neither is longer than the other.
  have hle := free_size_le hxs hc hd hextent fun p hp hallocated => (hsame p hallocated).mp hp
  have hge := free_size_le hys hd hc hextent.symm fun p hp hallocated => (hsame p hallocated).mpr hp
  obtain ⟨size, allocated⟩ := c
  obtain ⟨size', allocated'⟩ := d
  simp only at hc hd hle hge
  rw [hc, hd, Nat.le_antisymm hge hle]

/-- **The allocated cells tell where the free ones are.** -/
theorem eq_of_allocated (hpos : 0 < footprint) (hxs : Merged xs) (hys : Merged ys)
    (hextent : extent footprint xs = extent footprint ys)
    (hsame : ∀ p : Nat × Cell, p.2.allocated = true →
      (p ∈ place footprint offset xs ↔ p ∈ place footprint offset ys)) : xs = ys := by
  induction xs generalizing ys offset with
  | nil =>
    cases ys with
    | nil => rfl
    | cons d ys =>
      rw [extent_cons, extent_nil] at hextent
      omega
  | cons c xs ih =>
    cases ys with
    | nil =>
      rw [extent_cons, extent_nil] at hextent
      omega
    | cons d ys =>
      obtain rfl := head_eq_of_allocated hpos hxs hys hextent hsame
      rw [extent_cons, extent_cons, Nat.add_left_cancel_iff] at hextent
      have hrest : xs = ys := by
        refine @ih (offset + footprint + c.size) ys hxs.tail hys.tail hextent ?_
        intro p hallocated
        constructor
        · intro hp
          exact mem_place_rest hpos hp ((hsame p hallocated).mp (List.mem_cons_of_mem _ hp))
        · intro hp
          exact mem_place_rest hpos hp ((hsame p hallocated).mpr (List.mem_cons_of_mem _ hp))
      rw [hrest]

end Cells

/-! ### What a chain shows -/

/-- The header without its token. -/
def Header.bare (h : Header) : Header := { h with trace := none }

/-- A header is settled by what it shows and its token. -/
theorem Header.eq_of_bare_eq {h h' : Header} (hbare : h.bare = h'.bare)
    (htrace : h.trace = h'.trace) : h = h' := by
  cases h
  cases h'
  simp only [bare, mk.injEq] at hbare htrace ⊢
  tauto

/-- The block without its token: where it is, how long, whether it is free, and its links. -/
def Block.bare (b : Block) : Block := ⟨b.offset, b.header.bare⟩

/-- The header of a cell between two neighbours, without a token. -/
def Cell.header (c : Cell) (prev next : Link) : Header :=
  { Header.fresh c.size prev next with flag := c.allocated.toNat }

theorem Header.Describes.bare_eq {h : Header} {c : Cell} {prev next : Link}
    (hd : h.Describes c prev next) : h.bare = c.header prev next := by
  unfold Header.bare Cell.header Header.fresh
  rw [hd.leading, hd.size, hd.flag, hd.prev, hd.next, hd.trailing]

/-- The header of a free cell has no token, so the cell is all it says. -/
theorem Header.Describes.eq_header {h : Header} {c : Cell} {prev next : Link}
    (hd : h.Describes c prev next) (hfree : c.allocated = false) : h = c.header prev next := by
  rw [← hd.bare_eq, bare, ← hd.untraced hfree]

namespace Cells

/-- The chain of the cells, the first of them at an offset and linked back to `prev`. -/
def chain (r : Region) (prev : Link) (offset : Nat) : List Cell → List Block
  | [] => []
  | c :: rest =>
    ⟨offset, c.header prev (r.linkTo (offset + r.footprint + c.size))⟩ ::
      chain r (some offset) (offset + r.footprint + c.size) rest

theorem Held.map_bare {r : Region} {header : Nat → Header} {prev : Link} {offset : Nat}
    {cells : List Cell} (h : Held r header prev offset cells) :
    (blocks r.footprint header offset cells).map Block.bare = chain r prev offset cells := by
  induction cells generalizing prev offset with
  | nil => rfl
  | cons c rest ih =>
    obtain ⟨hc, hrest⟩ := h
    rw [blocks_cons, List.map_cons, ih hrest, chain, Block.bare, hc.bare_eq]

end Cells

/-! ### Regions that differ in their base -/

/-- Two regions are divided in the same way. -/
structure Region.Alike (r r' : Region) : Prop where
  unit : r'.unit = r.unit
  capacity : r'.capacity = r.capacity

namespace Region.Alike

variable {r r' : Region}

theorem refl (r : Region) : r.Alike r := ⟨rfl, rfl⟩

theorem footprint (h : r.Alike r') : r'.footprint = r.footprint := by
  unfold Region.footprint
  rw [h.unit]

theorem usable_iff (h : r.Alike r') : r'.Usable ↔ r.Usable := by
  unfold Usable
  rw [h.footprint, h.unit, h.capacity]

theorem linkTo (h : r.Alike r') (offset : Nat) : r'.linkTo offset = r.linkTo offset := by
  unfold Region.linkTo
  rw [h.capacity]

end Region.Alike

/-- The address in another region that lies as far behind its base; no address is no address. -/
def Region.carry (r r' : Region) (address : Nat) : Nat :=
  if address = 0 then 0 else address - r.base + r'.base

/-- The step with its address, if it has one, carried to another region. -/
def Step.carry (r r' : Region) : Step → Step
  | .allocate request => .allocate request
  | .release address => .release (r.carry r' address)
  | .resetPeaks => .resetPeaks
  | .write address bytes => .write (r.carry r' address) bytes

/-- The steps and answers of a history, carried to another region. -/
def carried (r r' : Region) (history : List (Step × Option Nat)) : List (Step × Option Nat) :=
  history.map fun x => (x.1.carry r r', x.2.map (r.carry r'))

namespace Region.Alike

variable {r r' : Region}

theorem carry_eq (h : r.Alike r') {offset k : Nat} :
    r.carry r' (r.payload offset + k) = r'.payload offset + k := by
  have hpos := r.payload_pos offset
  unfold carry
  rw [if_neg (by omega)]
  unfold payload
  rw [h.footprint]
  omega

theorem carry_payload (h : r.Alike r') {offset : Nat} :
    r.carry r' (r.payload offset) = r'.payload offset := h.carry_eq (k := 0)

end Region.Alike

namespace Cells

variable {r r' : Region} {cells after : List Cell} {s : Step} {answer : Option Nat}

theorem chain_alike (h : r.Alike r') (prev : Link) (offset : Nat) (cells : List Cell) :
    chain r' prev offset cells = chain r prev offset cells := by
  induction cells generalizing prev offset with
  | nil => rfl
  | cons c rest ih => rw [chain, chain, ih, h.footprint, h.linkTo]

theorem take?_alike (h : r.Alike r') (length offset : Nat) (cells : List Cell) :
    take? r' length offset cells = take? r length offset cells := by
  induction cells generalizing offset with
  | nil => rfl
  | cons c rest ih => rw [take?, take?, ih, carve, carve, h.footprint, h.unit]

theorem allocated_alike (h : r.Alike r') (request : Nat) (cells : List Cell) :
    allocated r' request cells =
      ((allocated r request cells).1.map (r.carry r'), (allocated r request cells).2) := by
  unfold allocated allocate?
  rw [h.capacity, h.unit, take?_alike h]
  by_cases hrefused : r.capacity < request
  · rw [if_pos hrefused, if_pos hrefused]
    rfl
  · rw [if_neg hrefused, if_neg hrefused]
    cases take? r (r.unit.ceil request) 0 cells with
    | none => rfl
    | some found =>
      show (some (r'.payload found.1), found.2) = (some (r.carry r' (r.payload found.1)), found.2)
      rw [h.carry_payload]

/-- What a step does to cells does not depend on the base of their region. -/
theorem step?_carry (h : r.Alike r') (hallows : Allows r cells s)
    (hstep : step? r cells s = some (answer, after)) :
    Allows r' cells (s.carry r r') ∧
      step? r' cells (s.carry r r') = some (answer.map (r.carry r'), after) := by
  cases s with
  | allocate request =>
    obtain ⟨rfl, rfl⟩ := Prod.mk.inj (Option.some.inj hstep)
    exact ⟨hallows, congrArg some (allocated_alike h request cells)⟩
  | release address =>
    rcases hallows with rfl | ⟨p, hp, hallocated, rfl⟩
    · obtain ⟨rfl, rfl⟩ := Prod.mk.inj (Option.some.inj hstep)
      exact ⟨.inl rfl, rfl⟩
    · obtain ⟨pre, post, rfl, hplace⟩ := mem_place_iff.mp hp
      rw [Nat.zero_add] at hplace
      have hpos := r.payload_pos p.1
      have hpos' := r'.payload_pos p.1
      rw [step?, if_neg (Nat.ne_of_gt hpos), hplace, release?_append hallocated] at hstep
      obtain ⟨rfl, rfl⟩ := Prod.mk.inj (Option.some.inj hstep)
      have hcarry : (Step.release (r.payload p.1)).carry r r' = .release (r'.payload p.1) :=
        congrArg _ h.carry_payload
      rw [hcarry, step?, if_neg (Nat.ne_of_gt hpos'), hplace, ← h.footprint,
        release?_append hallocated, h.footprint]
      refine ⟨.inr ⟨p, ?_, hallocated, ?_⟩, rfl⟩
      · rw [h.footprint]
        exact hp
      · rw [hplace]
  | resetPeaks =>
    obtain ⟨rfl, rfl⟩ := Prod.mk.inj (Option.some.inj hstep)
    exact ⟨trivial, rfl⟩
  | write address bytes =>
    obtain ⟨rfl, rfl⟩ := Prod.mk.inj (Option.some.inj hstep)
    obtain ⟨p, hp, hallocated, hlow, hhigh⟩ := hallows
    obtain ⟨k, rfl⟩ := Nat.exists_eq_add_of_le hlow
    refine ⟨⟨p, ?_, hallocated, ?_, ?_⟩, rfl⟩
    · rw [h.footprint]
      exact hp
    · rw [h.carry_eq]
      omega
    · rw [h.carry_eq]
      omega

end Cells

/-! ### Arenas -/

namespace Arena

open Cells

variable {τ τ' : Type} {arena last : Arena τ} {arena' last' : Arena τ'} {r r' : Region}
  {cells cells' : List Cell} {steps steps' : Nat}

/-- Whether an allocated block of a size lies at an offset. -/
def Occupies (arena : Arena τ) (offset size : Nat) : Prop :=
  ∃ b ∈ arena.blocks, b.isFree = false ∧ b.offset = offset ∧ b.size = size

theorem Kept.occupies_iff (h : arena.Kept r cells steps) {offset size : Nat} :
    arena.Occupies offset size ↔ (offset, Cell.mk size true) ∈ place r.footprint 0 cells := by
  rw [← h.lists, List.mem_map]
  constructor
  · intro hoccupies
    obtain ⟨b, hb, hallocated, rfl, rfl⟩ := hoccupies
    refine ⟨b, hb, ?_⟩
    rw [hallocated]
    rfl
  · intro hlisted
    obtain ⟨b, hb, heq⟩ := hlisted
    simp only [Prod.mk.injEq, Cell.mk.injEq, Bool.not_eq_true'] at heq
    exact ⟨b, hb, heq.2.2, heq.1, heq.2.1⟩

theorem Kept.cells_eq (h : arena.Kept r cells steps) (h' : arena'.Kept r' cells' steps')
    (halike : r.Alike r')
    (hsame : ∀ offset size, arena.Occupies offset size ↔ arena'.Occupies offset size) :
    cells = cells' := by
  refine @eq_of_allocated r.footprint 0 cells cells' r.footprint_pos h.tidy.merged
    h'.tidy.merged ?_ ?_
  · rw [h.tidy.covers, ← halike.capacity, ← h'.tidy.covers, halike.footprint]
  · intro p hallocated
    obtain ⟨offset, size, allocated⟩ := p
    simp only at hallocated
    rw [hallocated, ← h.occupies_iff, hsame, h'.occupies_iff, halike.footprint]

theorem Kept.map_bare (h : arena.Kept r cells steps) :
    arena.blocks.map Block.bare = Cells.chain r none 0 cells := by
  rw [h.blocks_eq]
  exact h.tidy.held.map_bare

theorem Kept.bare_eq (h : arena.Kept r cells steps) (h' : arena'.Kept r cells steps')
    {p : Nat × Cell} (hp : p ∈ place r.footprint 0 cells) :
    (r.headerAt arena.memory p.1).bare = (r.headerAt arena'.memory p.1).bare := by
  have hblocks := h.map_bare.trans h'.map_bare.symm
  rw [h.blocks_eq, h'.blocks_eq, Cells.blocks, Cells.blocks, List.map_map, List.map_map] at hblocks
  exact (Block.mk.inj (List.map_inj_left.mp hblocks p hp)).2

/-- Where no cell is allocated, one free cell is all there is. -/
theorem Kept.blocks_of_vacant (h : arena.Kept r cells steps)
    (hvacant : ∀ offset size, ¬ arena.Occupies offset size) :
    arena.blocks = [⟨0, .fresh (r.capacity - r.footprint) none none⟩] := by
  have husable := h.tidy.lies.usable
  unfold Region.Usable at husable
  have hsum : 0 + r.footprint + (r.capacity - r.footprint) = r.capacity := by omega
  have hwhole : cells = whole r := by
    refine @eq_of_allocated r.footprint 0 cells (whole r) r.footprint_pos h.tidy.merged
      (.singleton _) ?_ ?_
    · rw [h.tidy.covers, whole, extent_cons, extent_nil]
      dsimp only
      omega
    · intro p hallocated
      refine iff_of_false ?_ ?_
      · intro hp
        obtain ⟨offset, size, allocated⟩ := p
        simp only at hallocated
        subst hallocated
        exact hvacant offset size (h.occupies_iff.mpr hp)
      · intro hp
        rw [List.mem_singleton.mp hp] at hallocated
        cases hallocated
  rw [h.blocks_eq]
  obtain ⟨hheader, -⟩ := hwhole ▸ h.tidy.held
  rw [hwhole, whole, blocks_cons, hheader.eq_header rfl, hsum, Region.linkTo, if_pos rfl]
  rfl

variable [Tracer τ] [Tracer τ']

/-- A run can be made wherever the same cells are kept. -/
theorem Kept.run_elsewhere {history : List (Step × Option Nat)} (h : arena.Kept r cells steps)
    (h' : arena'.Kept r' cells steps') (halike : r.Alike r')
    (hword : arena.stats.allocs < 2 ^ 64) (hlength : steps' + history.length < 2 ^ 64)
    (hruns : Runs arena history last) :
    ∃ last' after, Runs arena' (carried r r' history) last' ∧
      last.Kept r after (steps + history.length) ∧
      last'.Kept r' after (steps' + history.length) := by
  induction hruns generalizing arena' cells steps steps' with
  | nil => exact ⟨arena', cells, .nil arena', h, h'⟩
  | @cons arena mid last s answer rest hallows hstep hrest ih =>
    rw [List.length_cons] at hlength
    obtain ⟨after, hfollows, hword'⟩ := h.follows_of_run hword hallows hstep
    obtain ⟨hallowed, hcells⟩ := step?_carry halike (h.allows_iff.mp hallows) hfollows.step
    obtain ⟨answer', mid', after', hstep', hfollows'⟩ :=
      h'.run_step (by omega) (h'.allows_iff.mpr hallowed)
    obtain ⟨rfl, rfl⟩ := Prod.mk.inj (Option.some.inj (hcells.symm.trans hfollows'.step))
    obtain ⟨last', cells', hruns', hlast, hlast'⟩ :=
      ih hfollows.kept hfollows'.kept hword' (by omega)
    rw [List.length_cons, Nat.add_comm rest.length, ← Nat.add_assoc, ← Nat.add_assoc]
    exact ⟨last', cells', .cons (h'.allows_iff.mpr hallowed) hstep' hruns', hlast, hlast'⟩

/-- In a region without room all that a client may do is in vain, and so it is elsewhere. -/
theorem Runs.elsewhere_of_not_usable {history : List (Step × Option Nat)}
    (hruns : Runs arena history last) (h : ¬ arena.region.Usable) (h' : ¬ arena'.region.Usable) :
    ∃ last', Runs arena' (carried r r' history) last' ∧ last.blocks = [] ∧ last'.blocks = [] := by
  induction hruns generalizing arena' with
  | nil => exact ⟨arena', .nil arena', blocks_of_not_usable h, blocks_of_not_usable h'⟩
  | @cons arena mid last s answer rest hallows hstep hrest ih =>
    obtain ⟨next, hrun, hregion, -⟩ := run_step_of_not_usable h hallows
    obtain ⟨rfl, rfl⟩ := EStateM.Result.ok.inj (hrun.symm.trans hstep)
    have hallowed : arena'.Allows (s.carry r r') := by
      cases s with
      | allocate request => exact hallows
      | release address =>
        rcases hallows with rfl | ⟨b, hlive⟩
        · exact .inl rfl
        · exact absurd hlive (not_live_of_not_usable h b address)
      | resetPeaks => trivial
      | write address bytes =>
        obtain ⟨b, payload, hlive, -⟩ := hallows
        exact absurd hlive (not_live_of_not_usable h b payload)
    obtain ⟨next', hrun', hregion', -⟩ := run_step_of_not_usable h' hallowed
    obtain ⟨last', hruns', hblocks⟩ := ih (hregion ▸ h) (hregion' ▸ h')
    exact ⟨last', .cons hallowed hrun' hruns', hblocks⟩

/-- **The live blocks tell the chain, whatever the arena was used for before.**  Two arenas in
which the same blocks are live show the same chain, and what can be done in one can be done
in the other, with the same answers but for the base and with the same chain afterwards.
So a chain comes back when the same blocks are live again, and where none is, one free
block is all there is. -/
theorem Runs.history_independent {config config' : Config} {memory memory' : Memory} {tracer : τ}
    {tracer' : τ'} {first : Arena τ} {first' : Arena τ'}
    {history history' : List (Step × Option Nat)}
    (hcreate : create config memory tracer = .ok first)
    (hcreate' : create config' memory' tracer' = .ok first')
    (hruns : Runs first history last) (hruns' : Runs first' history' last')
    (halike : first.region.Alike first'.region) :
    ((∀ offset size, last.Occupies offset size ↔ last'.Occupies offset size) →
      last.blocks.map Block.bare = last'.blocks.map Block.bare ∧
      ∀ later after, history'.length + later.length < 2 ^ 64 → Runs last later after →
        ∃ after', Runs last' (carried last.region last'.region later) after' ∧
          after.blocks.map Block.bare = after'.blocks.map Block.bare) ∧
    (∀ later after, Runs last later after →
      (∀ offset size, after.Occupies offset size ↔ last.Occupies offset size) →
      after.blocks.map Block.bare = last.blocks.map Block.bare) ∧
    (last.region.Usable → (∀ offset size, ¬ last.Occupies offset size) →
      last.blocks = [⟨0, .fresh (last.region.capacity - last.region.footprint) none none⟩]) := by
  by_cases husable : first.region.Usable
  · obtain ⟨cells, -, hkept, hword⟩ := hruns.reaches hcreate husable
    obtain ⟨cells', -, hkept', -⟩ := hruns'.reaches hcreate' (halike.usable_iff.mpr husable)
    refine ⟨?_, ?_, ?_⟩
    · intro hsame
      obtain rfl := hkept.cells_eq hkept' halike hsame
      refine ⟨?_, ?_⟩
      · rw [hkept.map_bare, hkept'.map_bare, chain_alike halike]
      · intro later after hlength hlater
        obtain ⟨after', cells', hruns', hafter, hafter'⟩ :=
          hkept.run_elsewhere hkept' halike hword hlength hlater
        rw [hkept.region, hkept'.region]
        refine ⟨after', hruns', ?_⟩
        rw [hafter.map_bare, hafter'.map_bare, chain_alike halike]
    · intro later after hlater hsame
      obtain ⟨cells', -, hafter, -⟩ := hlater.kept_of_word hkept hword
      rw [hafter.map_bare, hkept.map_bare, hafter.cells_eq hkept (.refl _) hsame]
    · intro _ hvacant
      rw [hkept.region]
      exact hkept.blocks_of_vacant hvacant
  · have husable' : ¬ first'.region.Usable := fun h => husable (halike.usable_iff.mp h)
    have hlast : ¬ last.region.Usable := (hruns.of_not_usable husable).1 ▸ husable
    have hlast' : ¬ last'.region.Usable := (hruns'.of_not_usable husable').1 ▸ husable'
    refine ⟨?_, ?_, fun h => absurd h hlast⟩
    · intro _
      refine ⟨?_, ?_⟩
      · rw [blocks_of_not_usable hlast, blocks_of_not_usable hlast']
      · intro later after _ hlater
        obtain ⟨after', hruns', hblocks, hblocks'⟩ := hlater.elsewhere_of_not_usable hlast hlast'
        exact ⟨after', hruns', by rw [hblocks, hblocks']⟩
    · intro later after hlater _
      have hafter : ¬ after.region.Usable := (hlater.of_not_usable hlast).1 ▸ hlast
      rw [blocks_of_not_usable hafter, blocks_of_not_usable hlast]

/-- A memory that does not start at a multiple of the unit, with a region as large as that of
`sample`. -/
def sampleAstride : Memory :=
  ⟨8190, Memory.repeated 206 0, by rw [Memory.size_repeated]; decide,
    by rw [Memory.size_repeated]; decide⟩

theorem history_independent_sample :
    ∃ first last first' last' after' : Arena Silent, create {} sample ⟨⟩ = .ok first ∧
      create {} sampleAstride ⟨⟩ = .ok first' ∧
      Runs first [(.allocate 8, some 4152), (.allocate 8, some 4216), (.release 4152, none)] last ∧
      Runs first' [(.allocate 3, some 8248), (.allocate 5, some 8312), (.allocate 9, some 8376),
        (.release 8376, none), (.release 8248, none)] last' ∧
      last.blocks.map Block.bare = last'.blocks.map Block.bare ∧
      Runs last' [(.allocate 1, some 8248)] after' := by
  obtain ⟨first, last, hcreate, hregion, hruns, hkept⟩ := @exists_sample_run
    [.allocate 8, .allocate 8, .release 4152]
    [some 4152, some 4216, none] [⟨8, false⟩, ⟨8, true⟩, ⟨16, false⟩] (by decide +kernel)
    (by decide)
  obtain ⟨first', last', hcreate', hregion', hruns', hkept'⟩ :=
    @exists_run_of_cells Silent _ {} sampleAstride ⟨⟩
    [.allocate 3, .allocate 5, .allocate 9, .release 8376, .release 8248]
    [some 8248, some 8312, some 8376, none, none] [⟨8, false⟩, ⟨8, true⟩, ⟨16, false⟩]
    (by decide +kernel) (by decide +kernel) (by decide +kernel) (by decide +kernel)
    (by decide)
  obtain ⟨after, hafter, -⟩ := @Kept.run_of_cells _ last _ _ _ _ [.allocate 1] [some 4152]
    [⟨8, true⟩, ⟨8, true⟩, ⟨16, false⟩] hkept (by decide +kernel) (by decide +kernel)
    (by decide)
  have hcarried : carried (.within ({} : Config).unit sample)
      (.within ({} : Config).unit sampleAstride) [(.allocate 1, some 4152)] =
      [(.allocate 1, some 8248)] := by decide +kernel
  have halike : first.region.Alike first'.region := by
    rw [hregion, hregion']
    exact ⟨rfl, by decide +kernel⟩
  rw [← hregion] at hkept hcarried
  rw [← hregion'] at hkept' hcarried
  obtain ⟨hindependent, -⟩ := Runs.history_independent hcreate hcreate' hruns hruns' halike
  obtain ⟨hblocks, helsewhere⟩ := hindependent fun offset size => by
    rw [hkept.occupies_iff, hkept'.occupies_iff, halike.footprint]
  obtain ⟨after', hafter', -⟩ := helsewhere _ after (by simp) hafter
  rw [hkept.region, hkept'.region] at hafter'
  exact ⟨first, last, first', last', after', hcreate, hcreate', hruns, hruns', hblocks,
    hcarried ▸ hafter'⟩

end Arena

end FirstFit
