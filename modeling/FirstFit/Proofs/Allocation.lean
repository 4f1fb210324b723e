/-
What an allocation does.

The search for a block and the search for a cell stop at the same place, because the
headers say what the cells say (`Region.Tidy.firstFit_of_answers`).  There the block is
trimmed to the request and marked (`Region.handOut`), and the cell is carved.  An allocation
whose checks all succeed is this change of the memory and nothing more; that they do
succeed follows from the invariant, which is then shown for the arena afterwards
(`Arena.Kept.run_allocate`).
-/
import FirstFit.Proofs.Execution

namespace FirstFit

/-! ### The search -/

namespace Cells

/-- Whether a cell can be handed out to a request of so many bytes. -/
def answers (length : Nat) (c : Cell) : Bool := !c.allocated && decide (length ≤ c.size)

variable {r : Region} {length offset n : Nat} {cells pre post : List Cell} {c : Cell}
  {p : Nat × Cell}

theorem answers_iff : answers length c = true ↔ c.allocated = false ∧ length ≤ c.size := by
  simp [answers]

theorem take?_of_none (h : ∀ d ∈ cells, answers length d = false) :
    take? r length offset cells = none := by
  induction cells generalizing offset with
  | nil => rfl
  | cons c rest ih =>
    have hc : ¬ (!c.allocated ∧ length ≤ c.size) := by
      have hno := h c List.mem_cons_self
      simpa [answers] using hno
    rw [take?, if_neg hc, ih fun d hd => h d (List.mem_cons_of_mem _ hd)]
    rfl

theorem take?_append (hpre : ∀ d ∈ pre, answers length d = false) (hc : answers length c = true) :
    take? r length offset (pre ++ c :: post) =
      some (offset + extent r.footprint pre, pre ++ (carve r length c ++ post)) := by
  induction pre generalizing offset with
  | nil =>
    rw [List.nil_append, take?, if_pos (by simpa [answers] using hc)]
    rfl
  | cons d pre ih =>
    have hd : ¬ (!d.allocated ∧ length ≤ d.size) := by
      have hno := hpre d List.mem_cons_self
      simpa [answers] using hno
    rw [List.cons_append, take?, if_neg hd, ih fun e he => hpre e (List.mem_cons_of_mem _ he)]
    simp only [Option.map_some, extent_cons, List.cons_append]
    congr 2
    omega

/-- What an allocation answers, and the cells afterwards. -/
def allocated (r : Region) (request : Nat) (cells : List Cell) : Option Nat × List Cell :=
  match allocate? r request cells with
  | none => (none, cells)
  | some (address, cells) => (some address, cells)

theorem allocated_of_refused (h : r.capacity < n) :
    allocated r n cells = (none, cells) := by
  unfold allocated allocate?
  rw [if_pos h]

theorem allocated_of_none (h : ∀ d ∈ cells, answers (r.unit.ceil n) d = false) :
    allocated r n cells = (none, cells) := by
  unfold allocated allocate?
  rw [take?_of_none h]
  split <;> simp_all

theorem allocated_append (hn : n ≤ r.capacity)
    (hpre : ∀ d ∈ pre, answers (r.unit.ceil n) d = false) (hc : answers (r.unit.ceil n) c = true) :
    allocated r n (pre ++ c :: post) =
      (some (r.payload (extent r.footprint pre)), pre ++ (carve r (r.unit.ceil n) c ++ post)) := by
  unfold allocated allocate?
  rw [if_neg (Nat.not_lt_of_le hn), take?_append hpre hc, Nat.zero_add]
  rfl

/-- Either no cell answers, or there is a first one that does. -/
theorem first_answer (length : Nat) (cells : List Cell) :
    (∀ d ∈ cells, answers length d = false) ∨
      ∃ pre c post, cells = pre ++ c :: post ∧ answers length c = true ∧
        ∀ d ∈ pre, answers length d = false := by
  cases hfind : cells.find? (answers length) with
  | none => exact .inl fun d hd => by simpa using List.find?_eq_none.mp hfind d hd
  | some c =>
    obtain ⟨hc, pre, post, hcells, hpre⟩ := List.find?_eq_some_iff_append.mp hfind
    exact .inr ⟨pre, c, post, hcells, hc, fun d hd => by simpa using hpre d hd⟩

/-- An allocation finds no cell, or it carves the first one that answers. -/
theorem allocated_cases (r : Region) (n : Nat) (cells : List Cell) :
    allocated r n cells = (none, cells) ∨
      ∃ pre c post, cells = pre ++ c :: post ∧ answers (r.unit.ceil n) c = true ∧
        (∀ d ∈ pre, answers (r.unit.ceil n) d = false) ∧ n ≤ r.capacity ∧
        allocated r n cells = (some (r.payload (extent r.footprint pre)),
          pre ++ (carve r (r.unit.ceil n) c ++ post)) := by
  by_cases hn : r.capacity < n
  · exact .inl (allocated_of_refused hn)
  rw [Nat.not_lt] at hn
  rcases first_answer (r.unit.ceil n) cells with hnone | ⟨pre, c, post, rfl, hc, hpre⟩
  · exact .inl (allocated_of_none hnone)
  · exact .inr ⟨pre, c, post, rfl, hc, hpre, hn, allocated_append hn hpre hc⟩

theorem extent_carve {length : Nat} (h : length ≤ c.size) :
    extent r.footprint (carve r length c) = r.footprint + c.size := by
  have hunit := r.unit.bytes_pos
  unfold carve
  split
  · simp only [extent_cons, extent_nil]
    omega
  · simp

theorem place_allocated (h : p ∈ place r.footprint 0 cells) (hp : p.2.allocated = true) :
    p ∈ place r.footprint 0 (allocated r n cells).2 := by
  rcases allocated_cases r n cells with hnone | ⟨pre, c, post, rfl, hc, -, -, hallocated⟩
  · rw [hnone]
    exact h
  · obtain ⟨hfree, hle⟩ := answers_iff.mp hc
    rw [hallocated, place_append, place_append, extent_carve hle]
    rcases mem_place_append_cons.mp h with hpre | rfl | hpost
    · exact List.mem_append_left _ hpre
    · rw [hfree] at hp
      simp at hp
    · refine List.mem_append_right _ (List.mem_append_right _ ?_)
      rw [Nat.zero_add, ← Nat.add_assoc]
      exact hpost

/-- Carving a cell makes one allocated cell, where the cell was, and leaves the others where
they are. -/
theorem place_of_carve {length : Nat} (hle : length ≤ c.size)
    (hp : p ∈ place r.footprint 0 (pre ++ (carve r length c ++ post)))
    (hallocated : p.2.allocated = true) :
    p ∈ place r.footprint 0 (pre ++ c :: post) ∨ p.1 = extent r.footprint pre := by
  rw [place_append, place_append, extent_carve hle, Nat.zero_add, ← Nat.add_assoc] at hp
  rw [mem_place_append_cons]
  rcases List.mem_append.mp hp with hpre | hp
  · exact .inl (.inl hpre)
  rcases List.mem_append.mp hp with hcarve | hpost
  · unfold carve at hcarve
    split at hcarve
    · simp only [place_cons, place_nil, List.mem_cons, List.not_mem_nil, or_false] at hcarve
      rcases hcarve with rfl | rfl
      · exact .inr rfl
      · simp at hallocated
    · rw [List.mem_singleton.mp hcarve]
      exact .inr rfl
  · exact .inl (.inr (.inr hpost))

/-- What is handed out is an allocated cell that is long enough, and not longer than it has
to be. -/
theorem place_granted {address : Nat} {after : List Cell}
    (h : allocated r n cells = (some address, after)) :
    ∃ p ∈ place r.footprint 0 after, p.2.allocated = true ∧ address = r.payload p.1 ∧
      r.unit.ceil n ≤ p.2.size ∧ p.2.size < r.unit.ceil n + r.footprint + r.unit.bytes := by
  have hunit := r.unit.bytes_pos
  rcases allocated_cases r n cells with hnone | ⟨pre, c, post, rfl, hc, -, -, hallocated⟩
  · rw [hnone] at h
    cases h
  · obtain ⟨-, hle⟩ := answers_iff.mp hc
    rw [hallocated] at h
    obtain ⟨haddress, rfl⟩ := Prod.mk.inj h
    rw [Option.some.injEq] at haddress
    unfold carve
    split
    · next hroom =>
      refine ⟨(extent r.footprint pre, ⟨r.unit.ceil n, true⟩), ?_, rfl, ?_, Nat.le_refl _, ?_⟩
      · exact mem_place_append_cons.mpr (.inr (.inl rfl))
      · exact haddress.symm
      · show r.unit.ceil n < _
        omega
    · next hroom =>
      refine ⟨(extent r.footprint pre, ⟨c.size, true⟩), ?_, rfl, ?_, hle, ?_⟩
      · exact mem_place_append_cons.mpr (.inr (.inl rfl))
      · exact haddress.symm
      · show c.size < _
        omega

theorem free_of_granted {o : Nat} {after : List Cell}
    (h : allocated r n cells = (some (r.payload o), after))
    (hp : p ∈ place r.footprint 0 cells) (hplace : p.1 = o) : p.2.allocated = false := by
  rcases allocated_cases r n cells with hnone | ⟨pre, c, post, rfl, hc, -, -, hallocated⟩
  · rw [hnone] at h
    cases h
  · rw [hallocated] at h
    have haddress := Option.some.inj (Prod.mk.inj h).1
    have hoffset : extent r.footprint pre = o := by
      unfold Region.payload at haddress
      omega
    have hcell : (extent r.footprint pre, c) ∈ place r.footprint 0 (pre ++ c :: post) :=
      mem_place_append_cons.mpr (.inr (.inl rfl))
    rw [place_unique hp hcell (hplace.trans hoffset.symm)]
    exact (answers_iff.mp hc).1

theorem Held.answers_eq {header : Nat → Header} {prev : Link}
    (h : Held r header prev offset cells) {p : Nat × Cell}
    (hp : p ∈ place r.footprint offset cells) :
    ((Block.mk p.1 (header p.1)).isFree && decide (length ≤ (Block.mk p.1 (header p.1)).size)) =
      answers length p.2 := by
  obtain ⟨_, hd⟩ := h.describes hp
  show ((header p.1).isFree && decide (length ≤ (header p.1).size)) = _
  rw [hd.isFree, hd.size]
  rfl

/-- Carving a free cell leaves no two free cells in a row: what is free of it is behind an
allocated cell, and before what stood behind it. -/
theorem merged_carve (h : Merged (pre ++ c :: post)) (hfree : c.allocated = false) :
    Merged (pre ++ (carve r length c ++ post)) := by
  obtain ⟨hpre, hpost, hcases⟩ := merged_middle.mp h
  rcases hcases with hallocated | ⟨-, hhead⟩
  · rw [hfree] at hallocated
    simp at hallocated
  · unfold carve
    split
    · have hrest : Merged ([] ++ ⟨c.size - length - r.footprint, false⟩ :: post) :=
        merged_middle.mpr ⟨.nil, hpost, .inr ⟨by simp, hhead⟩⟩
      exact merged_middle.mpr ⟨hpre, hrest, .inl rfl⟩
    · exact merged_middle.mpr ⟨hpre, hpost, .inl rfl⟩

/-- A rest is only cut off if it has room for a unit. -/
theorem roomy_carve (hcovers : extent r.footprint (pre ++ c :: post) = r.capacity)
    (h : ∀ o ∈ offsets r.footprint (pre ++ c :: post),
      o + r.footprint + r.unit.bytes ≤ r.capacity) :
    ∀ o ∈ offsets r.footprint (pre ++ (carve r length c ++ post)),
      o + r.footprint + r.unit.bytes ≤ r.capacity := by
  intro o ho
  have hunit := r.unit.bytes_pos
  rw [extent_append, extent_cons] at hcovers
  unfold carve at ho
  split at ho
  · have hsize : c.size = length + r.footprint + (c.size - length - r.footprint) := by omega
    rcases (mem_offsets_two hsize).mp ho with hold | rfl
    · exact h o hold
    · show extent r.footprint pre + r.footprint + length + r.footprint + r.unit.bytes ≤ _
      omega
  · rw [List.singleton_append, @offsets_congr r.footprint pre post c ⟨c.size, true⟩ rfl] at ho
    exact h o ho

end Cells

namespace Region.Tidy

open Cells

variable {r : Region} {m : Memory} {length : Nat} {cells pre post : List Cell} {c : Cell}

theorem firstFit_of_none (h : r.Tidy m cells) (hnone : ∀ d ∈ cells, answers length d = false) :
    (Walk.through r m).firstFit length = .ok none := by
  have hfind : (blocks r.footprint (r.headerAt m) 0 cells).find?
      (fun b => b.isFree && decide (length ≤ b.size)) = none := by
    refine List.find?_eq_none.mpr fun b hb => ?_
    obtain ⟨p, hp, rfl⟩ := List.mem_map.mp hb
    rw [h.held.answers_eq hp, hnone _ (mem_of_mem_place hp)]
    decide
  rw [h.walk_eq]
  unfold Walk.firstFit
  rw [hfind]

theorem firstFit_of_answers (h : r.Tidy m (pre ++ c :: post))
    (hpre : ∀ d ∈ pre, answers length d = false) (hc : answers length c = true) :
    (Walk.through r m).firstFit length =
      .ok (some ⟨extent r.footprint pre, r.headerAt m (extent r.footprint pre)⟩) := by
  have hplace : place r.footprint 0 (pre ++ c :: post) =
      place r.footprint 0 pre ++ (extent r.footprint pre, c) ::
        place r.footprint (extent r.footprint pre + r.footprint + c.size) post := by
    rw [place_append, Nat.zero_add, place_cons]
  have hmem : (extent r.footprint pre, c) ∈ place r.footprint 0 (pre ++ c :: post) := by
    rw [hplace]
    simp
  have hfind : (blocks r.footprint (r.headerAt m) 0 (pre ++ c :: post)).find?
      (fun b => b.isFree && decide (length ≤ b.size)) =
      some ⟨extent r.footprint pre, r.headerAt m (extent r.footprint pre)⟩ := by
    refine List.find?_eq_some_iff_append.mpr ⟨(h.held.answers_eq hmem).trans hc,
      blocks r.footprint (r.headerAt m) 0 pre,
      blocks r.footprint (r.headerAt m) (extent r.footprint pre + r.footprint + c.size) post,
      ?_, fun b hb => ?_⟩
    · rw [blocks, hplace, List.map_append, List.map_cons]
      rfl
    · obtain ⟨p, hp, rfl⟩ := List.mem_map.mp hb
      have hin : p ∈ place r.footprint 0 (pre ++ c :: post) := by
        rw [hplace]
        exact List.mem_append_left _ hp
      rw [h.held.answers_eq hin, hpre _ (mem_of_mem_place hp)]
      rfl
  have hcheck : (Block.mk (extent r.footprint pre)
      (r.headerAt m (extent r.footprint pre))).check? = none :=
    h.toLaid.at_middle.2.1.check? _
  rw [h.walk_eq]
  unfold Walk.firstFit
  rw [hfind]
  dsimp only
  rw [hcheck]

end Region.Tidy

/-! ### The memory afterwards -/

namespace Region

/-- Cuts off what a block has behind its first `length` bytes, if it has room for a block. -/
def trim (r : Region) (m : Memory) (b : Block) (length : Nat) : Memory :=
  if r.footprint + r.unit.bytes ≤ b.size - length then r.cut m b length else m

/-- Hands out a free block that answers a request of `length` bytes. -/
def handOut (r : Region) (m : Memory) (b : Block) (length : Nat) (token : Option Token) : Memory :=
  let trimmed := r.trim m b length
  r.setHeader trimmed b.offset ((r.headerAt trimmed b.offset).granted token)

variable {r : Region} {m : Memory} {b : Block} {length : Nat} {token : Option Token}

@[simp] theorem start_trim : (r.trim m b length).start = m.start := by
  unfold trim
  split <;> simp

@[simp] theorem size_trim : (r.trim m b length).size = m.size := by
  unfold trim
  split <;> simp

@[simp] theorem start_handOut : (r.handOut m b length token).start = m.start := by simp [handOut]
@[simp] theorem size_handOut : (r.handOut m b length token).size = m.size := by simp [handOut]

end Region

namespace Region.Laid

open Cells

variable {r : Region} {m : Memory} {length : Nat} {pre post : List Cell} {c : Cell}

theorem grant (hl : r.Laid m (pre ++ c :: post)) (token : Option Token) :
    r.Laid (r.setHeader m (extent r.footprint pre)
      ((r.headerAt m (extent r.footprint pre)).granted token)) (pre ++ ⟨c.size, true⟩ :: post) := by
  obtain ⟨-, hc, -⟩ := hl.at_middle
  refine hl.replace (fits_headerAt.granted token) rfl ?_
  exact ⟨hc.leading, hc.trailing, hc.size, rfl, rfl, rfl, fun h => by simp at h⟩

/-- A free cell is trimmed to the first part of what it is carved into, and that is long
enough but not longer than it has to be. -/
theorem trim (hl : r.Laid m (pre ++ c :: post)) (hfree : c.allocated = false)
    (hdvd : r.unit.bytes ∣ length) (hle : length ≤ c.size) :
    ∃ size rest, carve r length c = ⟨size, true⟩ :: rest ∧ (∀ d ∈ rest, d.allocated = false) ∧
      r.Laid (r.trim m ⟨extent r.footprint pre, r.headerAt m (extent r.footprint pre)⟩ length)
        (pre ++ ⟨size, false⟩ :: (rest ++ post)) ∧
      r.Rearranged m
        (r.trim m ⟨extent r.footprint pre, r.headerAt m (extent r.footprint pre)⟩ length)
        (offsets r.footprint (pre ++ c :: post))
        (offsets r.footprint (pre ++ ⟨size, false⟩ :: (rest ++ post))) ∧
      (∀ o ∈ offsets r.footprint (pre ++ c :: post),
        o ∈ offsets r.footprint (pre ++ ⟨size, false⟩ :: (rest ++ post))) ∧
      length ≤ size ∧ size < length + r.footprint + r.unit.bytes := by
  obtain ⟨-, hc, -⟩ := hl.at_middle
  have hsize : (Block.mk (extent r.footprint pre) (r.headerAt m (extent r.footprint pre))).size =
      c.size := hc.size
  have hunit := r.unit.bytes_pos
  have hpos := r.footprint_pos
  unfold carve Region.trim
  rw [hsize]
  by_cases hroom : r.footprint + r.unit.bytes ≤ c.size - length
  · rw [if_pos hroom, if_pos hroom]
    have hcut := hl.cut hdvd (by omega)
    have hrearranged := hl.rearranged_cut (show length + r.footprint ≤ c.size by omega)
    rw [hfree] at hcut hrearranged
    have hsize : c.size = length + r.footprint + (c.size - length - r.footprint) := by omega
    exact ⟨length, _, rfl, by simp, hcut, hrearranged,
      fun o ho => (mem_offsets_two hsize).mpr (.inl ho), Nat.le_refl _, by omega⟩
  · rw [if_neg hroom, if_neg hroom]
    rw [← hfree]
    exact ⟨c.size, [], rfl, by simp, hl, .refl m _, fun _ ho => ho, hle, by omega⟩

end Region.Laid

namespace Region.Tidy

variable {r : Region} {m : Memory} {length : Nat} {pre post : List Cell} {c : Cell}

open Cells

/-- Handing out a cell keeps everything in order, and tells how many bytes were handed out. -/
theorem handOut (h : r.Tidy m (pre ++ c :: post)) (hfree : c.allocated = false)
    (hdvd : r.unit.bytes ∣ length) (hle : length ≤ c.size) (token : Option Token) :
    r.Tidy
        (r.handOut m ⟨extent r.footprint pre, r.headerAt m (extent r.footprint pre)⟩ length token)
        (pre ++ (carve r length c ++ post)) ∧
      r.Swept m
        (r.handOut m ⟨extent r.footprint pre, r.headerAt m (extent r.footprint pre)⟩ length token)
        (offsets r.footprint (pre ++ c :: post))
        (offsets r.footprint (pre ++ (carve r length c ++ post))) := by
  obtain ⟨size, rest, hcarve, -, hlaid, htrim, -⟩ := h.toLaid.trim hfree hdvd hle
  have hmerged := @merged_carve r length _ _ _ h.merged hfree
  have hroomy := @roomy_carve r length _ _ _ h.covers h.roomy
  rw [hcarve, List.cons_append] at hmerged hroomy ⊢
  refine ⟨⟨hlaid.grant token, hmerged, hroomy⟩, ?_⟩
  rw [@offsets_congr r.footprint pre (rest ++ post) ⟨size, false⟩ ⟨size, true⟩ rfl]
  exact htrim.toSwept.trans (Laid.swept_replace _) (fun _ ho => .inr ho) (fun _ _ ho => ho)

theorem trace_handOut (h : r.Tidy m (pre ++ c :: post)) (hfree : c.allocated = false)
    (hdvd : r.unit.bytes ∣ length) (hle : length ≤ c.size) (token : Option Token) {o : Nat}
    (ho : o ∈ offsets r.footprint (pre ++ c :: post)) :
    (r.headerAt (r.handOut m ⟨extent r.footprint pre, r.headerAt m (extent r.footprint pre)⟩ length
      token) o).trace =
      if o = extent r.footprint pre then token else (r.headerAt m o).trace := by
  obtain ⟨size, rest, -, -, hlaid, htrim, hsubset, -⟩ := h.toLaid.trim hfree hdvd hle
  have hblock := @mem_offsets_middle r.footprint pre post c
  unfold Region.handOut
  by_cases heq : o = extent r.footprint pre
  · subst heq
    rw [if_pos rfl]
    exact congrArg Header.trace (headerAt_setHeader hlaid.lies
      (h.toLaid.room_of_mem_offsets hblock) (fits_headerAt.granted token))
  · have hapart := (apart_of_mem_offsets ho hblock).resolve_left heq
    rw [if_neg heq, headerAt_setHeader_of_apart hapart]
    exact htrim.tokens o ho (hsubset o ho)

end Region.Tidy

/-! ### The run of an allocation -/

namespace Arena

variable {τ : Type} {arena : Arena τ} {r : Region} {n : Nat}

theorem run_trim {b : Block} {length : Nat} {α : Type} {rest : Act τ α} (hr : arena.region = r)
    (hlies : r.Lies arena.memory) (hblock : r.Admits b.offset)
    (hrest : r.footprint + r.unit.bytes ≤ b.size - length →
      r.Admits (b.offset + r.footprint + length))
    (hnext : ∀ n ∈ b.header.next, r.Admits n) :
    ∃ journal, (if r.footprint + r.unit.bytes ≤ b.size - length then
        Act.split b length >>= fun _ => rest else rest).run arena =
      rest.run { arena with memory := r.trim arena.memory b length, journal } := by
  unfold Region.trim
  split
  · next hroom =>
    exact ⟨_, Act.run_bind_ok (Act.run_split hr hlies hblock (hrest hroom) hnext)⟩
  · exact ⟨arena.journal, rfl⟩

variable {cells pre post : List Cell} {c : Cell} {steps : Nat}

theorem Kept.found (h : arena.Kept r (pre ++ c :: post) steps)
    (hpre : ∀ d ∈ pre, Cells.answers (r.unit.ceil n) d = false)
    (hc : Cells.answers (r.unit.ceil n) c = true) :
    (Walk.through r arena.memory).firstFit (r.unit.ceil n) = .ok (some
        ⟨Cells.extent r.footprint pre, r.headerAt arena.memory (Cells.extent r.footprint pre)⟩) ∧
      r.Admits (Cells.extent r.footprint pre) ∧
      (∀ next ∈ (r.headerAt arena.memory (Cells.extent r.footprint pre)).next, r.Admits next) ∧
      (r.footprint + r.unit.bytes ≤
          (r.headerAt arena.memory (Cells.extent r.footprint pre)).size - r.unit.ceil n →
        r.Admits (Cells.extent r.footprint pre + r.footprint + r.unit.ceil n)) := by
  obtain ⟨hoffset, -, hcovers⟩ := h.tidy.toLaid.middle_fits
  obtain ⟨-, hdescribes, -⟩ := h.tidy.toLaid.at_middle
  have hunit := r.unit.bytes_pos
  refine ⟨h.tidy.firstFit_of_answers hpre hc, h.tidy.toLaid.middle_admits, ?_, ?_⟩
  · intro next hlink
    exact h.tidy.toLaid.admits_of_mem_linkTo next (hdescribes.next ▸ hlink)
  · intro hroom
    rw [hdescribes.size] at hroom
    exact h.tidy.lies.admits_iff.mpr
      ⟨Nat.dvd_add (Nat.dvd_add hoffset r.dvd_footprint) (r.unit.dvd_ceil n), by omega⟩

variable [Tracer τ]

theorem run_allocate_refused (hr : arena.region = r) (h : ¬ r.Usable ∨ r.capacity < n) :
    (allocate n).run arena = .ok none arena := by
  subst hr
  unfold allocate
  rw [Act.run_bind_ok (EStateM.run_get _)]
  dsimp only
  rw [if_pos h]
  rfl

/-- A request that is not refused is rounded, and then a block is looked for. -/
theorem run_allocate_search (hr : arena.region = r) (hlies : r.Lies arena.memory)
    (hn : n ≤ r.capacity) :
    (allocate n).run arena = EStateM.run (do
      match ← Act.sound ((Walk.through r arena.memory).firstFit (r.unit.ceil n)) with
      | none =>
        Act.note (.noRoom n (r.unit.ceil n))
        return none
      | some b =>
        if r.footprint + r.unit.bytes ≤ b.size - r.unit.ceil n then
          Act.split b (r.unit.ceil n)
        let size ← Act.grant b.offset
        if arena.config.verify.afterAllocate then
          Act.verify
        Act.note (.allocated n b.offset size)
        return some (r.payload b.offset)) arena := by
  subst hr
  unfold allocate
  rw [Act.run_bind_ok (EStateM.run_get _)]
  dsimp only
  rw [if_neg (by simpa [hlies.usable] using hn)]
  rw [(hlies.roundUp hn).1, Act.run_bind_ok (Act.run_checked_ok _)]
  rfl

theorem run_allocate_none (hr : arena.region = r) (hlies : r.Lies arena.memory)
    (hn : n ≤ r.capacity)
    (hfit : (Walk.through r arena.memory).firstFit (r.unit.ceil n) = .ok none) :
    ∃ journal, (allocate n).run arena = .ok none { arena with journal } := by
  rw [run_allocate_search hr hlies hn, hfit]
  exact ⟨_, rfl⟩

/-- A search that comes to damage ends the allocation before anything is changed. -/
theorem run_allocate_damaged {c : Corruption} (hr : arena.region = r)
    (hlies : r.Lies arena.memory) (hn : n ≤ r.capacity)
    (hfit : (Walk.through r arena.memory).firstFit (r.unit.ceil n) = .error c) :
    (allocate n).run arena = .error (.corrupt c) arena := by
  rw [run_allocate_search hr hlies hn, hfit]
  rfl

/-- What a request that finds a block has still to do. -/
theorem run_allocate_fits {b : Block} (hr : arena.region = r) (hlies : r.Lies arena.memory)
    (hn : n ≤ r.capacity)
    (hfit : (Walk.through r arena.memory).firstFit (r.unit.ceil n) = .ok (some b)) :
    (allocate n).run arena = EStateM.run (do
      if r.footprint + r.unit.bytes ≤ b.size - r.unit.ceil n then
        Act.split b (r.unit.ceil n)
      let size ← Act.grant b.offset
      if arena.config.verify.afterAllocate then
        Act.verify
      Act.note (.allocated n b.offset size)
      return some (r.payload b.offset)) arena := by
  rw [run_allocate_search hr hlies hn, hfit]
  rfl

theorem run_allocate_found {b : Block} {length : Nat} (hr : arena.region = r)
    (hlies : r.Lies arena.memory) (hn : n ≤ r.capacity) (hlength : r.unit.ceil n = length)
    (hfit : (Walk.through r arena.memory).firstFit length = .ok (some b))
    (hblock : r.Admits b.offset) (hnext : ∀ n ∈ b.header.next, r.Admits n)
    (hrest : r.footprint + r.unit.bytes ≤ b.size - length →
      r.Admits (b.offset + r.footprint + length)) :
    ∃ journal, (allocate n).run arena = EStateM.run (do
      let size ← Act.grant b.offset
      if arena.config.verify.afterAllocate then
        Act.verify
      Act.note (.allocated n b.offset size)
      return some (r.payload b.offset))
      { arena with memory := r.trim arena.memory b length, journal } := by
  subst hlength
  rw [run_allocate_fits hr hlies hn hfit]
  exact run_trim hr hlies hblock hrest hnext

theorem run_allocate_some {b : Block} {length : Nat} (hr : arena.region = r)
    (hlies : r.Lies arena.memory) (hn : n ≤ r.capacity) (hlength : r.unit.ceil n = length)
    (hfit : (Walk.through r arena.memory).firstFit length = .ok (some b))
    (hblock : r.Admits b.offset) (hnext : ∀ n ∈ b.header.next, r.Admits n)
    (hrest : r.footprint + r.unit.bytes ≤ b.size - length →
      r.Admits (b.offset + r.footprint + length))
    (hused : arena.stats.used + (r.headerAt (r.trim arena.memory b length) b.offset).size < 2 ^ 64)
    (hlive : arena.stats.live + 1 < 2 ^ 64) (hallocs : arena.stats.allocs + 1 < 2 ^ 64)
    (hverdict :
      (Walk.through r (r.handOut arena.memory b length arena.captured.1)).verdict = .ok ()) :
    ∃ journal, (allocate n).run arena = .ok (some (r.payload b.offset)) {
      config := arena.config
      memory := r.handOut arena.memory b length arena.captured.1
      tracer := arena.captured.2
      stats := arena.stats.granted (r.headerAt (r.trim arena.memory b length) b.offset).size
      journal } := by
  obtain ⟨journal, hfound⟩ := run_allocate_found hr hlies hn hlength hfit hblock hnext hrest
  refine ⟨journal.push (.allocated n b.offset
    (r.headerAt (r.trim arena.memory b length) b.offset).size), ?_⟩
  rw [hfound, Act.run_bind_ok (Act.run_grant (Arena.region_mk hr (by simp) (by simp))
    (hlies.congr (by simp) (by simp)) hblock (by exact hused) (by exact hlive) (by exact hallocs))]
  rw [Act.run_verify_if (Arena.region_mk (Arena.region_mk hr (by simp) (by simp)) (by simp)
    (by simp)) (by exact hverdict)]
  rfl

/-- A request that no cell answers changes no more than the journal. -/
theorem Kept.run_allocate_unanswered (h : arena.Kept r cells steps)
    (hnone : (Cells.allocated r n cells).1 = none) :
    ∃ journal, (allocate n).run arena = .ok none { arena with journal } := by
  by_cases hn : r.capacity < n
  · exact ⟨arena.journal, run_allocate_refused h.region (.inr hn)⟩
  rw [Nat.not_lt] at hn
  rcases Cells.first_answer (r.unit.ceil n) cells with hall | ⟨pre, c, post, rfl, hc, hpre⟩
  · exact run_allocate_none h.region h.tidy.lies hn (h.tidy.firstFit_of_none hall)
  · rw [Cells.allocated_append hn hpre hc] at hnone
    cases hnone

/-- An allocation that hands out a block counts it, so its count is a word. -/
theorem Kept.allocs_lt_of_run_allocate (h : arena.Kept r cells steps) {answer : Option Nat}
    {next : Arena τ} (hsome : (Cells.allocated r n cells).1 ≠ none)
    (hrun : (allocate n).run arena = .ok answer next) : arena.stats.allocs + 1 < 2 ^ 64 := by
  have hlies := h.tidy.lies
  by_cases hn : r.capacity < n
  · rw [Cells.allocated_of_refused hn] at hsome
    exact absurd rfl hsome
  rw [Nat.not_lt] at hn
  rcases Cells.first_answer (r.unit.ceil n) cells with hall | ⟨pre, c, post, rfl, hc, hpre⟩
  · rw [Cells.allocated_of_none hall] at hsome
    exact absurd rfl hsome
  · obtain ⟨hfit, hblock, hnext, hrest⟩ := h.found hpre hc
    obtain ⟨journal, hfound⟩ := run_allocate_found h.region hlies hn rfl hfit hblock hnext hrest
    rw [hfound] at hrun
    obtain ⟨size, mid, hgrant, -⟩ := Act.of_run_bind hrun
    have hlt := Act.allocs_lt_of_run_grant hgrant (Arena.region_mk h.region (by simp) (by simp))
      (hlies.congr (by simp) (by simp)) hblock
    exact hlt

/-- **An allocation succeeds, answers as it does on the cells, and changes the cells so.**  It
counts what it hands out, and nothing else, and asks for one token for it. -/
theorem Kept.run_allocate (h : arena.Kept r cells steps) (hsteps : steps + 1 < 2 ^ 64) (n : Nat) :
    ∃ next, (allocate n).run arena = .ok (Cells.allocated r n cells).1 next ∧
      next.Kept r (Cells.allocated r n cells).2 (steps + 1) ∧
      r.Swept arena.memory next.memory (Cells.offsets r.footprint cells)
        (Cells.offsets r.footprint (Cells.allocated r n cells).2) ∧
      arena.KeepsTokens next r cells (Cells.allocated r n cells).2
        (Cells.allocated r n cells).1 ∧
      next.config = arena.config ∧
      next.tracer = (if (Cells.allocated r n cells).1 = none then arena.tracer
        else arena.captured.2) ∧
      ∃ size, next.stats = if (Cells.allocated r n cells).1 = none then arena.stats
        else arena.stats.granted size := by
  have hlies := h.tidy.lies
  rcases Cells.allocated_cases r n cells with hnone | ⟨pre, c, post, rfl, hc, hpre, hn, hsome⟩
  · obtain ⟨journal, hrun⟩ := h.run_allocate_unanswered (congrArg Prod.fst hnone)
    rw [hnone]
    exact ⟨_, hrun, ⟨h.region, h.tidy, h.counts.later⟩, .refl _ _, fun p hp _ => .inl ⟨hp, rfl⟩,
      rfl, rfl, 0, rfl⟩
  · obtain ⟨hfree, hle⟩ := Cells.answers_iff.mp hc
    have hdvd := r.unit.dvd_ceil n
    obtain ⟨htidy, hswept⟩ := h.tidy.handOut hfree hdvd hle arena.captured.1
    obtain ⟨size, rest, hcarve, hrest, hlaid, -, -, hlow, -⟩ := h.tidy.toLaid.trim hfree hdvd hle
    have hsize : (r.headerAt (r.trim arena.memory ⟨Cells.extent r.footprint pre,
        r.headerAt arena.memory (Cells.extent r.footprint pre)⟩ (r.unit.ceil n))
        (Cells.extent r.footprint pre)).size = size := hlaid.at_middle.2.1.size
    have hcounts : (arena.stats.granted size).Counts (pre ++ ⟨size, true⟩ :: (rest ++ post))
        (steps + 1) := h.counts.granted hfree hrest
    rw [← List.cons_append, ← hcarve] at hcounts
    -- The checked sums are the counters afterwards, so they are words.
    obtain ⟨hused, hlive, hallocs, -⟩ := hcounts.words r.footprint (by
      have hcapacity := hlies.capacity_lt
      rw [htidy.covers]
      omega) hsteps
    obtain ⟨hfit, hblock, hnext, hroom⟩ := h.found hpre hc
    obtain ⟨journal, hrun⟩ := run_allocate_some h.region hlies hn rfl hfit hblock hnext hroom
      (by rw [hsize]; exact hused) hlive hallocs htidy.verdict_eq
    rw [hsize] at hrun
    rw [hsome]
    refine ⟨_, hrun, ⟨Arena.region_mk h.region (by simp) (by simp), htidy, hcounts⟩, hswept, ?_,
      rfl, rfl, size, rfl⟩
    -- The cell that was handed out is the one at the place of the carved one.
    intro p hp hallocated
    by_cases heq : p.1 = Cells.extent r.footprint pre
    · have htrace := h.tidy.trace_handOut hfree hdvd hle arena.captured.1
        (Cells.mem_offsets_middle pre post c)
      rw [if_pos rfl] at htrace
      rw [heq]
      exact .inr ⟨rfl, htrace⟩
    · have hbefore := (Cells.place_of_carve hle hp hallocated).resolve_right heq
      refine .inl ⟨hbefore, ?_⟩
      exact (h.tidy.trace_handOut hfree hdvd hle _ (Cells.mem_offsets.mpr ⟨p.2, hbefore⟩)).trans
        (if_neg heq)

/-- A cell that was allocated keeps its token when another one is handed out. -/
theorem KeepsTokens.trace_eq {next : Arena τ} {address : Nat} {after : List Cell}
    (h : arena.KeepsTokens next r cells after (some address))
    (hafter : Cells.allocated r n cells = (some address, after)) {p : Nat × Cell}
    (hp : p ∈ Cells.place r.footprint 0 cells) (hallocated : p.2.allocated = true) :
    (r.headerAt next.memory p.1).trace = (r.headerAt arena.memory p.1).trace := by
  have hstays := @Cells.place_allocated r n cells p hp hallocated
  rw [hafter] at hstays
  rcases h p hstays hallocated with ⟨-, htrace⟩ | ⟨hsame, -⟩
  · exact htrace
  · rw [hsame] at hafter
    rw [Cells.free_of_granted hafter hp rfl] at hallocated
    cases hallocated

theorem KeepsTokens.trace_granted {next : Arena τ} {o : Nat} {after : List Cell}
    (h : arena.KeepsTokens next r cells after (some (r.payload o)))
    (hafter : Cells.allocated r n cells = (some (r.payload o), after))
    (hp : (o, c) ∈ Cells.place r.footprint 0 after) (hallocated : c.allocated = true) :
    (r.headerAt next.memory o).trace = arena.captured.1 := by
  rcases h (o, c) hp hallocated with ⟨hbefore, -⟩ | ⟨-, htrace⟩
  · have hfree := Cells.free_of_granted hafter hbefore rfl
    rw [hallocated] at hfree
    cases hfree
  · exact htrace

end Arena

end FirstFit
