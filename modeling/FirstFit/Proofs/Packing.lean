/-
Requests that fill a region exactly.

A free cell at the end of a list is packed from its start: each request gets a cell of its
rounded size, and what is left over is free again (`Cells.allocated_split`).  That a rest is
always cut off, and none is handed out with a request, is not obvious from the sum of the
requests alone.  It depends on the requests that are still to come: the last of them asks for
something, so together with its footprint it takes up what a rest must have room for
(`Cells.room_of_packed`), and it fits without a rest (`Cells.allocated_exact`).  The induction
over the requests, with the cells in front as they may be, is `Cells.run?_packed`.
-/
import FirstFit.Proofs.Accounting

namespace FirstFit

/-- Where requests go that are packed one behind the other: as far behind the first as the
requests in front, rounded and with a footprint each, take up. -/
def Region.packedAt (r : Region) (requests : List Nat) (i : Nat) : Nat :=
  ((requests.take i).map fun n => r.footprint + r.unit.ceil n).sum

namespace Cells

variable {r : Region} {pre : List Cell} {requests : List Nat} {n size offset : Nat}

/-- The cells of requests that get no more than they are rounded to. -/
def packed (r : Region) (requests : List Nat) : List Cell :=
  requests.map fun n => ⟨r.unit.ceil n, true⟩

@[simp] theorem packed_cons (n : Nat) (requests : List Nat) :
    packed r (n :: requests) = ⟨r.unit.ceil n, true⟩ :: packed r requests := rfl

theorem extent_packed_cons : extent r.footprint (packed r (n :: requests)) =
    r.footprint + r.unit.ceil n + extent r.footprint (packed r requests) := extent_cons _ _

theorem allocated_of_mem_packed {c : Cell} (h : c ∈ packed r requests) : c.allocated = true := by
  obtain ⟨n, -, rfl⟩ := List.mem_map.mp h
  rfl

theorem used_packed : used (packed r requests) = (requests.map r.unit.ceil).sum := by
  induction requests with
  | nil => rfl
  | cons n rest ih => rw [packed_cons, used_cons, ih, if_pos rfl, List.map_cons, List.sum_cons]

theorem vacant_packed : vacant (packed r requests) = 0 := by
  induction requests with
  | nil => rfl
  | cons n rest ih => rw [packed_cons, vacant_cons, ih, if_pos rfl]

/-- What packed requests take up: their rounded sizes, and a footprint each. -/
theorem extent_packed : extent r.footprint (packed r requests) =
    (requests.map r.unit.ceil).sum + requests.length * r.footprint := by
  have hlength : (packed r requests).length = requests.length := List.length_map _
  rw [extent_eq, used_packed, vacant_packed, hlength, Nat.add_zero, Nat.mul_comm]

/-- Of the footprints one leads the first request, and the others are between two of them. -/
theorem extent_packed_of_ne_nil (h : requests ≠ []) : extent r.footprint (packed r requests) =
    r.footprint + ((requests.map r.unit.ceil).sum + (requests.length - 1) * r.footprint) := by
  rw [extent_packed]
  obtain ⟨k, hk⟩ := Nat.exists_eq_add_of_lt (List.length_pos_of_ne_nil h)
  rw [hk, Nat.zero_add, Nat.add_sub_cancel, Nat.succ_mul]
  omega

theorem length_le_extent_packed : requests.length ≤ extent r.footprint (packed r requests) := by
  rw [extent_packed]
  exact Nat.le_trans (Nat.le_mul_of_pos_right _ r.footprint_pos) (Nat.le_add_left _ _)

@[simp] theorem packedAt_cons_zero : r.packedAt (n :: requests) 0 = 0 := rfl

@[simp] theorem packedAt_cons_succ (i : Nat) :
    r.packedAt (n :: requests) (i + 1) =
      r.footprint + r.unit.ceil n + r.packedAt requests i := by
  simp [Region.packedAt]

theorem place_packed : place r.footprint offset (packed r requests) =
    requests.mapIdx fun i n => (offset + r.packedAt requests i, ⟨r.unit.ceil n, true⟩) := by
  induction requests generalizing offset with
  | nil => rfl
  | cons n rest ih =>
    rw [packed_cons, place_cons, ih, List.mapIdx_cons]
    simp only [packedAt_cons_zero, packedAt_cons_succ, Nat.add_zero, Nat.add_assoc]

/-- Each of the requests has its rounded size and a footprint. -/
theorem footprint_add_ceil_le (hn : n ∈ requests) :
    r.footprint + r.unit.ceil n ≤ extent r.footprint (packed r requests) := by
  obtain ⟨before, after, rfl⟩ := List.append_of_mem hn
  have hsplit : packed r (before ++ n :: after) = packed r before ++ packed r (n :: after) :=
    List.map_append
  rw [hsplit, extent_append, extent_packed_cons]
  omega

theorem request_le_extent (hn : n ∈ requests) : n ≤ extent r.footprint (packed r requests) := by
  have hle := @footprint_add_ceil_le r _ _ hn
  have hceil := r.unit.le_ceil n
  omega

/-- Where the last request asks for something, the requests take up what a rest must have room
for to be cut off. -/
theorem room_of_packed (hlast : requests.getLast? = some n) (hn : 1 ≤ n) :
    r.footprint + r.unit.bytes ≤ extent r.footprint (packed r requests) := by
  have hunit : r.unit.bytes ≤ r.unit.ceil n :=
    Nat.le_of_dvd (Nat.lt_of_lt_of_le hn (r.unit.le_ceil n)) (r.unit.dvd_ceil n)
  exact Nat.le_trans (Nat.add_le_add_left hunit _)
    (footprint_add_ceil_le (List.mem_of_getLast? hlast))

/-- Cells that are allocated do not answer. -/
theorem not_answers_of_allocated {length : Nat} (hpre : ∀ c ∈ pre, c.allocated = true) :
    ∀ c ∈ pre, answers length c = false := by
  intro c hc
  simp [answers, hpre c hc]

/-- The cell at the end has room for the request and for a rest. -/
theorem allocated_split (hpre : ∀ c ∈ pre, c.allocated = true) (hcapacity : size ≤ r.capacity)
    (hroom : r.unit.ceil n + (r.footprint + r.unit.bytes) ≤ size) :
    allocated r n (pre ++ [⟨size, false⟩]) = (some (r.payload (extent r.footprint pre)),
      pre ++ [⟨r.unit.ceil n, true⟩] ++ [⟨size - r.unit.ceil n - r.footprint, false⟩]) := by
  have hle := r.unit.le_ceil n
  have hanswers : answers (r.unit.ceil n) ⟨size, false⟩ = true :=
    answers_iff.mpr ⟨rfl, show r.unit.ceil n ≤ size by omega⟩
  rw [allocated_append (by omega) (not_answers_of_allocated hpre) hanswers, carve,
    if_pos (show _ ≤ size - r.unit.ceil n by omega), List.append_assoc]
  rfl

/-- The cell at the end is just as long as the request. -/
theorem allocated_exact (hpre : ∀ c ∈ pre, c.allocated = true)
    (hcapacity : r.unit.ceil n ≤ r.capacity) :
    allocated r n (pre ++ [⟨r.unit.ceil n, false⟩]) =
      (some (r.payload (extent r.footprint pre)), pre ++ [⟨r.unit.ceil n, true⟩]) := by
  have hle := r.unit.le_ceil n
  have hpos := r.footprint_pos
  have hanswers : answers (r.unit.ceil n) ⟨r.unit.ceil n, false⟩ = true :=
    answers_iff.mpr ⟨rfl, Nat.le_refl _⟩
  rw [allocated_append (by omega) (not_answers_of_allocated hpre) hanswers, carve,
    if_neg (show ¬ _ ≤ r.unit.ceil n - r.unit.ceil n by omega)]
  rfl

/-- Requests whose cells take up as much as the free cell at the end are packed into it. -/
theorem run?_packed (hpre : ∀ c ∈ pre, c.allocated = true) (hlast : requests.getLast? = some n)
    (hn : 1 ≤ n) (hcapacity : size ≤ r.capacity)
    (hextent : extent r.footprint (packed r requests) = r.footprint + size) :
    run? r (requests.map .allocate) (pre ++ [⟨size, false⟩]) =
      some (requests.mapIdx fun i _ =>
        some (r.payload (extent r.footprint pre + r.packedAt requests i)),
        pre ++ packed r requests) := by
  induction requests generalizing pre size with
  | nil => cases hlast
  | cons m rest ih =>
    rw [extent_packed_cons] at hextent
    simp only [List.map_cons, run?, step?]
    cases rest with
    | nil =>
      -- the last request: nothing is left of the cell
      obtain rfl : size = r.unit.ceil m := by
        simp only [packed, List.map_nil, extent_nil] at hextent
        omega
      rw [allocated_exact hpre hcapacity]
      rfl
    | cons k rest =>
      have hlast' : (k :: rest).getLast? = some n := by
        rwa [List.getLast?_cons_cons] at hlast
      have hroom := @room_of_packed r _ _ hlast' hn
      rw [allocated_split hpre hcapacity (by omega)]
      have hpre' : ∀ c ∈ pre ++ [⟨r.unit.ceil m, true⟩], c.allocated = true := by
        intro c hc
        rcases List.mem_append.mp hc with hc | hc
        · exact hpre c hc
        · rw [List.mem_singleton.mp hc]
      dsimp only
      rw [ih hpre' hlast' (by omega) (by omega), extent_concat]
      simp only [Option.map_some, List.mapIdx_cons, packedAt_cons_zero, packedAt_cons_succ,
        packed_cons, Nat.add_zero, Nat.add_assoc, List.append_assoc, List.singleton_append]

theorem zip_packing (address : Nat → Nat) :
    (requests.map Step.allocate).zip (requests.mapIdx fun i _ => some (address i)) =
      requests.mapIdx fun i n => (.allocate n, some (address i)) := by
  induction requests generalizing address with
  | nil => rfl
  | cons n rest ih =>
    rw [List.map_cons, List.mapIdx_cons, List.mapIdx_cons, List.zip_cons_cons, ih]

theorem allowsAll_allocate {cells : List Cell} (h : ∀ n ∈ requests, n < 2 ^ 64) :
    AllowsAll r cells (requests.map .allocate) := by
  induction requests generalizing cells with
  | nil => trivial
  | cons n rest ih =>
    exact ⟨h n List.mem_cons_self, fun x _ => ih fun m hm => h m (List.mem_cons_of_mem _ hm)⟩

end Cells

namespace Arena

open Cells

variable {τ : Type} {arena first last : Arena τ} {r : Region} {cells : List Cell}
  {requests : List Nat} {b : Block} {n steps : Nat}

/-- What an arena looks like whose region the requests fill. -/
structure Packed (arena : Arena τ) (requests : List Nat) : Prop where
  /-- To round a request no sum of words overflows. -/
  rounded : ∀ n ∈ requests,
    roundUp n arena.region.unit.bytes = .ok (arena.region.unit.ceil n)
  /-- There is a block for each request, just as long as the request is rounded to, and none
  else. -/
  blocks : arena.blocks.map (fun b => (b.offset, b.size, b.isFree)) =
    requests.mapIdx fun i n => (arena.region.packedAt requests i, arena.region.unit.ceil n, false)
  used : arena.stats.used = (requests.map arena.region.unit.ceil).sum
  freeBytes : arena.freeBytes = .ok 0

/-- Packed cells are packed blocks. -/
theorem Kept.packed (h : arena.Kept r (Cells.packed r requests) steps) :
    arena.Packed requests := by
  refine ⟨fun n hn => ?_, ?_, ?_, ?_⟩
  · have hle := @request_le_extent r _ _ hn
    rw [h.tidy.covers] at hle
    rw [h.region]
    exact (h.tidy.lies.roundUp hle).1
  · have hlists := congrArg (List.map fun p => (p.1, p.2.size, !p.2.allocated)) h.lists
    rw [place_packed, List.map_map] at hlists
    rw [h.region, eq_comm, List.mapIdx_eq_iff]
    intro i
    simpa [Function.comp_def] using congrArg (·[i]?) hlists
  · rw [h.counts.used, used_packed, h.region]
  · rw [h.freeBytes_eq, vacant_packed]

variable [Tracer τ]

/-- **Requests that add up to a free region are packed without a gap.**  The last of them asks
for something, and with a footprint between each two of them, the rounded requests are as
long as the one block of the chain.  Then each of them is answered, with the address behind
the requests before it, nothing is left over, and nothing can be allocated any more. -/
theorem Runs.packs_exactly {config : Config} {memory : Memory} {tracer : τ}
    {history : List (Step × Option Nat)} (hcreate : create config memory tracer = .ok first)
    (hruns : Runs first history last) (hlength : history.length < 2 ^ 63)
    (hblocks : last.blocks = [b]) (hfree : b.isFree = true)
    (hlast : requests.getLast? = some n) (hn : 1 ≤ n)
    (hsum : (requests.map last.region.unit.ceil).sum +
      (requests.length - 1) * last.region.footprint = b.size) :
    ∃ final, Runs last (requests.mapIdx fun i n => (.allocate n,
        some (last.region.payload (last.region.packedAt requests i)))) final ∧
      final.region = last.region ∧ final.Packed requests ∧
      ∀ m, ∃ journal, (allocate m).run final = .ok none { final with journal } := by
  have husable : first.region.Usable := by
    refine hruns.usable (@usable_of_mem_blocks _ last b ?_)
    rw [hblocks]
    exact List.mem_singleton_self b
  obtain ⟨cells, -, hkept⟩ := hruns.kept_of_create hcreate husable (by omega)
  generalize first.region = r at hkept
  obtain rfl : cells = [⟨b.size, false⟩] := by
    rw [← hkept.map_cell, hblocks, List.map_singleton, Block.cell, hfree]
    rfl
  have hcovers := hkept.tidy.covers
  have hcapacity := hkept.tidy.lies.capacity_lt
  simp only [extent_cons, extent_nil, Nat.add_zero] at hcovers
  rw [hkept.region] at hsum ⊢
  have hextent : extent r.footprint (Cells.packed r requests) = r.footprint + b.size := by
    rw [extent_packed_of_ne_nil (List.ne_nil_of_mem (List.mem_of_getLast? hlast)), hsum]
  have hlengths := @length_le_extent_packed r requests
  have hwords : ∀ m ∈ requests, m < 2 ^ 64 := by
    intro m hm
    have hle := @request_le_extent r _ _ hm
    omega
  have hcells := @run?_packed r [] requests n b.size (by simp) hlast hn (by omega) hextent
  simp only [List.nil_append, extent_nil, Nat.zero_add] at hcells
  obtain ⟨final, hfinal, hpacked⟩ := hkept.run_of_cells (allowsAll_allocate hwords) hcells
    (by rw [List.length_map]; omega)
  rw [zip_packing] at hfinal
  refine ⟨final, hfinal, hpacked.region, hpacked.packed, fun m => ?_⟩
  refine hpacked.run_allocate_unanswered ?_
  rw [allocated_of_none (not_answers_of_allocated fun c hc => allocated_of_mem_packed hc)]

theorem packs_exactly_sample :
    ∃ first last final : Arena Silent, create {} sample ⟨⟩ = .ok first ∧
      Runs first [(.allocate 8, some 4152), (.allocate 3, some 4216), (.release 4152, none),
        (.release 4216, none)] last ∧
      Runs last [(.allocate 3, some 4152), (.allocate 0, some 4216), (.allocate 17, some 4272)]
        final ∧
      final.Packed [3, 0, 17] ∧ ∃ next, (allocate 0).run final = .ok none next := by
  obtain ⟨first, last, hcreate, -, hruns, hkept⟩ := @exists_sample_run
    [.allocate 8, .allocate 3, .release 4152, .release 4216] [some 4152, some 4216, none, none]
    [⟨144, false⟩] (by decide +kernel) (by decide)
  obtain ⟨b, hblocks, hcell⟩ := List.map_eq_singleton_iff.mp hkept.map_cell
  obtain ⟨hsize, hfree⟩ := Cell.mk.inj hcell
  obtain ⟨final, hfinal, -, hpacked, hnone⟩ :=
    @Runs.packs_exactly _ first last [3, 0, 17] b 17 _ _ _ _ _ hcreate hruns (by decide) hblocks
      (by simpa using hfree) rfl (by decide)
      (by rw [hkept.region, hsize]; decide +kernel)
  rw [hkept.region] at hfinal
  obtain ⟨journal, hrun⟩ := hnone 0
  have hhistory : [(Step.allocate 3, some 4152), (.allocate 0, some 4216),
      (.allocate 17, some 4272)] = [3, 0, 17].mapIdx fun i n => (Step.allocate n,
        some ((Region.within ({} : Config).unit sample).payload
          ((Region.within ({} : Config).unit sample).packedAt [3, 0, 17] i))) := by
    decide +kernel
  exact ⟨first, last, final, hcreate, hruns, hhistory ▸ hfinal, hpacked, _, hrun⟩

end Arena

end FirstFit
