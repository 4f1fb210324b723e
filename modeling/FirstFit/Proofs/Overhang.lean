/-
Allocation in a memory that holds anything.

The search goes on behind a block only if the block ends where its link leads, so whatever it
has passed lies in the region.  Of the block it stops at it has seen that a header may be there
and that the canaries are whole, but not where the block ends.  So that block may be said to be
longer than the region, and then what is handed out reaches over its end, or the header of what
is cut off would be written behind it.

`Region.Accommodates` says that neither is the case.  It is all there is to ask: with it an
allocation is safe whatever the bytes are, and without it, unless the chain is verified
afterwards, it is not (`Arena.Runs.allocate_stays_inside`).
-/
import FirstFit.Proofs.Runs
import FirstFit.Proofs.Safety
import FirstFit.Proofs.Trail

namespace FirstFit

/-- Where the block the search stops at has to have room: for the request, and for a header
behind it if anything is cut off. -/
structure Region.Accommodates (r : Region) (b : Block) (length : Nat) : Prop where
  payload : b.offset + r.footprint + length ≤ r.capacity
  rest : r.footprint + r.unit.bytes ≤ b.size - length →
    b.offset + r.footprint + length + r.footprint ≤ r.capacity

/-! ### What the search has seen -/

namespace Walk

variable {r : Region} {header : Nat → Header} {m : Memory} {b : Block} {length : Nat}

theorem of_mem_follow {offset : Nat} (h : b ∈ (follow r header offset).blocks) :
    r.Admits b.offset ∧ b.header = header b.offset :=
  ⟨trail_follow.admitted b h, trail_follow.found b h⟩

/-- What the search stops at is long enough, and more is not known of it. -/
theorem of_firstFit_eq_some (h : (through r m).firstFit length = .ok (some b)) :
    r.Admits b.offset ∧ b.header = r.headerAt m b.offset ∧ length ≤ b.size := by
  unfold firstFit at h
  split at h
  · next d hfind =>
    split at h
    · obtain rfl : d = b := by simpa using h
      have hmem := List.mem_of_find?_eq_some hfind
      unfold through at hmem
      split at hmem
      · obtain ⟨hadmits, hheader⟩ := of_mem_follow hmem
        have hsize := List.find?_some hfind
        rw [Bool.and_eq_true, decide_eq_true_eq] at hsize
        exact ⟨hadmits, hheader, hsize.2⟩
      · cases hmem
    · cases h
  · split at h <;> cases h

end Walk

theorem Region.size_headerAt_cut {r : Region} {m : Memory} {b : Block} {length : Nat}
    (lies : r.Lies m)
    (hroom : b.offset + r.footprint + length + r.footprint ≤ r.capacity) :
    (r.headerAt (r.cut m b length) b.offset).size = length := by
  have hcapacity := lies.capacity_lt
  unfold cut
  rw [headerAt_setHeader (lies.congr (by simp) (by simp)) (by omega)]
  refine fits_headerAt.withExtent (by omega) fun n hn => ?_
  rw [Option.mem_some_iff] at hn
  unfold Link.nil
  omega

/-! ### What an allocation does with it -/

namespace Arena

variable {τ : Type} {arena first last : Arena τ} {r : Region} {b : Block} {n : Nat}

/-- Somebody puts other bytes in the place of all those of the memory. -/
def holding (arena : Arena τ) (m : Memory) : Arena τ := { arena with memory := m }

theorem region_holding {m : Memory} (hstart : m.start = arena.memory.start)
    (hsize : m.size = arena.memory.size) : (arena.holding m).region = arena.region :=
  Region.within_congr hstart hsize

/-- The counters leave room for one more block, in a region that has room for one at all. -/
structure Countable (arena : Arena τ) (r : Region) : Prop where
  used : arena.stats.used + r.footprint ≤ r.capacity
  live : arena.stats.live + 1 < 2 ^ 64
  allocs : arena.stats.allocs + 1 < 2 ^ 64

/-- The first cell has a header, so not all of the region is in use. -/
theorem Kept.countable {cells : List Cell} {steps : Nat} (h : arena.Kept r cells steps)
    (hsteps : steps + 1 < 2 ^ 64) : arena.Countable r := by
  have hallocs := h.counts.allocs
  have hallocsLe := h.counts.allocs_le
  refine ⟨?_, by omega, by omega⟩
  obtain ⟨c, rest, rfl⟩ := List.exists_cons_of_ne_nil h.tidy.toLaid.ne_nil
  have hcovers := h.tidy.covers
  have hle := Cells.used_le_extent r.footprint rest
  rw [Cells.extent_cons] at hcovers
  rw [h.counts.used, Cells.used_cons]
  split <;> omega

variable [Tracer τ]

/-- A request is answered with bytes of the region, if with anything. -/
def Inside (r : Region) (n : Nat) (answer : Option Nat) : Prop :=
  ∀ p ∈ answer, r.base ≤ p ∧ p + r.unit.ceil n ≤ r.base + r.capacity

theorem inside_payload_iff :
    Inside r n (some (r.payload b.offset)) ↔
      b.offset + r.footprint + r.unit.ceil n ≤ r.capacity := by
  unfold Inside Region.payload
  simp only [Option.mem_some_iff, forall_eq']
  omega

theorem safe_hand_over {check : Bool} (hr : arena.region = r) (hlies : r.Lies arena.memory)
    (hadmits : r.Admits b.offset) (hcount : arena.Countable r)
    (hsize : (r.headerAt arena.memory b.offset).size ≤ r.capacity + r.footprint) :
    Act.Safe (do
        let size ← Act.grant b.offset
        if check then
          Act.verify
        Act.note (.allocated n b.offset size)
        return some (r.payload b.offset))
      arena fun answer _ => answer = some (r.payload b.offset) := by
  have hcapacity := hlies.capacity_lt
  have hused := hcount.used
  refine Act.safe_bind_ok (Act.run_grant hr hlies hadmits (by omega) hcount.live hcount.allocs) ?_
  cases check with
  | false => exact Act.safe_of_run_ok rfl rfl
  | true => exact Act.safe_verify.bind fun _ _ _ => Act.safe_of_run_ok rfl rfl

theorem safe_allocate (hr : arena.region = r) (hlies : r.Lies arena.memory)
    (hcount : arena.Countable r)
    (hroom : ∀ b, (Walk.through r arena.memory).firstFit (r.unit.ceil n) = .ok (some b) →
      r.Accommodates b (r.unit.ceil n)) :
    (allocate n).Safe arena fun answer _ => Inside r n answer := by
  by_cases hn : r.capacity < n
  · exact Act.safe_of_run_ok (run_allocate_refused hr (.inr hn)) (by simp [Inside])
  rw [Nat.not_lt] at hn
  rcases hfit : (Walk.through r arena.memory).firstFit (r.unit.ceil n) with c | (_ | b)
  · exact Act.safe_of_run_corrupt (run_allocate_damaged hr hlies hn hfit)
  · obtain ⟨journal, hrun⟩ := run_allocate_none hr hlies hn hfit
    exact Act.safe_of_run_ok hrun (by simp [Inside])
  obtain ⟨hadmits, hheader, hle⟩ := Walk.of_firstFit_eq_some hfit
  obtain ⟨hpayload, hrest⟩ := hroom b hfit
  have hunit := Nat.le_of_dvd r.footprint_pos r.dvd_footprint
  have hanswer : (allocate n).Safe arena fun answer _ => answer = some (r.payload b.offset) := by
    have hrun := run_allocate_fits hr hlies hn hfit
    by_cases hcut : r.footprint + r.unit.bytes ≤ b.size - r.unit.ceil n
    · have hadmitsRest : r.Admits (b.offset + r.footprint + r.unit.ceil n) :=
        hlies.admits_iff.mpr ⟨Nat.dvd_add (Nat.dvd_add (hlies.admits_iff.mp hadmits).1
          r.dvd_footprint) (r.unit.dvd_ceil n), hrest hcut⟩
      rw [if_pos hcut] at hrun
      refine Act.safe_congr hrun ((Act.safe_split hr hlies hadmits hadmitsRest).bind ?_)
      intro _ next hnext
      obtain ⟨journal, rfl⟩ := hnext
      refine safe_hand_over (Arena.region_mk hr (by simp) (by simp))
        (hlies.congr (by simp) (by simp)) hadmits ⟨hcount.used, hcount.live, hcount.allocs⟩ ?_
      rw [Region.size_headerAt_cut hlies (hrest hcut)]
      omega
    · have hsize : (r.headerAt arena.memory b.offset).size = b.size := by
        rw [← hheader]
        rfl
      rw [if_neg hcut] at hrun
      exact Act.safe_congr hrun (safe_hand_over hr hlies hadmits hcount (by omega))
  exact hanswer.mono fun answer _ heq => heq ▸ inside_payload_iff.mpr hpayload

/-- A header that would have to be written behind the region is not. -/
theorem run_allocate_overhanging (hr : arena.region = r) (hlies : r.Lies arena.memory)
    (hn : n ≤ r.capacity)
    (hfit : (Walk.through r arena.memory).firstFit (r.unit.ceil n) = .ok (some b))
    (hcut : r.footprint + r.unit.bytes ≤ b.size - r.unit.ceil n)
    (hrest : r.capacity < b.offset + r.footprint + r.unit.ceil n + r.footprint) :
    (allocate n).run arena = .error (.fault .headerOutside) arena := by
  have hcapacity := hlies.capacity_lt
  obtain ⟨hadmits, -, -⟩ := Walk.of_firstFit_eq_some hfit
  have hroom := (hlies.admits_iff.mp hadmits).2
  have hlength := (hlies.roundUp hn).2
  have hsum := Word.add_bind_add (show b.offset + r.footprint + r.unit.ceil n < 2 ^ 64 by omega)
  have hnot : ¬ r.Admits (b.offset + r.footprint + r.unit.ceil n) := by
    rw [hlies.admits_iff]
    omega
  have hsplit : (Act.split b (r.unit.ceil n)).run arena =
      .error (.fault .headerOutside) arena := by
    unfold Act.split
    rw [Act.run_bind_ok (EStateM.run_get _), hr]
    simp only [hsum]
    rw [Act.run_bind_ok (Act.run_checked_ok _)]
    exact Act.run_bind_error (Act.run_stamp_of_not_admits _ (hr ▸ hnot))
  rw [run_allocate_fits hr hlies hn hfit, if_pos hcut]
  exact Act.run_bind_error hsplit

/-- A block that is handed out whole is handed out however long it is said to be. -/
theorem run_allocate_whole (hr : arena.region = r) (hlies : r.Lies arena.memory)
    (hcount : arena.Countable r) (hn : n ≤ r.capacity)
    (hverify : arena.config.verify.afterAllocate = false)
    (hfit : (Walk.through r arena.memory).firstFit (r.unit.ceil n) = .ok (some b))
    (hcut : ¬ r.footprint + r.unit.bytes ≤ b.size - r.unit.ceil n)
    (hused : arena.stats.used + b.size < 2 ^ 64) :
    ∃ next, (allocate n).run arena = .ok (some (r.payload b.offset)) next := by
  obtain ⟨hadmits, hheader, -⟩ := Walk.of_firstFit_eq_some hfit
  unfold Block.size at hused
  rw [hheader] at hused
  rw [run_allocate_fits hr hlies hn hfit, if_neg hcut, hverify]
  exact ⟨_, Act.run_bind_ok (Act.run_grant hr hlies hadmits hused hcount.live hcount.allocs)⟩

theorem run_allocate_uncounted (hr : arena.region = r) (hlies : r.Lies arena.memory)
    (hn : n ≤ r.capacity)
    (hfit : (Walk.through r arena.memory).firstFit (r.unit.ceil n) = .ok (some b))
    (hcut : ¬ r.footprint + r.unit.bytes ≤ b.size - r.unit.ceil n)
    (hused : ¬ arena.stats.used + b.size < 2 ^ 64) :
    ∃ next, (allocate n).run arena = .error (.fault .addition) next := by
  obtain ⟨hadmits, hheader, -⟩ := Walk.of_firstFit_eq_some hfit
  unfold Block.size at hused
  rw [hheader] at hused
  have hgrant := (Act.run_grant_tallies hr hlies hadmits).trans
    (Act.run_bind_error (Act.run_tally_of_error (Stats.addUsed_eq_error hused)))
  rw [run_allocate_fits hr hlies hn hfit, if_neg hcut]
  exact ⟨_, Act.run_bind_error hgrant⟩

/-- Without room in the block it stops at, an allocation is not safe. -/
theorem accommodates_of_safe (hr : arena.region = r) (hlies : r.Lies arena.memory)
    (hcount : arena.Countable r) (hn : n ≤ r.capacity)
    (hverify : arena.config.verify.afterAllocate = false)
    (hfit : (Walk.through r arena.memory).firstFit (r.unit.ceil n) = .ok (some b))
    (hsafe : (allocate n).Safe arena fun answer _ => Inside r n answer) :
    r.Accommodates b (r.unit.ceil n) := by
  by_cases hcut : r.footprint + r.unit.bytes ≤ b.size - r.unit.ceil n
  · have hrest : b.offset + r.footprint + r.unit.ceil n + r.footprint ≤ r.capacity := by
      by_contra hrest
      exact Act.not_safe_of_run_fault
        (run_allocate_overhanging hr hlies hn hfit hcut (Nat.lt_of_not_le hrest)) hsafe
    exact ⟨by omega, fun _ => hrest⟩
  · refine ⟨?_, fun h => absurd h hcut⟩
    by_cases hused : arena.stats.used + b.size < 2 ^ 64
    · obtain ⟨next, hrun⟩ := run_allocate_whole hr hlies hcount hn hverify hfit hcut hused
      exact inside_payload_iff.mp (hsafe.of_run_ok hrun)
    · obtain ⟨next, hrun⟩ := run_allocate_uncounted hr hlies hn hfit hcut hused
      exact (Act.not_safe_of_run_fault hrun hsafe).elim

/-- **An allocation is safe on any bytes, if the block the search stops at has room for the
request.**  It computes nothing that is no word, writes no header outside the region, and answers
with bytes of the region, or with nothing, or notices damage.  Unless the chain is verified
afterwards, all of this needs the room. -/
theorem Runs.allocate_stays_inside {config : Config} {memory m : Memory} {tracer : τ}
    {history : List (Step × Option Nat)} (hcreate : create config memory tracer = .ok first)
    (hruns : Runs first history last) (hlength : history.length + 1 < 2 ^ 64)
    (husable : last.region.Usable) (hstart : m.start = last.memory.start)
    (hsize : m.size = last.memory.size) (n : Nat) :
    ((∀ b, n ≤ last.region.capacity →
        (last.holding m).walk.firstFit (last.region.unit.ceil n) = .ok (some b) →
        last.region.Accommodates b (last.region.unit.ceil n)) →
      (allocate n).Safe (last.holding m) fun answer _ => Inside last.region n answer) ∧
    (last.config.verify.afterAllocate = false →
      ((allocate n).Safe (last.holding m) fun answer _ => Inside last.region n answer) →
      ∀ b, n ≤ last.region.capacity →
        (last.holding m).walk.firstFit (last.region.unit.ceil n) = .ok (some b) →
        last.region.Accommodates b (last.region.unit.ceil n)) := by
  have hfirst := hruns.usable husable
  obtain ⟨cells, -, hkept⟩ := hruns.kept_of_create hcreate hfirst (by omega)
  have hr := region_holding hstart hsize
  have hlies : last.region.Lies m := (Region.lies_within husable).congr hstart hsize
  have hcount : (last.holding m).Countable last.region := by
    obtain ⟨hused, hlive, hallocs⟩ := hkept.countable hlength
    rw [← hkept.region] at hused
    exact ⟨hused, hlive, hallocs⟩
  have hwalk : (last.holding m).walk = .through last.region m := by
    unfold walk
    rw [hr]
    rfl
  rw [hwalk]
  constructor
  · intro hroom
    by_cases hn : n ≤ last.region.capacity
    · exact safe_allocate hr hlies hcount fun b hfit => hroom b hn hfit
    · exact Act.safe_of_run_ok (run_allocate_refused hr (.inr (Nat.lt_of_not_le hn)))
        (by simp [Inside])
  · intro hverify hsafe b hn hfit
    exact accommodates_of_safe hr hlies hcount hn hverify hfit hsafe

/-- The bytes of an arena whose only block is said to have `size` bytes of payload. -/
def boasting (size : Nat) : Memory := sample.setHeader 4096 (.fresh size none none)

theorem exists_create_boasting :
    ∃ first : Arena Silent, create {} sample ⟨⟩ = .ok first ∧
      first.region = .within ({} : Config).unit sample ∧
      ∀ size, (boasting size).start = first.memory.start ∧
        (boasting size).size = first.memory.size := by
  obtain ⟨first, hcreate⟩ := @exists_create Silent {} sample ⟨⟩ (by decide +kernel)
    (by decide +kernel)
  obtain ⟨hstart, hsize⟩ := stretch_of_create hcreate
  refine ⟨first, hcreate, (create_eq hcreate).1, fun size => ⟨?_, ?_⟩⟩
  · exact (Memory.start_setHeader ..).trans hstart.symm
  · exact (Memory.size_setHeader ..).trans hsize.symm

theorem walk_boasting {first : Arena Silent} {size : Nat}
    (hregion : first.region = .within ({} : Config).unit sample)
    (hstart : (boasting size).start = first.memory.start)
    (hsize : (boasting size).size = first.memory.size) :
    (first.holding (boasting size)).walk =
      .through (.within ({} : Config).unit sample) (boasting size) := by
  unfold walk
  rw [region_holding hstart hsize, hregion]
  rfl

theorem firstFit_boasting : ∀ n ∈ [8, 144],
    (Walk.through (.within ({} : Config).unit sample) (boasting 0x10000000000)).firstFit
      ((Region.within ({} : Config).unit sample).unit.ceil n) =
    .ok (some ⟨0, .fresh 0x10000000000 none none⟩) := by decide +kernel

theorem allocate_stays_inside_boasting :
    ∃ first : Arena Silent, create {} sample ⟨⟩ = .ok first ∧ Runs first [] first ∧
      ((allocate 8).Safe (first.holding (boasting 0x10000000000)) fun answer _ =>
        Inside first.region 8 answer) ∧
      ¬ (allocate 144).Safe (first.holding (boasting 0x10000000000)) fun answer _ =>
        Inside first.region 144 answer := by
  obtain ⟨first, hcreate, hregion, hstretch⟩ := exists_create_boasting
  obtain ⟨hstart, hsize⟩ := hstretch 0x10000000000
  have husable : first.region.Usable := by
    rw [hregion]
    decide +kernel
  have hverify : first.config.verify.afterAllocate = false := by
    rw [(settings_of_create hcreate).1]
    rfl
  have hinside := Runs.allocate_stays_inside hcreate (.nil first) (by decide) husable hstart hsize
  rw [walk_boasting hregion hstart hsize, hregion] at hinside
  refine ⟨first, hcreate, .nil first, hregion ▸ (hinside 8).1 fun b _ hfit => ?_,
    hregion ▸ fun hsafe => ?_⟩
  · have hfound := firstFit_boasting 8 (by simp)
    obtain rfl := Option.some.inj (Except.ok.inj (hfound.symm.trans hfit))
    exact ⟨by decide +kernel, fun _ => by decide +kernel⟩
  · have hfound := firstFit_boasting 144 (by simp)
    have hroom := (hinside 144).2 hverify hsafe _ (by decide +kernel) hfound
    exact absurd (hroom.rest (by decide +kernel)) (by decide +kernel)

/-- Such a block makes an allocation write its header outside, or hand out bytes from outside. -/
theorem allocate_boasting_overhangs :
    ∃ first : Arena Silent, create {} sample ⟨⟩ = .ok first ∧ first.region.Usable ∧
      (∀ size, (boasting size).start = first.memory.start ∧
        (boasting size).size = first.memory.size) ∧
      (allocate 144).run (first.holding (boasting 0x10000000000)) =
        .error (.fault .headerOutside) (first.holding (boasting 0x10000000000)) ∧
      (∃ next, (allocate 152).run (first.holding (boasting 152)) = .ok (some 4152) next) ∧
      first.region.base + first.region.capacity < 4152 + 152 := by
  obtain ⟨first, hcreate, hregion, hstretch⟩ := exists_create_boasting
  have husable : (Region.within ({} : Config).unit sample).Usable := by decide +kernel
  have hr : ∀ size, (first.holding (boasting size)).region = .within ({} : Config).unit sample :=
    fun size => (region_holding (hstretch size).1 (hstretch size).2).trans hregion
  have hlies : ∀ size, (Region.within ({} : Config).unit sample).Lies (boasting size) := fun size =>
    (Region.lies_within husable).congr (Memory.start_setHeader ..) (Memory.size_setHeader ..)
  have hstats : (first.holding (boasting 152)).stats = {} := (create_eq hcreate).2.1
  have hcount : (first.holding (boasting 152)).Countable (.within ({} : Config).unit sample) := by
    refine ⟨?_, ?_, ?_⟩ <;> rw [hstats] <;> decide +kernel
  have hverify : first.config.verify.afterAllocate = false := by
    rw [(settings_of_create hcreate).1]
    rfl
  have hlong := firstFit_boasting 144 (by simp)
  have hwhole : (Walk.through (.within ({} : Config).unit sample)
      (boasting 152)).firstFit ((Region.within ({} : Config).unit sample).unit.ceil 152) =
      .ok (some ⟨0, .fresh 152 none none⟩) := by decide +kernel
  refine ⟨first, hcreate, hregion ▸ husable, hstretch, ?_, ?_, ?_⟩
  · exact run_allocate_overhanging (hr _) (hlies _) (by decide +kernel) hlong (by decide +kernel)
      (by decide +kernel)
  · have hpayload : (Region.within ({} : Config).unit sample).payload 0 = 4152 := by decide +kernel
    have hrun := run_allocate_whole (hr _) (hlies _) hcount (by decide +kernel) hverify hwhole
      (by decide +kernel) (by rw [hstats]; decide +kernel)
    rw [hpayload] at hrun
    exact hrun
  · rw [hregion]
    decide +kernel

end Arena

end FirstFit
