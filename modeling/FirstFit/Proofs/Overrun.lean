/-
Writes that run past the end of a payload.

The header of the next block starts where a payload ends, and its first word is the leading
canary.  So a write that runs on from a payload cannot come to anything else without writing
over the canary first.  What lies behind it may then be anything, forged headers among it; but
no one comes to see it.

`Region.Torn` says that a memory has cells up to a place and no header there.  A walk comes to
that place and stops.  A release of the block before it does too, but on the way it changes
headers: its own, that of the block before it, which takes it in if it is free, and even the
damaged one, which is told of its new predecessor.  None of these writes mends the canary
(`Region.Torn.absorb`).
-/
import FirstFit.Proofs.Detection
import FirstFit.Proofs.Runs

namespace FirstFit

open Cells

/-- The memory has headers for the cells, but there is none where the last of them ends. -/
structure Region.Torn (r : Region) (m : Memory) (cells : List Cell) : Prop where
  lies : r.Lies m
  room : extent r.footprint cells + r.footprint ≤ r.capacity
  aligned : ∀ c ∈ cells, r.unit.bytes ∣ c.size
  held : Held r (r.headerAt m) none 0 cells
  leading : (r.headerAt m (extent r.footprint cells)).leading ≠ Header.leadingCanary

namespace Region.Torn

variable {r : Region} {m : Memory} {pre : List Cell} {a c v : Cell}

theorem at_last (h : r.Torn m (pre ++ [c])) :
    Held r (r.headerAt m) none 0 pre ∧
      (r.headerAt m (extent r.footprint pre)).Describes c (behind r.footprint none 0 pre)
        (some (extent r.footprint (pre ++ [c]))) := by
  obtain ⟨hpre, hc, -⟩ := held_append.mp h.held
  have hroom := h.room
  have hpos := r.footprint_pos
  rw [extent_concat] at hroom ⊢
  rw [Nat.zero_add, linkTo, if_neg (by omega)] at hc
  exact ⟨hpre, hc⟩

theorem last_fits (h : r.Torn m (pre ++ [c])) :
    extent r.footprint pre + r.footprint + c.size + r.footprint ≤ r.capacity ∧
      r.unit.bytes ∣ extent r.footprint pre := by
  have hroom := h.room
  rw [extent_concat] at hroom
  exact ⟨hroom, dvd_extent r.dvd_footprint fun d hd => h.aligned d (List.mem_append_left _ hd)⟩

theorem last_admits (h : r.Torn m (pre ++ [c])) : r.Admits (extent r.footprint pre) := by
  obtain ⟨hroom, hdvd⟩ := h.last_fits
  exact h.lies.admits_iff.mpr ⟨hdvd, by omega⟩

theorem before_admits (h : r.Torn m (pre ++ [a] ++ [c])) : r.Admits (extent r.footprint pre) := by
  obtain ⟨hroom, -⟩ := h.last_fits
  rw [extent_concat] at hroom
  refine h.lies.admits_iff.mpr ⟨dvd_extent r.dvd_footprint fun d hd => ?_, by omega⟩
  exact h.aligned d (by simp [hd])

theorem admits (h : r.Torn m pre) : r.Admits (extent r.footprint pre) :=
  h.lies.admits_iff.mpr ⟨dvd_extent r.dvd_footprint h.aligned, h.room⟩

theorem replace (h : r.Torn m (pre ++ [c])) {c' : Cell} {new : Header} (fits : new.Fits)
    (hsize : c'.size = c.size)
    (hd : new.Describes c' (r.headerAt m (extent r.footprint pre)).prev
      (r.headerAt m (extent r.footprint pre)).next) :
    r.Torn (r.setHeader m (extent r.footprint pre) new) (pre ++ [c']) := by
  obtain ⟨hpre, hc⟩ := h.at_last
  obtain ⟨hroom, -⟩ := h.last_fits
  have hpos := r.footprint_pos
  have hextent : extent r.footprint (pre ++ [c']) = extent r.footprint (pre ++ [c]) := by
    rw [extent_concat, extent_concat, hsize]
  rw [hc.prev, hc.next] at hd
  refine ⟨h.lies.congr (by simp) (by simp), ?_, ?_, ?_, ?_⟩
  · rw [hextent]
    exact h.room
  · intro d hmem
    rcases List.mem_append.mp hmem with hmem | hmem
    · exact h.aligned d (List.mem_append_left _ hmem)
    · rw [List.mem_singleton.mp hmem, hsize]
      exact h.aligned c (by simp)
  · refine held_append.mpr ⟨hpre.congr fun p hp => ?_, ?_, trivial⟩
    · have hbounds := (place_bounds hp).2
      exact headerAt_setHeader_of_apart (.inl (by omega))
    · rw [Nat.zero_add, headerAt_setHeader h.lies (by omega) fits, hsize, linkTo, if_neg (by omega),
        ← extent_concat]
      exact hd
  · rw [hextent, headerAt_setHeader_of_apart (.inr ?_)]
    · exact h.leading
    · rw [extent_concat]
      omega

/-- If the last cell becomes part of the one before it, there is still no header behind it. -/
theorem absorb (h : r.Torn m (pre ++ [a] ++ [v])) :
    r.Torn (r.absorb m (extent r.footprint pre) (extent r.footprint (pre ++ [a])))
      (pre ++ [⟨a.size + r.footprint + v.size, a.allocated⟩]) := by
  obtain ⟨hfront, hv⟩ := h.at_last
  obtain ⟨hroom, -⟩ := h.last_fits
  obtain ⟨hpre, ha, -⟩ := held_append.mp hfront
  have hpos := r.footprint_pos
  have hcapacity := h.lies.capacity_lt
  have hleading := h.leading
  simp only [extent_concat, Nat.zero_add] at hroom hv ha hleading ⊢
  set i := extent r.footprint pre with hi
  set j := i + r.footprint + a.size with hj
  set n := j + r.footprint + v.size with hn
  have hstop : i + r.footprint + (a.size + r.footprint + v.size) = n := by omega
  have hlink : ∀ k ∈ (r.headerAt m j).next, k = n := by
    intro k hk
    rw [hv.next, Option.mem_some_iff] at hk
    exact hk.symm
  have hinto := @headerAt_absorb_into r m i j h.lies (by omega)
    (by rw [ha.size, hv.size]; omega) (.inl (by omega))
    fun k hk => .inl (by rw [hlink k hk]; omega)
  refine ⟨h.lies.congr (by simp) (by simp), ?_, ?_, ?_, ?_⟩
  · rw [extent_concat, ← hi, hstop]
    exact hroom
  · intro d hmem
    rcases List.mem_append.mp hmem with hmem | hmem
    · exact h.aligned d (by simp [hmem])
    · rw [List.mem_singleton.mp hmem]
      exact Nat.dvd_add (Nat.dvd_add (h.aligned a (by simp)) r.dvd_footprint)
        (h.aligned v (by simp))
  · refine held_append.mpr ⟨hpre.congr fun p hp => ?_, ?_, trivial⟩
    · have hbounds := (place_bounds hp).2
      refine headerAt_absorb_of_apart (.inl (by omega)) (.inl (by omega)) fun k hk => .inl ?_
      rw [hlink k hk]
      omega
    · rw [Nat.zero_add, ← hi, hinto, hstop, linkTo, if_neg (by omega)]
      refine ⟨ha.leading, ha.trailing, ?_, ha.flag, ha.prev, hv.next, ha.untraced⟩
      show (r.headerAt m i).size + (r.footprint + (r.headerAt m j).size) = _
      rw [ha.size, hv.size]
      show _ = a.size + r.footprint + v.size
      omega
  · -- The damaged header is told of its new predecessor, and is no better for it.
    rw [extent_concat, ← hi, hstop, headerAt_absorb_next h.lies hv.next (by omega)
      (by unfold Link.nil; omega) (.inr (by omega)) (.inr (by omega))]
    exact hleading

end Region.Torn

/-! ### Operations that come to it -/

namespace Act

variable {τ : Type} {arena : Arena τ} {r : Region} {pre : List Cell} {a c : Cell} {size : Nat}

theorem run_freeNeighbour_of_torn (hr : arena.region = r) (h : r.Torn arena.memory pre) :
    (freeNeighbour (some (extent r.footprint pre))).run arena =
      .error (.corrupt (.leadingCanary (extent r.footprint pre))) arena := by
  unfold freeNeighbour
  rw [run_bind_ok (run_header_eq hr h.admits)]
  have hcheck : (r.headerAt arena.memory (extent r.footprint pre)).check?
      (extent r.footprint pre) = some (.leadingCanary (extent r.footprint pre)) := if_pos h.leading
  rw [hcheck]
  rfl

theorem run_freeNeighbour_before (hr : arena.region = r)
    (h : r.Torn arena.memory (pre ++ [a] ++ [c])) :
    (freeNeighbour (some (extent r.footprint pre))).run arena =
      .ok (if a.allocated then none else some (extent r.footprint pre)) arena := by
  obtain ⟨hfront, -⟩ := h.at_last
  obtain ⟨-, ha, -⟩ := held_append.mp hfront
  rw [Nat.zero_add] at ha
  rw [run_freeNeighbour hr ?_, Option.filter_some, ha.isFree]
  · cases a.allocated <;> rfl
  · intro n hn
    rw [Option.mem_some_iff] at hn
    subst hn
    exact ⟨h.before_admits, ha.intact⟩

/-- A free block in front of the damage looks at the header that was there. -/
theorem run_forward_of_torn {rest : Header → Option Nat → Act τ Unit} (hr : arena.region = r)
    (h : r.Torn arena.memory (pre ++ [c])) :
    (header (extent r.footprint pre) >>= fun h => freeNeighbour h.next >>= rest h).run arena =
      .error (.corrupt (.leadingCanary (extent r.footprint (pre ++ [c])))) arena := by
  obtain ⟨-, hc⟩ := h.at_last
  rw [run_bind_ok (run_header_eq hr h.last_admits), hc.next]
  exact run_bind_error (run_freeNeighbour_of_torn hr h)

variable [Tracer τ]

theorem run_absorb_of_torn {s : Nat} (hr : arena.region = r)
    (h : r.Torn arena.memory (pre ++ [⟨s, false⟩] ++ [⟨size, false⟩])) :
    ∃ memory journal,
      (absorb (extent r.footprint pre) (extent r.footprint (pre ++ [⟨s, false⟩]))).run arena =
        .ok () { arena with memory, journal } ∧
      r.Torn memory (pre ++ [⟨s + r.footprint + size, false⟩]) ∧
      memory.start = arena.memory.start ∧ memory.size = arena.memory.size := by
  obtain ⟨hfront, hv⟩ := h.at_last
  obtain ⟨hroom, -⟩ := h.last_fits
  obtain ⟨-, ha, -⟩ := held_append.mp hfront
  have hcapacity := h.lies.capacity_lt
  have hnext : ∀ n ∈ (r.headerAt arena.memory (extent r.footprint (pre ++ [⟨s, false⟩]))).next,
      r.Admits n := by
    intro n hn
    rw [hv.next, Option.mem_some_iff] at hn
    exact hn ▸ h.admits
  have hsize : (r.headerAt arena.memory (extent r.footprint pre)).size + (r.footprint +
      (r.headerAt arena.memory (extent r.footprint (pre ++ [⟨s, false⟩]))).size) < 2 ^ 64 := by
    rw [Nat.zero_add] at ha
    rw [extent_concat] at hroom
    rw [ha.size, hv.size]
    show s + (r.footprint + size) < 2 ^ 64
    dsimp only at hroom
    omega
  have hrun := run_absorb hr h.before_admits h.last_admits hnext hsize (hv.untraced rfl)
  exact ⟨_, _, hrun, h.absorb, by simp, by simp⟩

/-- The block before a free one takes it in, if it is free too; the damage behind stays where it
is. -/
theorem run_back_of_torn (hr : arena.region = r)
    (h : r.Torn arena.memory (pre ++ [⟨size, false⟩])) :
    ∃ front grown memory journal,
      (∀ rest : Nat → Act τ Unit,
        (freeNeighbour (behind r.footprint none 0 pre) >>= fun found =>
          match found with
          | some before =>
            absorb before (extent r.footprint pre) >>= fun _ => pure before >>= rest
          | none => pure (extent r.footprint pre) >>= rest).run arena =
          (rest (extent r.footprint front)).run { arena with memory, journal }) ∧
      r.Torn memory (front ++ [⟨grown, false⟩]) ∧
      extent r.footprint (front ++ [⟨grown, false⟩]) =
        extent r.footprint (pre ++ [⟨size, false⟩]) ∧
      memory.start = arena.memory.start ∧ memory.size = arena.memory.size := by
  rcases last_cases pre with ⟨front, s, rfl⟩ | hlast
  · obtain ⟨memory, journal, hrun, htorn, hstart, hend⟩ := run_absorb_of_torn hr h
    refine ⟨front, s + r.footprint + size, memory, journal, fun rest => ?_, htorn, ?_, hstart, hend⟩
    · rw [behind_concat, Nat.zero_add, run_bind_ok (run_freeNeighbour_before hr h)]
      exact run_bind_ok hrun
    · simp only [extent_concat]
      omega
  · refine ⟨pre, size, arena.memory, arena.journal, fun rest => ?_, h, rfl, rfl, rfl⟩
    rcases List.eq_nil_or_concat pre with rfl | ⟨front, a, rfl⟩
    · rfl
    · rw [List.concat_eq_append] at h hlast ⊢
      rw [behind_concat, Nat.zero_add, run_bind_ok (run_freeNeighbour_before hr h),
        hlast a (by simp)]
      rfl

/-- A merge stops at the damage behind the block, wherever the block starts then. -/
theorem run_merge_of_torn (hr : arena.region = r)
    (h : r.Torn arena.memory (pre ++ [⟨size, false⟩])) :
    ∃ next, (merge (extent r.footprint pre) (behind r.footprint none 0 pre)).run arena =
      .error (.corrupt (.leadingCanary (extent r.footprint (pre ++ [⟨size, false⟩])))) next := by
  obtain ⟨front, grown, memory, journal, hback, htorn, hextent, hstart, hsize⟩ :=
    run_back_of_torn hr h
  rw [← hextent]
  exact ⟨_, (hback _).trans (run_forward_of_torn (Arena.region_mk hr hstart hsize) htorn)⟩

end Act

namespace Arena

variable {τ : Type} {arena first last : Arena τ} {r : Region} {pre post : List Cell} {c v : Cell}
  {steps address : Nat} {bytes : List UInt8} {left right : List Block} {a d : Block}

/-- Somebody writes bytes somewhere, whether it is theirs or not. -/
def scribble (arena : Arena τ) (address : Nat) (bytes : List UInt8) : Arena τ :=
  { arena with memory := arena.memory.write address bytes }

@[simp] theorem region_scribble (arena : Arena τ) (address : Nat) (bytes : List UInt8) :
    (arena.scribble address bytes).region = arena.region :=
  Region.within_congr (Memory.start_write ..) (Memory.size_write ..)

theorem headerAt_write_of_le {m : Memory} {o : Nat} (h : r.base + o + Header.byteCount ≤ address) :
    r.headerAt (m.write address bytes) o = r.headerAt m o := by
  refine Memory.header_congr fun x hlow hhigh => ?_
  rw [Memory.byteAt_write, if_neg fun hwritten => by omega]

theorem Kept.cells_of_blocks {cells : List Cell} (h : arena.Kept r cells steps)
    (hblocks : arena.blocks = left ++ a :: d :: right) :
    ∃ pre v post, cells = pre ++ ⟨a.size, !a.isFree⟩ :: v :: post ∧
      a.offset = extent r.footprint pre ∧
      d.offset = extent r.footprint (pre ++ [⟨a.size, !a.isFree⟩]) := by
  have hlists := h.lists
  rw [Lists, hblocks, List.map_append, List.map_cons, List.map_cons] at hlists
  obtain ⟨pre, post, rfl, ha, hpost⟩ := place_eq_append_cons hlists.symm
  cases post with
  | nil => cases hpost
  | cons v post =>
    obtain ⟨hd, -⟩ := List.cons.inj hpost
    have hoffset := congrArg Prod.fst hd
    dsimp only at ha hoffset
    rw [Nat.zero_add] at ha
    refine ⟨pre, v, post, rfl, ha, ?_⟩
    rw [extent_concat, ← ha]
    exact hoffset.symm

/-- A write that starts in a payload leaves the header of the block and all before it. -/
theorem Kept.torn (h : arena.Kept r (pre ++ c :: v :: post) steps)
    (hlow : r.payload (extent r.footprint pre) ≤ address)
    (hcanary : ((arena.memory.write address bytes).word
      (r.base + extent r.footprint (pre ++ [c]))).toNat ≠ Header.leadingCanary) :
    r.Torn (arena.memory.write address bytes) (pre ++ [c]) := by
  have hl := h.tidy.toLaid
  have hbytes := r.byteCount_le_footprint
  have hroom := (hl.lies.admits_iff.mp (List.append_cons .. ▸ hl).middle_admits).2
  obtain ⟨hpre, hc, -⟩ := held_append.mp hl.held
  rw [Region.payload] at hlow
  refine ⟨hl.lies.congr (by simp) (by simp), hroom, fun d hd => hl.aligned d ?_, ?_, hcanary⟩
  · rw [List.append_cons]
    exact List.mem_append_left _ hd
  · refine Held.congr (held_append.mpr ⟨hpre, hc, trivial⟩) fun p hp => ?_
    rw [place_append, List.mem_append, place_cons, place_nil, List.mem_singleton] at hp
    refine headerAt_write_of_le ?_
    rcases hp with hp | rfl
    · have hle := (place_bounds hp).2
      omega
    · dsimp only
      omega

theorem verify_scribble (husable : arena.region.Usable)
    (hchain : Chain arena.region arena.headerAt (left ++ a :: d :: right))
    (hlow : arena.region.payload a.offset ≤ address)
    (hcanary : ((arena.memory.write address bytes).word
      (arena.region.base + d.offset)).toNat ≠ Header.leadingCanary) :
    (arena.scribble address bytes).verify = .error (.leadingCanary d.offset) := by
  have hbytes := arena.region.byteCount_le_footprint
  obtain ⟨-, -, hbefore⟩ := List.pairwise_append.mp hchain.stop_le
  rw [Region.payload] at hlow
  have hagree : ∀ b ∈ left ++ [a],
      (arena.scribble address bytes).headerAt b.offset = arena.headerAt b.offset := by
    intro b hb
    unfold headerAt
    rw [region_scribble]
    refine @headerAt_write_of_le arena.region address bytes arena.memory b.offset ?_
    rcases List.mem_append.mp hb with hb | hb
    · have hle := hbefore b hb a List.mem_cons_self
      unfold Region.stop at hle
      omega
    · rw [List.mem_singleton.mp hb]
      omega
  have hcompletes := Region.completes_iff_chain.mpr hchain
  rw [List.append_cons] at hcompletes
  obtain ⟨hreach, -⟩ := hcompletes.passage hagree
  have hleading : ((arena.scribble address bytes).headerAt d.offset).leading ≠
      Header.leadingCanary := by
    unfold headerAt
    rw [region_scribble]
    exact hcanary
  have hadmits := hchain.admitted d (by simp)
  rw [verify_eq_match _ (by rw [region_scribble]; exact husable), region_scribble,
    Walk.defectBehind?_of_reached hreach]
  rw [@Walk.defectBehind?_of_check? arena.region _ _
    ⟨d.offset, (arena.scribble address bytes).headerAt d.offset⟩ _ rfl hadmits (if_pos hleading)]

variable [Tracer τ]

/-- A block whose header is gone cannot be given back. -/
theorem run_release_of_torn {cells : List Cell} (hr : arena.region = r)
    (h : r.Torn arena.memory cells) :
    (release (r.payload (extent r.footprint cells))).run arena =
      .error (.corrupt (.leadingCanary (extent r.footprint cells))) arena := by
  have hcheck : (r.headerAt arena.memory (extent r.footprint cells)).check?
      (extent r.footprint cells) = some (.leadingCanary (extent r.footprint cells)) :=
    if_pos h.leading
  have hrun := Act.run_allocatedAt_payload hr h.admits h.room
  rw [hcheck] at hrun
  unfold release
  rw [Act.run_bind_ok (EStateM.run_get _), if_neg (not_ignored hr h.lies _)]
  exact Act.run_bind_error hrun

/-- The block in front of the damage is marked free, and then its neighbours are looked at. -/
theorem Kept.run_release_of_torn (h : arena.Kept r (pre ++ c :: v :: post) steps)
    (hc : c.allocated = true) (hword : arena.stats.allocs < 2 ^ 64)
    (htorn : r.Torn (arena.scribble address bytes).memory (pre ++ [c])) :
    ∃ next, (release (r.payload (extent r.footprint pre))).run (arena.scribble address bytes) =
      .error (.corrupt (.leadingCanary (extent r.footprint (pre ++ [c])))) next := by
  have hr : (arena.scribble address bytes).region = r := (region_scribble ..).trans h.region
  obtain ⟨-, hdescribes⟩ := htorn.at_last
  obtain ⟨hroom, -⟩ := htorn.last_fits
  obtain ⟨hused, hlive⟩ := h.counts.counted hc
  have hallocated : (r.headerAt (arena.scribble address bytes).memory
      (extent r.footprint pre)).isFree = false := by
    rw [hdescribes.isFree, hc]
    rfl
  have hreleases : (arena.scribble address bytes).stats.releases + 1 < 2 ^ 64 := by
    have hallocs := h.counts.allocs
    show arena.stats.releases + 1 < 2 ^ 64
    omega
  have hfreed := @Region.Torn.replace r _ pre c htorn ⟨c.size, false⟩ _
    Region.fits_headerAt.reclaimed rfl
    ⟨hdescribes.leading, hdescribes.trailing, hdescribes.size, rfl, rfl, rfl, fun _ => rfl⟩
  have hextent : extent r.footprint (pre ++ [⟨c.size, false⟩]) =
      extent r.footprint (pre ++ [c]) := by rw [extent_concat, extent_concat]
  -- The arena between the two parts of the release.
  let freed : Arena τ := { (arena.scribble address bytes).reclaimed r (extent r.footprint pre) with
    journal := (arena.scribble address bytes).journal.push
      (.released (r.payload (extent r.footprint pre)) (extent r.footprint pre)
        (r.headerAt (arena.scribble address bytes).memory (extent r.footprint pre)).size) }
  obtain ⟨next, hmerge⟩ := @Act.run_merge_of_torn τ freed r pre c.size _
    (Arena.region_mk hr Region.start_setHeader Region.size_setHeader) hfreed
  rw [hextent] at hmerge
  refine ⟨next, ?_⟩
  unfold release
  rw [Act.run_bind_ok (EStateM.run_get _), if_neg (not_ignored hr htorn.lies _),
    Act.run_bind_ok (Act.run_allocatedAt hr rfl htorn.last_admits (by omega) hdescribes.intact
      hallocated)]
  dsimp only
  rw [Act.run_bind_ok (Act.run_reclaim hr htorn.last_admits (hdescribes.size ▸ hused) hlive
    hreleases), Act.run_bind_ok (Act.run_note _), hdescribes.prev]
  exact Act.run_bind_error hmerge

/-- **A write that runs past the end of a payload into the next header is caught.** -/
theorem Runs.overrun_caught {config : Config} {memory : Memory} {tracer : τ}
    {history : List (Step × Option Nat)} (hcreate : create config memory tracer = .ok first)
    (hruns : Runs first history last) (hblocks : last.blocks = left ++ a :: d :: right)
    (hallocated : a.isFree = false) (hlow : last.region.payload a.offset ≤ address)
    (hcanary : ((last.memory.write address bytes).word
      (last.region.base + d.offset)).toNat ≠ Header.leadingCanary) :
    (last.scribble address bytes).verify = .error (.leadingCanary d.offset) ∧
      (∃ next, (release (last.region.payload a.offset)).run (last.scribble address bytes) =
        .error (.corrupt (.leadingCanary d.offset)) next) ∧
      (release (last.region.payload d.offset)).run (last.scribble address bytes) =
        .error (.corrupt (.leadingCanary d.offset)) (last.scribble address bytes) := by
  have hmem : a ∈ last.blocks := by simp [hblocks]
  have husable := hruns.usable (usable_of_mem_blocks hmem)
  obtain ⟨cells, -, hkept, hword⟩ := hruns.reaches hcreate husable
  obtain ⟨pre, v, post, rfl, ha, hd⟩ := hkept.cells_of_blocks hblocks
  have hchain := hkept.chain
  rw [hblocks] at hchain
  refine ⟨verify_scribble (hkept.region ▸ husable) hchain hlow hcanary, ?_⟩
  rw [hkept.region] at hlow hcanary ⊢
  rw [ha] at hlow ⊢
  rw [hd] at hcanary ⊢
  have htorn := hkept.torn hlow hcanary
  refine ⟨hkept.run_release_of_torn (by simp [hallocated]) hword htorn, ?_⟩
  exact Arena.run_release_of_torn (by rw [region_scribble, hkept.region]) htorn

theorem overrun_caught_sample :
    ∃ first last : Arena Silent, create {} sample ⟨⟩ = .ok first ∧
      Runs first [(.allocate 8, some 4152), (.allocate 8, some 4216), (.release 4152, none)] last ∧
      (last.scribble 4224 [0, 0, 0, 0, 0, 0, 0, 0]).verify = .error (.leadingCanary 128) ∧
      ∃ next, (release 4216).run (last.scribble 4224 [0, 0, 0, 0, 0, 0, 0, 0]) =
        .error (.corrupt (.leadingCanary 128)) next := by
  obtain ⟨first, last, hcreate, -, hruns, hkept⟩ := @exists_sample_run
    [.allocate 8, .allocate 8, .release 4152] [some 4152, some 4216, none]
    [⟨8, false⟩, ⟨8, true⟩, ⟨16, false⟩] (by decide +kernel) (by decide)
  have hlists := hkept.lists
  have hplace : place (Region.within ({} : Config).unit sample).footprint 0
      [⟨8, false⟩, ⟨8, true⟩, ⟨16, false⟩] =
      [(0, ⟨8, false⟩), (64, ⟨8, true⟩), (128, ⟨16, false⟩)] := by decide +kernel
  rw [Lists, hplace] at hlists
  obtain ⟨x, _, hblocks, -, hrest⟩ := List.map_eq_cons_iff.mp hlists
  obtain ⟨a, _, rfl, ha, hrest⟩ := List.map_eq_cons_iff.mp hrest
  obtain ⟨d, _, rfl, hd, -⟩ := List.map_eq_cons_iff.mp hrest
  obtain ⟨haOffset, haCell⟩ := Prod.mk.inj ha
  obtain ⟨hdOffset, -⟩ := Prod.mk.inj hd
  have hallocated : a.isFree = false := by simpa using congrArg Cell.allocated haCell
  have hbase : (Region.within ({} : Config).unit sample).base = 4096 := by decide +kernel
  have hroom : 128 + (Region.within ({} : Config).unit sample).footprint ≤
      (Region.within ({} : Config).unit sample).capacity := by decide +kernel
  have hlow : last.region.payload a.offset ≤ 4224 := by
    rw [hkept.region, haOffset]
    decide +kernel
  have hcanary : ((last.memory.write 4224 [0, 0, 0, 0, 0, 0, 0, 0]).word
      (last.region.base + d.offset)).toNat ≠ Header.leadingCanary := by
    have hcovers := hkept.tidy.lies.covers hroom
    unfold Header.byteCount Memory.Covers at hcovers
    have hword := @Memory.word_setWord last.memory 4224 0 ⟨by omega, by omega⟩
    unfold Memory.setWord at hword
    rw [hkept.region, hbase, hdOffset]
    exact hword ▸ by decide
  rw [← List.singleton_append] at hblocks
  have hcaught := Runs.overrun_caught hcreate hruns hblocks hallocated hlow hcanary
  have hpayload : (Region.within ({} : Config).unit sample).payload 64 = 4216 := by decide +kernel
  rw [hdOffset, haOffset, hkept.region, hpayload] at hcaught
  exact ⟨first, last, hcreate, hruns, hcaught.1, hcaught.2.1⟩

end Arena

end FirstFit
