/-
What a creation gives.

The base of an arena is the least aligned address of its memory, and from there on it takes what
whole units can take up (`Region.Fills`).  The two roundings and the cap at the end of the memory
say so by themselves (`Region.fills_within`).  Where a header and one unit have room there is one
free block afterwards; where they have not there is nothing, and nothing ever comes of it.

Two sums are checked on the way.  The first is one of an address, and the caller answers for it.
The second, of a footprint and a unit, depends on the unit alone, and there is one unit it is no
word for: the greatest, which a header takes up one of (`AlignUnit.footprint_add_bytes_lt_iff`).
-/
import Mathlib.Order.Bounds.Basic
import FirstFit.Proofs.Canonical

namespace FirstFit

/-! ### Units -/

namespace AlignUnit

variable (unit : AlignUnit)

theorem isLeast_ceil (n : Nat) : IsLeast {m | unit.bytes ∣ m ∧ n ≤ m} (unit.ceil n) :=
  ⟨⟨unit.dvd_ceil n, unit.le_ceil n⟩, fun _ h => unit.ceil_le h.1 h.2⟩

theorem isGreatest_floor (n : Nat) : IsGreatest {m | unit.bytes ∣ m ∧ m ≤ n} (unit.floor n) :=
  ⟨⟨unit.dvd_floor n, unit.floor_le n⟩, fun _ h => unit.le_floor h.1 h.2⟩

variable {unit}

/-- Below the greatest unit there is none that is more than half of it. -/
theorem bytes_le_of_lt (h : unit.bytes < 2 ^ 63) : unit.bytes ≤ 2 ^ 62 := by
  obtain ⟨k, hk⟩ := unit.isPowerOfTwo
  rw [hk] at h ⊢
  have hexponent : k < 63 := (Nat.pow_lt_pow_iff_right (by omega : 1 < 2)).mp h
  exact Nat.pow_le_pow_right (by omega) (by omega)

/-- A header and one unit are a word of bytes for every unit but the greatest, of which the
header takes up one itself. -/
theorem footprint_add_bytes_lt_iff :
    unit.footprint + unit.bytes < 2 ^ 64 ↔ unit.bytes < 2 ^ 63 := by
  have hlt : unit.footprint < Header.byteCount + unit.bytes := unit.ceil_lt Header.byteCount
  have hle : unit.bytes ≤ unit.footprint :=
    Nat.le_of_dvd (Region.footprint_pos ⟨unit, 0, 0⟩) (unit.dvd_ceil Header.byteCount)
  unfold Header.byteCount at hlt
  constructor
  · intro hsum
    omega
  · intro hbytes
    have hhalf := bytes_le_of_lt hbytes
    omega

end AlignUnit

/-- The numbers of bytes that can be set are those of the units. -/
theorem Config.withUnit_eq_ok_iff {base config : Config} {bytes : Nat} :
    base.withUnit bytes = .ok config ↔
      ∃ unit : AlignUnit, unit.bytes = bytes ∧ config = { base with unit } := by
  unfold withUnit AlignUnit.ofBytes?
  constructor
  · intro h
    split at h
    · next unit hunit =>
      split at hunit
      · cases hunit
        cases h
        exact ⟨_, rfl, rfl⟩
      · cases hunit
    · cases h
  · intro hunit
    obtain ⟨unit, rfl, rfl⟩ := hunit
    rw [dif_pos ⟨unit.isPowerOfTwo, unit.word_le, unit.lt_limit⟩]

theorem Config.bytes_of_withUnit {base config : Config} {bytes : Nat}
    (h : base.withUnit bytes = .ok config) : config.unit.bytes = bytes := by
  obtain ⟨unit, hunit, rfl⟩ := withUnit_eq_ok_iff.mp h
  exact hunit

/-! ### Regions -/

/-- Somewhere in a memory a header and one unit behind it have room, both of them aligned. -/
def Memory.HasRoom (m : Memory) (unit : AlignUnit) : Prop :=
  ∃ a, unit.bytes ∣ a ∧ m.Covers a (unit.footprint + unit.bytes)

namespace Region

/-- A region takes up all of a stretch of addresses that whole units can take up, and its
headers as few of them as a header fits in. -/
structure Fills (r : Region) (unit : AlignUnit) (start stop : Nat) : Prop where
  units : r.unit = unit
  base : ∃ a, IsLeast {a | unit.bytes ∣ a ∧ start ≤ a} a ∧ r.base = min a stop
  capacity : IsGreatest {c | unit.bytes ∣ c ∧ r.base + c ≤ stop} r.capacity
  footprint : IsLeast {h | unit.bytes ∣ h ∧ Header.byteCount ≤ h} r.footprint

theorem fills_within (unit : AlignUnit) (m : Memory) :
    (within unit m).Fills unit m.start m.stop := by
  have hbase : (within unit m).base ≤ m.stop := Nat.min_le_right _ _
  have hgreatest := unit.isGreatest_floor (m.stop - (within unit m).base)
  refine ⟨rfl, ⟨unit.ceil m.start, unit.isLeast_ceil m.start, rfl⟩, ⟨⟨hgreatest.1.1, ?_⟩, ?_⟩,
    unit.isLeast_ceil Header.byteCount⟩
  · exact within_le_stop unit m
  · intro c hc
    have hle : (within unit m).base + c ≤ m.stop := hc.2
    exact hgreatest.2 ⟨hc.1, show c ≤ m.stop - (within unit m).base by omega⟩

theorem usable_within_iff {unit : AlignUnit} {m : Memory} :
    (within unit m).Usable ↔ m.HasRoom unit := by
  constructor
  · intro husable
    have hlies := lies_within husable
    have hstop := hlies.le_stop
    have hroom : (within unit m).footprint + unit.bytes ≤ (within unit m).capacity := husable
    refine ⟨(within unit m).base, hlies.base_dvd, hlies.start_le, ?_⟩
    show (within unit m).base + ((within unit m).footprint + unit.bytes) ≤ m.stop
    omega
  · intro hroom
    obtain ⟨a, hdvd, hstart, hstop⟩ := hroom
    have hceil : unit.ceil m.start ≤ a := unit.ceil_le hdvd hstart
    have hbase : (within unit m).base ≤ a := Nat.le_trans (Nat.min_le_left _ _) hceil
    have hunits : unit.bytes ∣ unit.footprint + unit.bytes :=
      Nat.dvd_add (unit.dvd_ceil Header.byteCount) (Nat.dvd_refl _)
    exact unit.le_floor hunits (show _ ≤ m.stop - (within unit m).base from
      Nat.le_sub_of_add_le' (Nat.le_trans (Nat.add_le_add_right hbase _) hstop))

end Region

namespace Arena

variable {τ : Type} {arena : Arena τ} {config : Config} {memory : Memory}

/-! ### What it holds -/

/-- An arena of one free block: nothing but its header is there. -/
structure Untouched (arena : Arena τ) : Prop where
  blocks : arena.blocks =
    [⟨0, .fresh (arena.region.capacity - arena.region.footprint) none none⟩]
  verify : arena.verify = .ok ()
  aligned : arena.region.unit.bytes ∣ arena.region.payload 0
  blank : ∀ a, ¬ arena.region.InWords 0 a → arena.memory.byteAt a = 0

theorem untouched_of_create {tracer : τ} (h : create config memory tracer = .ok arena)
    (husable : arena.region.Usable) : arena.Untouched := by
  have hkept := kept_create h husable
  have hmemory := (create_eq h).2.2
  rw [if_pos husable] at hmemory
  refine ⟨hkept.blocks_of_vacant fun offset size hoccupies => ?_, hkept.verify_eq, ?_, ?_⟩
  · have hplace := hkept.occupies_iff.mp hoccupies
    cases List.mem_singleton.mp hplace
  · exact Nat.dvd_add (Nat.dvd_add hkept.tidy.lies.base_dvd (Nat.dvd_zero _))
      arena.region.dvd_footprint
  · intro a hout
    rw [hmemory, Region.byteAt_setHeader_of_not_inWords hout, Memory.byteAt_cleared]

theorem blocks_ne_nil_iff_of_create {tracer : τ} (h : create config memory tracer = .ok arena) :
    arena.blocks ≠ [] ↔ arena.region.Usable := by
  constructor
  · intro hblocks
    by_contra hnot
    exact hblocks (blocks_of_not_usable hnot)
  · intro husable
    rw [(untouched_of_create h husable).blocks]
    exact List.cons_ne_nil _ _

/-- An arena lies over a memory: it has taken the same stretch, its region is inside, and where
there is a first header there is memory under all of it. -/
structure Over (arena : Arena τ) (memory : Memory) : Prop where
  start : arena.memory.start = memory.start
  size : arena.memory.size = memory.size
  start_le : memory.start ≤ arena.region.base
  le_stop : arena.region.base + arena.region.capacity ≤ memory.stop
  covers : arena.blocks ≠ [] → memory.Covers arena.region.base arena.region.footprint

theorem over_of_create {tracer : τ} (h : create config memory tracer = .ok arena) :
    arena.Over memory := by
  obtain ⟨hstart, hsize⟩ := stretch_of_create h
  have hregion := (create_eq h).1
  have hlow : memory.start ≤ arena.region.base := by
    rw [hregion]
    exact Region.start_le_within config.unit memory
  have hhigh : arena.region.base + arena.region.capacity ≤ memory.stop := by
    rw [hregion]
    exact Region.within_le_stop config.unit memory
  refine ⟨hstart, hsize, hlow, hhigh, fun hblocks => ⟨hlow, ?_⟩⟩
  have husable := (blocks_ne_nil_iff_of_create h).mp hblocks
  unfold Region.Usable at husable
  omega

end Arena

/-- Steps that answer alike and change nothing can be taken one after another. -/
theorem Act.run_mapM_of_idle {τ α β : Type} {arena : Arena τ} {f : α → Act τ β} {b : β}
    {xs : List α} (h : ∀ x ∈ xs, (f x).run arena = .ok b arena) :
    (xs.mapM f).run arena = .ok (xs.map fun _ => b) arena := by
  induction xs with
  | nil => rfl
  | cons x rest ih =>
    rw [List.mapM_cons, run_bind_ok (h x List.mem_cons_self),
      run_bind_ok (ih fun y hy => h y (List.mem_cons_of_mem x hy))]
    rfl

namespace Arena

variable {τ : Type} [Tracer τ] {arena : Arena τ} {config : Config} {memory : Memory}

/-- An arena that nothing can be got from or given back to, over bytes that are all zero. -/
structure Barren (arena : Arena τ) : Prop where
  blocks : arena.blocks = []
  verify : arena.verify = .ok ()
  blank : ∀ a, arena.memory.byteAt a = 0
  /-- No payload is live, so a client has nowhere to write. -/
  unwritten : ∀ address bytes, ¬ arena.Allows (.write address bytes)
  /-- Whatever else is asked, any address given back included, is answered with nothing and
  leaves all of the arena as it is. -/
  idle : ∀ ss : List Step, (∀ address bytes, Step.write address bytes ∉ ss) →
    (ss.mapM step).run arena = .ok (ss.map fun _ => none) arena

theorem barren_of_create {tracer : τ} (h : create config memory tracer = .ok arena)
    (husable : ¬ arena.region.Usable) : arena.Barren := by
  obtain ⟨-, hstats, hmemory⟩ := create_eq h
  rw [if_neg husable] at hmemory
  refine ⟨blocks_of_not_usable husable, verify_of_not_usable husable, fun a => ?_, ?_, ?_⟩
  · rw [hmemory, Memory.byteAt_cleared]
  · intro address bytes hallows
    obtain ⟨b, payload, hlive, -⟩ := hallows
    exact not_live_of_not_usable husable b payload hlive
  · -- There are no peaks to reset either: no counter has ever been moved.
    have hreset : arena.resetPeaks = arena := by
      unfold resetPeaks
      rw [show arena.stats.resetPeaks = arena.stats by rw [hstats]; rfl]
    intro ss hss
    refine Act.run_mapM_of_idle fun s hs => ?_
    rw [run_call_of_not_usable husable fun address bytes heq => hss address bytes (heq ▸ hs),
      hreset, ite_self]

/-! ### Which units give an arena -/

omit [Tracer τ] in
theorem create_eq_error {tracer : τ} (hstart : memory.start + config.unit.bytes < 2 ^ 64)
    (hleast : ¬ config.unit.footprint + config.unit.bytes < 2 ^ 64) :
    create config memory tracer = .error .addition := by
  have hfault : Word.add (Region.within config.unit memory).footprint config.unit.bytes =
      .error .addition := if_neg hleast
  unfold create
  dsimp only
  rw [Word.add_eq_ok_iff.mpr ⟨rfl, hstart⟩, hfault]
  rfl

/-- **Every unit but the greatest gives an arena, and that one never does.**  Whatever else is
set, the arena lies over the memory it was given.  It has a chain exactly if a header and one
unit have room there, and without one it answers every request with nothing. -/
theorem creation_decided_by_unit {base config : Config} {bytes : Nat} {memory : Memory} (tracer : τ)
    (hconfig : base.withUnit bytes = .ok config) (hstart : memory.start + bytes < 2 ^ 64) :
    (bytes < 2 ^ 63 → ∃ arena : Arena τ, create config memory tracer = .ok arena ∧
      arena.Over memory ∧ (arena.blocks ≠ [] ↔ memory.HasRoom config.unit) ∧
      (¬ memory.HasRoom config.unit → ∀ n, (allocate n).run arena = .ok none arena)) ∧
    (bytes = 2 ^ 63 → create config memory tracer = .error .addition) := by
  obtain rfl := Config.bytes_of_withUnit hconfig
  constructor
  · intro hbytes
    obtain ⟨arena, hcreate⟩ := exists_create tracer hstart
      (AlignUnit.footprint_add_bytes_lt_iff.mpr hbytes)
    have husable : arena.region.Usable ↔ memory.HasRoom config.unit := by
      rw [(create_eq hcreate).1]
      exact Region.usable_within_iff
    refine ⟨arena, hcreate, over_of_create hcreate, ?_, fun hroom n => ?_⟩
    · exact (blocks_ne_nil_iff_of_create hcreate).trans husable
    · exact run_allocate_refused rfl (.inl fun h => hroom (husable.mp h))
  · intro hbytes
    refine create_eq_error hstart fun hsum => ?_
    have hlt := AlignUnit.footprint_add_bytes_lt_iff.mp hsum
    omega

/-- The unit of which a header takes up one, and two are no word of bytes. -/
def greatestUnit : AlignUnit := ⟨2 ^ 63, ⟨63, rfl⟩, by decide, by decide⟩

/-- A unit that is larger than `sample`. -/
def wideUnit : AlignUnit := ⟨256, ⟨8, rfl⟩, by decide, by decide⟩

theorem creation_decided_by_unit_sample :
    (({} : Config).withUnit 8 = .ok {} ∧
      ∃ arena : Arena Silent, create {} sample ⟨⟩ = .ok arena ∧ arena.blocks ≠ []) ∧
    (({} : Config).withUnit 256 = .ok { unit := wideUnit } ∧
      ∃ arena : Arena Silent, create { unit := wideUnit } sample ⟨⟩ = .ok arena ∧
        ∀ n, (allocate n).run arena = .ok none arena) ∧
    ({} : Config).withUnit (2 ^ 63) = .ok { unit := greatestUnit } ∧
      create { unit := greatestUnit } sample (⟨⟩ : Silent) = .error .addition := by
  have hword : ({} : Config).withUnit 8 = .ok {} := Config.withUnit_eq_ok_iff.mpr ⟨_, rfl, rfl⟩
  have hwide : ({} : Config).withUnit 256 = .ok { unit := wideUnit } :=
    Config.withUnit_eq_ok_iff.mpr ⟨_, rfl, rfl⟩
  have hgreatest : ({} : Config).withUnit (2 ^ 63) = .ok { unit := greatestUnit } :=
    Config.withUnit_eq_ok_iff.mpr ⟨_, rfl, rfl⟩
  refine ⟨⟨hword, ?_⟩, ⟨hwide, ?_⟩, hgreatest, ?_⟩
  · obtain ⟨arena, hcreate, -, hblocks, -⟩ :=
      (@creation_decided_by_unit Silent _ _ _ _ sample ⟨⟩ hword (by decide)).1 (by decide)
    exact ⟨arena, hcreate, hblocks.mpr (Region.usable_within_iff.mp (by decide +kernel))⟩
  · obtain ⟨arena, hcreate, -, -, hidle⟩ :=
      (@creation_decided_by_unit Silent _ _ _ _ sample ⟨⟩ hwide (by decide)).1 (by decide)
    refine ⟨arena, hcreate, hidle ?_⟩
    rw [← Region.usable_within_iff]
    decide +kernel
  · exact (@creation_decided_by_unit Silent _ _ _ _ sample ⟨⟩ hgreatest (by decide)).2 rfl

/-- `sample` has no room for a block of the greatest unit, and there is no arena over it all
the same. -/
theorem create_greatest_unit_faults :
    ({} : Config).withUnit (2 ^ 63) = .ok { unit := greatestUnit } ∧
      sample.start + 2 ^ 63 < 2 ^ 64 ∧ ¬ sample.HasRoom greatestUnit ∧
      create { unit := greatestUnit } sample (⟨⟩ : Silent) = .error .addition := by
  have hstart : sample.start + 2 ^ 63 < 2 ^ 64 := by decide
  have hleast : ¬ greatestUnit.footprint + 2 ^ 63 < 2 ^ 64 := by decide +kernel
  refine ⟨Config.withUnit_eq_ok_iff.mpr ⟨_, rfl, rfl⟩, hstart, ?_, create_eq_error hstart hleast⟩
  rw [← Region.usable_within_iff]
  decide +kernel

/-! ### What a new arena is -/

/-- **A new arena is one free block, or nothing at all.**  The region is the largest one whole
units make up, and whether it has room for a header and one unit decides which of the two. -/
theorem creation_establishes {config : Config} {memory : Memory} (tracer : τ)
    (hunit : config.unit.bytes ≤ 2 ^ 62) (hstart : memory.start + config.unit.bytes < 2 ^ 64) :
    ∃ first : Arena τ, create config memory tracer = .ok first ∧
      first.Over memory ∧ first.stats = {} ∧ first.tracer = tracer ∧
      first.region.Fills config.unit memory.start memory.stop ∧
      (first.blocks ≠ [] ↔ first.region.footprint + config.unit.bytes ≤ first.region.capacity) ∧
      (first.blocks ≠ [] → first.Untouched) ∧ (first.blocks = [] → first.Barren) := by
  obtain ⟨first, hcreate⟩ := exists_create tracer hstart
    (AlignUnit.footprint_add_bytes_lt_iff.mpr (Nat.lt_of_le_of_lt hunit (by decide)))
  obtain ⟨hregion, hstats, -⟩ := create_eq hcreate
  have hchain := blocks_ne_nil_iff_of_create hcreate
  have hunits : first.region.unit = config.unit := by
    rw [hregion]
    rfl
  refine ⟨first, hcreate, over_of_create hcreate, hstats, (settings_of_create hcreate).2, ?_, ?_,
    ?_, ?_⟩
  · rw [hregion]
    exact Region.fills_within config.unit memory
  · rw [← hunits]
    exact hchain
  · intro hblocks
    exact untouched_of_create hcreate (hchain.mp hblocks)
  · intro hblocks
    exact barren_of_create hcreate fun husable => hchain.mpr husable hblocks

theorem creation_establishes_sample :
    (∃ first : Arena Silent, create {} sampleAstride ⟨⟩ = .ok first ∧
      first.region.base = 8192 ∧ first.region.capacity = 200 ∧
      first.blocks = [⟨0, .fresh 144 none none⟩] ∧ first.memory.byteAt 8190 = 0) ∧
    ∃ first : Arena Silent, create { unit := wideUnit } sample ⟨⟩ = .ok first ∧
      first.blocks = [] ∧
      ([.allocate 0, .release 4152, .release 7].mapM step).run first =
        .ok [none, none, none] first := by
  constructor
  · obtain ⟨first, hcreate, -, -, -, -, hchain, huntouched, -⟩ :=
      @creation_establishes Silent _ {} sampleAstride ⟨⟩ (by decide) (by decide)
    have hregion : first.region = .within ({} : Config).unit sampleAstride := (create_eq hcreate).1
    have hroom : first.region.footprint + ({} : Config).unit.bytes ≤ first.region.capacity := by
      rw [hregion]
      decide +kernel
    obtain ⟨hblocks, -, -, hblank⟩ := huntouched (hchain.mpr hroom)
    refine ⟨first, hcreate, ?_, ?_, ?_, hblank 8190 ?_⟩
    · rw [hregion]
      decide +kernel
    · rw [hregion]
      decide +kernel
    · rw [hblocks, hregion]
      decide +kernel
    · rw [hregion]
      unfold Region.InWords
      decide +kernel
  · obtain ⟨first, hcreate, -, -, -, -, hchain, -, hbarren⟩ :=
      @creation_establishes Silent _ { unit := wideUnit } sample ⟨⟩ (by decide) (by decide)
    have hblocks : first.blocks = [] := by
      by_contra hblocks
      have hroom := hchain.mp hblocks
      rw [(create_eq hcreate).1] at hroom
      revert hroom
      decide +kernel
    exact ⟨first, hcreate, hblocks, (hbarren hblocks).idle _ (by simp)⟩

end Arena

end FirstFit
