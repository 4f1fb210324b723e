/-
Release in a memory that holds anything.

A release takes what the header of its block says at its word: how many bytes to discount, and
which blocks come before and after.  The neighbours are asked whether they are whole and free,
but not whether they are neighbours, as a walk would ask.  So a header that is damaged can make
a counter negative, or have a block merged with one that is far away, or with itself.

`Region.Adjoins` is what has to hold of the links of the block, once it is marked free, and it asks
nothing of links that no merge goes by.  With it, and with counters that cover the block, a release
is safe, and merges only blocks that are next to each other; and if a release does so, the counters
cover the block, and the links are like this (`Arena.Runs.release_merges_adjacent`).

That it merges no other blocks is said by changing the merge: `Arena.releaseBy` is a release that
merges in some other way, and if that is the same for blocks that are next to each other, the
release is the same.  Two ways that end differently for all other blocks tell the converse
(`Act.Careful.adjacent`).
-/
import FirstFit.Proofs.Overhang

namespace FirstFit

/-! ### Another way to merge -/

namespace Act

variable {τ : Type} [Tracer τ]

/-- Makes one block of a free one and the free one behind it, if there is one, by `join`. -/
def takeNext (join : Nat → Nat → Act τ Unit) (start : Nat) : Act τ Unit := do
  if let some after ← freeNeighbour (← header start).next then
    join start after

/-- A merge with free neighbours that makes one block of two by `join`. -/
def mergeBy (join : Nat → Nat → Act τ Unit) (offset : Nat) (prev : Link) : Act τ Unit := do
  let start ← match ← freeNeighbour prev with
    | some before =>
      join before offset
      pure before
    | none => pure offset
  takeNext join start

end Act

namespace Arena

variable {τ : Type} [Tracer τ]

/-- A release that makes one block of two by `join`. -/
def releaseBy (join : Nat → Nat → Act τ Unit) (address : Nat) : Act τ Unit := do
  let arena ← get
  if address = 0 ∨ ¬ arena.region.Usable then
    return
  let (offset, h) ← Act.allocatedAt address
  Act.reclaim offset h
  Act.note (.released address offset h.size)
  Act.mergeBy join offset h.prev
  if arena.config.verify.afterRelease then
    Act.verify

theorem releaseBy_absorb : releaseBy (τ := τ) Act.absorb = release := rfl

end Arena

/-! ### What the links have to say -/

namespace Region

/-- A block ends where another one starts, and the size of the two in one is a word. -/
structure Takes (r : Region) (m : Memory) (into victim : Nat) : Prop where
  place : victim = r.stop ⟨into, r.headerAt m into⟩
  size : (r.headerAt m into).size + (r.footprint + (r.headerAt m victim).size) < 2 ^ 64

/-- If the link forward of a block leads to a free one, the block can take that in. -/
def Joins (r : Region) (m : Memory) (start : Nat) : Prop :=
  ∀ n ∈ (r.headerAt m start).next, r.Shows m n true → r.Takes m start n

/-- The links of a free block lead to blocks next to it, where a merge goes by them. -/
structure Adjoins (r : Region) (m : Memory) (o : Nat) : Prop where
  /-- A free block that the link back leads to ends where this one starts. -/
  before : ∀ q ∈ (r.headerAt m o).prev, r.Shows m q true → r.stop ⟨q, r.headerAt m q⟩ = o
  /-- Without a block before it, or with an allocated one, it can take in what is behind it. -/
  alone : (∀ q ∈ (r.headerAt m o).prev, r.Shows m q false) → r.Joins m o
  /-- A free one before it takes in both.  So the link forward does not lead back there; where it
  leads into the header that is given up, nothing is left to be taken in. -/
  taken : ∀ q ∈ (r.headerAt m o).prev, r.Shows m q true →
    ∀ n ∈ (r.headerAt m o).next, r.Admits n → r.Apart n q ∧
      (r.Apart n o → r.Shows m n true → n = r.stop ⟨o, r.headerAt m o⟩ ∧
        (r.headerAt m q).size + (r.footprint + (r.headerAt m o).size) +
          (r.footprint + (r.headerAt m n).size) < 2 ^ 64)

variable {r : Region} {m m' : Memory} {o q n into victim : Nat} {free : Bool}

theorem Takes.apart (h : r.Takes m into victim) : r.Apart into victim := by
  have hplace := h.place
  unfold stop at hplace
  dsimp only at hplace
  exact .inl (by omega)

theorem Shows.congr (h : r.Shows m' q free) (hadmits : r.Admits q)
    (hintact : (r.headerAt m' q).Intact ↔ (r.headerAt m q).Intact)
    (hfree : (r.headerAt m' q).isFree = (r.headerAt m q).isFree) : r.Shows m q free :=
  ⟨hadmits, hintact.mp h.intact, hfree.symm.trans h.isFree⟩

/-- A new back link does not change what a header shows. -/
theorem shows_iff_of_relinked {prev : Link} (hadmits : r.Admits q)
    (hsame : r.headerAt m' q = { r.headerAt m q with prev := prev }) :
    r.Shows m' q free ↔ r.Shows m q free := by
  have hintact : (r.headerAt m' q).Intact ↔ (r.headerAt m q).Intact := by
    rw [hsame]
    exact ⟨fun h => ⟨h.leading, h.trailing, h.flag⟩, fun h => ⟨h.leading, h.trailing, h.flag⟩⟩
  have hfree : (r.headerAt m' q).isFree = (r.headerAt m q).isFree := by
    rw [hsame]
    rfl
  exact ⟨fun h => h.congr hadmits hintact hfree, fun h => h.congr hadmits hintact.symm hfree.symm⟩

/-- From a multiple of a number to a greater one it is as far as that number at least. -/
theorem add_le_of_dvd_of_lt {d a b : Nat} (ha : d ∣ a) (hb : d ∣ b) (hlt : a < b) : a + d ≤ b := by
  have hle := Nat.le_of_dvd (Nat.sub_pos_of_lt hlt) (Nat.dvd_sub hb ha)
  omega

/-- A header that shares bytes with a footprint that is wiped loses one of its canaries. -/
theorem not_intact_of_wiped (hlies : r.Lies m) (hn : r.Admits n) (hvictim : r.Admits victim)
    (hshares : ¬ r.Apart n victim) : ¬ (r.headerAt (r.wipe m victim) n).Intact := by
  intro hintact
  have hbytes := r.byteCount_le_footprint
  have hlt : r.footprint < Header.byteCount + r.unit.bytes := r.unit.ceil_lt Header.byteCount
  have hword := r.unit.word_le
  have hdvd := (hlies.admits_iff.mp hn).1
  have hdvd' := (hlies.admits_iff.mp hvictim).1
  have hzero : ∀ a, r.base + victim ≤ a → a + 8 ≤ r.base + victim + r.footprint →
      (r.wipe m victim).word a = 0 := fun a hlow hhigh =>
    Memory.word_eq_zero fun c h1 h2 => byteAt_wipe ⟨by omega, by omega⟩
  unfold Header.byteCount at hbytes hlt
  unfold Apart at hshares
  -- The two are whole units from each other, and so are their ends.
  rcases Nat.le_total victim n with hle | hle
  · have hroom : n + r.unit.bytes ≤ victim + r.footprint :=
      add_le_of_dvd_of_lt hdvd (Nat.dvd_add hdvd' r.dvd_footprint) (by omega)
    have hleading : (r.headerAt (r.wipe m victim) n).leading = 0 :=
      congrArg UInt64.toNat (hzero (r.base + n) (by omega) (by omega))
    rw [hintact.leading] at hleading
    exact absurd hleading (by decide)
  · have hroom : victim + r.unit.bytes ≤ n + r.footprint :=
      add_le_of_dvd_of_lt hdvd' (Nat.dvd_add hdvd r.dvd_footprint) (by omega)
    have hwords : 8 ∣ victim - n := Nat.dvd_trans r.unit.word_dvd (Nat.dvd_sub hdvd' hdvd)
    have htrailing : (r.headerAt (r.wipe m victim) n).trailing = 0 :=
      congrArg UInt64.toNat (hzero (r.base + n + 48) (by omega) (by omega))
    rw [hintact.trailing] at htrailing
    exact absurd htrailing (by decide)

theorem takes_iff_of_absorbed {next prev : Link} (htakes : r.Takes m q o)
    (hinto : r.headerAt m' q = { r.headerAt m q with
      size := (r.headerAt m q).size + (r.footprint + (r.headerAt m o).size), next := next })
    (hbehind : r.headerAt m' n = { r.headerAt m n with prev := prev }) :
    r.Takes m' q n ↔ n = r.stop ⟨o, r.headerAt m o⟩ ∧
      (r.headerAt m q).size + (r.footprint + (r.headerAt m o).size) +
        (r.footprint + (r.headerAt m n).size) < 2 ^ 64 := by
  have hplace := htakes.place
  have hstop : r.stop ⟨q, r.headerAt m' q⟩ = r.stop ⟨o, r.headerAt m o⟩ := by
    unfold stop Block.size at hplace ⊢
    rw [hinto]
    dsimp only at hplace ⊢
    omega
  refine ⟨fun h => ?_, fun h => ?_⟩
  · obtain ⟨hplace', hsize'⟩ := h
    rw [hinto, hbehind] at hsize'
    exact ⟨hplace'.trans hstop, hsize'⟩
  · obtain ⟨hplace', hsize'⟩ := h
    refine ⟨hplace'.trans hstop.symm, ?_⟩
    rw [hinto, hbehind]
    exact hsize'

/-- What a block can take in, after it took in the one that links to it. -/
theorem joins_absorb_iff (hlies : r.Lies m) (hq : r.Admits q) (ho : r.Admits o)
    (htakes : r.Takes m q o) (hn : n ∈ (r.headerAt m o).next) (hadmits : r.Admits n)
    (hapart : r.Apart n q) :
    r.Joins (r.absorb m q o) q ↔
      (r.Apart n o → r.Shows m n true → n = r.stop ⟨o, r.headerAt m o⟩ ∧
        (r.headerAt m q).size + (r.footprint + (r.headerAt m o).size) +
          (r.footprint + (r.headerAt m n).size) < 2 ^ 64) := by
  have hroom := (hlies.admits_iff.mp hq).2
  have hcapacity := hlies.capacity_lt
  have hlink : (r.headerAt m o).next = some n := hn
  have hinto := headerAt_absorb_into hlies hroom htakes.size htakes.apart fun n' hn' => by
    obtain rfl : n = n' := Option.some.inj (hlink.symm.trans hn')
    exact hapart.symm
  unfold Joins
  rw [congrArg Header.next hinto]
  simp only [hlink, Option.mem_some_iff, forall_eq']
  by_cases hclear : r.Apart n o
  · have hbehind := headerAt_absorb_next hlies hn (hlies.admits_iff.mp hadmits).2
      (show q < Link.nil by unfold Link.nil; omega) hapart hclear
    rw [shows_iff_of_relinked hadmits hbehind, takes_iff_of_absorbed htakes hinto hbehind]
    simp only [hclear, true_implies]
  · -- The header at the link went with the one that was given up.
    have hgone : ¬ r.Shows (r.absorb m q o) n true := fun hshows =>
      not_intact_of_wiped (hlies.congr (by simp) (by simp)) hadmits ho hclear hshows.intact
    simp only [hgone, hclear, false_implies]

/-- A block that took in one with a link to itself leads to itself. -/
theorem not_joins_absorb_self (hlies : r.Lies m) (hshows : r.Shows m q true)
    (htakes : r.Takes m q o) (hq : q ∈ (r.headerAt m o).next) :
    ¬ r.Joins (r.absorb m q o) q := by
  have hroom := (hlies.admits_iff.mp hshows.admits).2
  have hcapacity := hlies.capacity_lt
  have hpos := r.footprint_pos
  have hlink : (r.headerAt m o).next = some q := hq
  have hhere : r.headerAt (r.absorb m q o) q = { r.headerAt m q with
      size := (r.headerAt m q).size + (r.footprint + (r.headerAt m o).size)
      next := some q
      prev := some q } := by
    unfold absorb
    rw [headerAt_wipe_of_apart htakes.apart, hlink, headerAt_relink
      (hlies.congr (by simp) (by simp)) hroom (show q < Link.nil by unfold Link.nil; omega),
      headerAt_setHeader hlies hroom
        (hlink ▸ fits_headerAt.withExtent htakes.size fits_headerAt.next)]
  intro hjoins
  have hshows' : r.Shows (r.absorb m q o) q true := by
    refine ⟨hshows.admits, ?_, ?_⟩ <;> rw [hhere]
    · exact ⟨hshows.intact.leading, hshows.intact.trailing, hshows.intact.flag⟩
    · exact hshows.isFree
  have hself := (hjoins q (by rw [hhere]; rfl) hshows').place
  unfold stop at hself
  dsimp only at hself
  omega

theorem Adjoins.takes (h : r.Adjoins m o) (hlies : r.Lies m) (ho : r.Admits o)
    (hsize : (r.headerAt m o).size ≤ r.capacity) (hq : q ∈ (r.headerAt m o).prev)
    (hshows : r.Shows m q true) : r.Takes m q o := by
  have hplace := h.before q hq hshows
  have hroom := (hlies.admits_iff.mp ho).2
  have hcapacity := hlies.capacity_lt
  refine ⟨hplace.symm, ?_⟩
  unfold stop Block.size at hplace
  dsimp only at hplace
  omega

/-- The block that took in one which adjoins its neighbours can take in what is behind it then. -/
theorem Adjoins.joins_absorb (h : r.Adjoins m o) (hlies : r.Lies m) (ho : r.Admits o)
    (hq : q ∈ (r.headerAt m o).prev) (hshows : r.Shows m q true) (htakes : r.Takes m q o)
    (hnext : ∀ n ∈ (r.headerAt m o).next, r.Admits n) : r.Joins (r.absorb m q o) q := by
  cases hlink : (r.headerAt m o).next with
  | none =>
    have hroom := (hlies.admits_iff.mp hshows.admits).2
    have hinto := headerAt_absorb_into hlies hroom htakes.size htakes.apart (by simp [hlink])
    intro n hn
    rw [hinto] at hn
    exact absurd hn (by simp [hlink])
  | some n =>
    obtain ⟨hapart, hbehind⟩ := h.taken q hq hshows n hlink (hnext n hlink)
    exact (joins_absorb_iff hlies hshows.admits ho htakes hlink (hnext n hlink) hapart).mpr hbehind

end Region

/-! ### The merges -/

/-- Two blocks without a gap between them, and so not the same. -/
def Arena.Adjacent {τ : Type} (arena : Arena τ) (into victim : Nat) : Prop :=
  victim = into + arena.region.footprint + (arena.headerAt into).size ∧ victim ≠ into

instance {τ : Type} (arena : Arena τ) (into victim : Nat) :
    Decidable (arena.Adjacent into victim) :=
  inferInstanceAs (Decidable (_ ∧ _))

namespace Act

variable {τ α : Type} {arena arena' mid : Arena τ} {r : Region}
  {join : Nat → Nat → Act τ Unit} {op op' : (Nat → Nat → Act τ Unit) → Act τ α}
  {f : (Nat → Nat → Act τ Unit) → Unit → Act τ α} {o q n start into victim : Nat} {prev : Link}

theorem run_takeNext (hr : arena.region = r) (hstart : r.Admits start)
    (hn : n ∈ (r.headerAt arena.memory start).next) (hshows : r.Shows arena.memory n true) :
    (takeNext join start).run arena = (join start n).run arena := by
  have hlink : (r.headerAt arena.memory start).next = some n := hn
  unfold takeNext
  rw [run_bind_ok (run_header_eq hr hstart), hlink,
    run_bind_ok (run_freeNeighbour_shows hr hshows)]
  rfl

theorem run_mergeBy_alone (hr : arena.region = r)
    (halone : ∀ q ∈ prev, r.Shows arena.memory q false) :
    (mergeBy join o prev).run arena = (takeNext join o).run arena := by
  have hrun : (freeNeighbour prev).run arena = .ok none arena := by
    cases prev with
    | none => rfl
    | some q => exact run_freeNeighbour_shows hr (halone q rfl)
  unfold mergeBy
  rw [run_bind_ok hrun]
  rfl

theorem run_mergeBy_taken (hr : arena.region = r) (hshows : r.Shows arena.memory q true) :
    (mergeBy join o (some q)).run arena =
      (join q o >>= fun _ => takeNext join q).run arena := by
  unfold mergeBy
  rw [run_bind_ok (run_freeNeighbour_shows hr hshows)]
  rfl

variable [Tracer τ]

/-- Making one block of two that are adjacent is the same as `absorb`. -/
def JoinsAdjacent (join : Nat → Nat → Act τ Unit) : Prop :=
  ∀ (arena : Arena τ) (into victim : Nat), arena.Adjacent into victim →
    (join into victim).run arena = (absorb into victim).run arena

/-- An operation that joins blocks is safe, and joins only blocks that are adjacent. -/
def Careful (op : (Nat → Nat → Act τ Unit) → Act τ α) (arena : Arena τ) : Prop :=
  ∀ join, JoinsAdjacent join → Mimics (op join) (op absorb) arena fun _ _ => True

theorem JoinsAdjacent.mimics (h : JoinsAdjacent join) (hr : arena.region = r)
    (hinto : r.Admits into) (hvictim : r.Admits victim)
    (htakes : r.Takes arena.memory into victim) :
    Mimics (join into victim) (absorb into victim) arena fun _ next =>
      (∀ n ∈ (r.headerAt arena.memory victim).next, r.Admits n) ∧ ∃ tracer journal,
        next = { arena with memory := r.absorb arena.memory into victim, tracer, journal } := by
  subst hr
  obtain ⟨hplace, hsize⟩ := htakes
  have hpos := arena.region.footprint_pos
  unfold Region.stop Block.size at hplace
  dsimp only at hplace
  exact ⟨h arena into victim ⟨hplace, by omega⟩, safe_absorb rfl hinto hvictim hsize⟩

theorem mimics_takeNext (hjoin : JoinsAdjacent join) (hr : arena.region = r)
    (hstart : r.Admits start) (hjoins : r.Joins arena.memory start) :
    Mimics (takeNext join start) (takeNext absorb start) arena fun _ _ => True := by
  refine Mimics.bind_ok (run_header_eq hr hstart) ?_
  refine (safe_freeNeighbour hr).mimics.bind fun found next hfound => ?_
  obtain ⟨rfl, hlink, hshows⟩ := hfound
  cases found with
  | none => exact (safe_of_run_ok rfl trivial).mimics
  | some n =>
    have hn := hlink n rfl
    have hmimics := hjoin.mimics hr hstart (hshows n hn).admits (hjoins n hn (hshows n hn))
    exact ⟨hmimics.same, hmimics.safe.mono fun _ _ _ => trivial⟩

/-- The block before a free one takes it in, if at all, when they are adjacent; and then what is
behind the two is adjacent to the one that is left. -/
theorem mimics_merge (hjoin : JoinsAdjacent join) (hr : arena.region = r)
    (hlies : r.Lies arena.memory) (ho : r.Admits o) (h : r.Adjoins arena.memory o)
    (hprev : prev = (r.headerAt arena.memory o).prev)
    (hsize : (r.headerAt arena.memory o).size ≤ r.capacity) :
    Mimics (mergeBy join o prev) (mergeBy absorb o prev) arena fun _ _ => True := by
  subst hprev
  refine (safe_freeNeighbour hr).mimics.bind fun found next hfound => ?_
  obtain ⟨rfl, hlink, hshows⟩ := hfound
  cases found with
  | none => exact mimics_takeNext hjoin hr ho (h.alone hshows)
  | some q =>
    have hq := hlink q rfl
    have htakes := h.takes hlies ho hsize hq (hshows q hq)
    refine (hjoin.mimics hr (hshows q hq).admits ho htakes).bind ?_
    intro _ merged hmerged
    obtain ⟨hnext, tracer, journal, rfl⟩ := hmerged
    exact mimics_takeNext hjoin (Arena.region_mk hr (by simp) (by simp)) (hshows q hq).admits
      (h.joins_absorb hlies ho hq (hshows q hq) htakes hnext)

/-! ### What a careful merge needs -/

/-- `absorb`, but for blocks that are not adjacent, where it ends with a fault. -/
def absorbOr (fault : Fault) (into victim : Nat) : Act τ Unit := do
  if (← get).Adjacent into victim then
    absorb into victim
  else
    throw (.fault fault)

theorem joinsAdjacent_absorbOr (fault : Fault) : JoinsAdjacent (τ := τ) (absorbOr fault) := by
  intro arena into victim h
  unfold absorbOr
  rw [run_bind_ok (EStateM.run_get _), if_pos h]

theorem run_absorbOr_of_not_adjacent {fault : Fault} (h : ¬ arena.Adjacent into victim) :
    (absorbOr fault into victim).run arena = .error (.fault fault) arena := by
  unfold absorbOr
  rw [run_bind_ok (EStateM.run_get _), if_neg h]
  rfl

theorem run_absorb_oversize (hr : arena.region = r) (hinto : r.Admits into)
    (hvictim : r.Admits victim)
    (hsize : ¬ (r.headerAt arena.memory into).size +
      (r.footprint + (r.headerAt arena.memory victim).size) < 2 ^ 64) :
    (absorb into victim).run arena = .error (.fault .addition) arena := by
  have hsum := Word.bind_add_add_eq_error hsize
  unfold absorb
  rw [run_bind_ok (run_header_eq hr hvictim), run_bind_ok (run_header_eq hr hinto),
    run_bind_ok (EStateM.run_get _), hr]
  simp only [hsum]
  exact run_bind_error (run_checked_error _)

theorem Careful.congr (h : Careful op arena)
    (hrun : ∀ join, (op join).run arena = (op' join).run arena') : Careful op' arena' :=
  fun join hjoin => ⟨(hrun join).symm.trans ((h join hjoin).same.trans (hrun absorb)),
    safe_congr (hrun absorb).symm (h join hjoin).safe⟩

/-- Only adjacent blocks are joined, or two ways to end elsewhere would be the same. -/
theorem Careful.adjacent (h : Careful (fun join => join into victim >>= f join) arena) :
    arena.Adjacent into victim := by
  by_contra hnot
  have hends : ∀ fault, (absorbOr fault into victim >>= f (absorbOr fault)).run arena =
      .error (.fault fault) arena :=
    fun fault => run_bind_error (run_absorbOr_of_not_adjacent hnot)
  have hsame := (h _ (joinsAdjacent_absorbOr .addition)).same.trans
    (h _ (joinsAdjacent_absorbOr .subtraction)).same.symm
  dsimp only at hsame
  rw [hends, hends] at hsame
  cases hsame

theorem Careful.takes (h : Careful (fun join => join into victim >>= f join) arena)
    (hr : arena.region = r) (hinto : r.Admits into) (hvictim : r.Admits victim) :
    r.Takes arena.memory into victim := by
  subst hr
  refine ⟨h.adjacent.1, ?_⟩
  by_contra hsize
  exact not_safe_of_run_fault (run_bind_error (run_absorb_oversize rfl hinto hvictim hsize))
    (h absorb fun _ _ _ _ => rfl).safe

theorem Careful.behind (h : Careful (fun join => join into victim >>= f join) arena)
    (hrun : (absorb into victim).run arena = .ok () mid) :
    Careful (fun join => f join ()) mid := by
  intro join hjoin
  have hjoined : (join into victim).run arena = .ok () mid := (hjoin _ _ _ h.adjacent).trans hrun
  obtain ⟨hsame, hsafe⟩ := h join hjoin
  exact ⟨(run_bind_ok hjoined).symm.trans (hsame.trans (run_bind_ok hrun)),
    safe_congr (run_bind_ok hrun).symm hsafe⟩

/-- A careful operation that starts with what is behind a block finds an adjacent one there. -/
theorem joins_of_careful {g : Unit → Act τ α}
    (h : Careful (fun join => takeNext join start >>= g) arena) (hr : arena.region = r)
    (hstart : r.Admits start) : r.Joins arena.memory start := by
  intro n hn hshows
  have hfirst : Careful (fun join => join start n >>= g) arena :=
    h.congr fun join => run_bind_congr (run_takeNext hr hstart hn hshows)
  exact hfirst.takes hr hstart hshows.admits

/-- A merge that is careful has links to go by that lead to adjacent blocks. -/
theorem adjoins_of_careful {g : Unit → Act τ α}
    (h : Careful (fun join => mergeBy join o (r.headerAt arena.memory o).prev >>= g) arena)
    (hr : arena.region = r) (hlies : r.Lies arena.memory) (ho : r.Admits o)
    (htrace : (r.headerAt arena.memory o).trace = none)
    (hclear : ∀ q ∈ (r.headerAt arena.memory o).prev, ∀ n ∈ (r.headerAt arena.memory o).next,
      r.Admits n → n = q ∨ r.Apart n q) : r.Adjoins arena.memory o := by
  have htaken : ∀ q ∈ (r.headerAt arena.memory o).prev, r.Shows arena.memory q true →
      Careful (fun join => join q o >>= fun _ => takeNext join q >>= g) arena := by
    intro q hq hshows
    have hlink : (r.headerAt arena.memory o).prev = some q := hq
    refine h.congr fun join => ?_
    rw [hlink, run_bind_congr (run_mergeBy_taken hr hshows), bind_assoc]
  refine ⟨fun q hq hshows => ?_, fun halone => ?_, fun q hq hshows n hn hadmits => ?_⟩
  · exact ((htaken q hq hshows).takes hr hshows.admits ho).place.symm
  · exact joins_of_careful (h.congr fun join => run_bind_congr (run_mergeBy_alone hr halone)) hr ho
  · have htakes := (htaken q hq hshows).takes hr hshows.admits ho
    have hlink : (r.headerAt arena.memory o).next = some n := hn
    have hnext : ∀ n' ∈ (r.headerAt arena.memory o).next, r.Admits n' := by
      intro n' hn'
      obtain rfl : n = n' := Option.some.inj (hlink.symm.trans hn')
      exact hadmits
    have hbehind := (htaken q hq hshows).behind
      (run_absorb hr hshows.admits ho hnext htakes.size htrace)
    have hjoins : r.Joins (r.absorb arena.memory q o) q :=
      joins_of_careful hbehind (Arena.region_mk hr (by simp) (by simp)) hshows.admits
    -- Where the link forward leads back, the block before would be merged with itself.
    rcases hclear q hq n hn hadmits with rfl | hapart
    · exact absurd hjoins (Region.not_joins_absorb_self hlies hshows htakes hn)
    · exact ⟨hapart,
        (Region.joins_absorb_iff hlies hshows.admits ho htakes hn hadmits hapart).mp hjoins⟩

end Act

/-! ### The release -/

namespace Arena

variable {τ : Type} [Tracer τ] {arena first last : Arena τ} {r : Region} {o address : Nat}
  {join : Nat → Nat → Act τ Unit}

/-- The counters cover the block at an offset, and once it is marked free, it adjoins what it is
merged with. -/
structure Reclaimable (arena : Arena τ) (r : Region) (o : Nat) : Prop where
  used : (r.headerAt arena.memory o).size ≤ arena.stats.used
  live : 1 ≤ arena.stats.live
  adjoins : r.Adjoins (arena.reclaimed r o).memory o

theorem run_releaseBy_shows (hr : arena.region = r) (hlies : r.Lies arena.memory)
    (hshows : r.Shows arena.memory o false)
    (hused : (r.headerAt arena.memory o).size ≤ arena.stats.used) (hlive : 1 ≤ arena.stats.live)
    (hreleases : arena.stats.releases + 1 < 2 ^ 64) :
    ∃ marked : Arena τ, marked.region = r ∧ marked.memory = (arena.reclaimed r o).memory ∧
      ∀ join, (releaseBy join (r.payload o)).run arena =
        (Act.mergeBy join o (r.headerAt arena.memory o).prev >>= fun _ =>
          if arena.config.verify.afterRelease then Act.verify else pure ()).run marked := by
  have hroom := (hlies.admits_iff.mp hshows.admits).2
  have hhere := Act.run_allocatedAt hr rfl hshows.admits hroom hshows.intact hshows.isFree
  refine ⟨{ arena.reclaimed r o with
    journal := arena.journal.push (.released (r.payload o) o (r.headerAt arena.memory o).size) },
    region_mk hr Region.start_setHeader Region.size_setHeader, rfl, fun join => ?_⟩
  unfold releaseBy
  rw [Act.run_bind_ok (EStateM.run_get _), if_neg (not_ignored hr hlies _), Act.run_bind_ok hhere]
  dsimp only
  rw [Act.run_bind_ok (Act.run_reclaim hr hshows.admits hused hlive hreleases),
    Act.run_bind_ok (Act.run_note _)]
  rfl

/-- The header of a block that was marked free is the one that was read, but for its flag and its
token. -/
theorem headerAt_reclaimed (hlies : r.Lies arena.memory) (ho : r.Admits o) :
    r.headerAt (arena.reclaimed r o).memory o = (r.headerAt arena.memory o).reclaimed :=
  Region.headerAt_setHeader hlies (hlies.admits_iff.mp ho).2 Region.fits_headerAt.reclaimed

theorem lies_reclaimed (hlies : r.Lies arena.memory) : r.Lies (arena.reclaimed r o).memory :=
  hlies.congr Region.start_setHeader Region.size_setHeader

theorem careful_release (hr : arena.region = r) (hlies : r.Lies arena.memory)
    (hused : arena.stats.used ≤ r.capacity)
    (hcount : arena.stats.live + arena.stats.releases < 2 ^ 64)
    (h : ∀ o, address = r.payload o → r.Shows arena.memory o false → arena.Reclaimable r o) :
    Act.Careful (fun join => releaseBy join address) arena := by
  by_cases hshown : ∃ o, address = r.payload o ∧ r.Shows arena.memory o false
  · obtain ⟨o, rfl, hshows⟩ := hshown
    obtain ⟨hcovers, hlive, hadjoins⟩ := h o rfl hshows
    have hhere := headerAt_reclaimed hlies hshows.admits
    have hlies' := lies_reclaimed (o := o) hlies
    obtain ⟨marked, hregion, hmemory, hrun⟩ :=
      run_releaseBy_shows hr hlies hshows hcovers hlive (by omega)
    rw [← hmemory] at hhere hlies' hadjoins
    refine Act.Careful.congr (fun join hjoin => ?_) fun join => (hrun join).symm
    refine (Act.mimics_merge hjoin hregion hlies' hshows.admits hadjoins ?_ ?_).bind
      fun _ merged _ => ?_
    · rw [hhere]
      rfl
    · rw [hhere]
      exact hcovers.trans hused
    · cases arena.config.verify.afterRelease with
      | false => exact (Act.safe_of_run_ok rfl trivial).mimics
      | true => exact (Act.safe_verify.mono fun _ _ _ => trivial).mimics
  · -- Without a block that is given back, nothing is merged.
    intro join hjoin
    refine Act.Mimics.bind_ok (EStateM.run_get _) ?_
    by_cases hignored : address = 0 ∨ ¬ arena.region.Usable
    · rw [if_pos hignored, if_pos hignored]
      exact (Act.safe_of_run_ok rfl trivial).mimics
    · rw [if_neg hignored, if_neg hignored]
      refine (Act.safe_allocatedAt hr hlies).mimics.bind fun found next hfound => ?_
      obtain ⟨rfl, haddress, -, hshows⟩ := hfound
      exact absurd ⟨found.1, haddress, hshows⟩ hshown

theorem reclaimable_of_careful (hr : arena.region = r) (hlies : r.Lies arena.memory)
    (hcount : arena.stats.live + arena.stats.releases < 2 ^ 64)
    (hshows : r.Shows arena.memory o false)
    (hused : (r.headerAt arena.memory o).size ≤ arena.stats.used) (hlive : 1 ≤ arena.stats.live)
    (hclear : ∀ q ∈ (r.headerAt arena.memory o).prev, ∀ n ∈ (r.headerAt arena.memory o).next,
      r.Admits n → n = q ∨ r.Apart n q)
    (h : Act.Careful (fun join => releaseBy join (r.payload o)) arena) :
    arena.Reclaimable r o := by
  obtain ⟨marked, hregion, hmemory, hrun⟩ :=
    run_releaseBy_shows hr hlies hshows hused hlive (by omega)
  have hhere := headerAt_reclaimed hlies hshows.admits
  have hlies' := lies_reclaimed (o := o) hlies
  rw [← hmemory] at hhere hlies'
  have hprev : (r.headerAt marked.memory o).prev = (r.headerAt arena.memory o).prev := by
    rw [hhere]
    rfl
  have hnext : (r.headerAt marked.memory o).next = (r.headerAt arena.memory o).next := by
    rw [hhere]
    rfl
  rw [← hprev] at hrun hclear
  rw [← hnext] at hclear
  refine ⟨hused, hlive,
    hmemory ▸ Act.adjoins_of_careful (h.congr hrun) hregion hlies' hshows.admits ?_ hclear⟩
  rw [hhere]
  rfl

/-- A block that the counters do not cover is discounted all the same. -/
theorem run_release_overdrawn (hr : arena.region = r) (hlies : r.Lies arena.memory)
    (hshows : r.Shows arena.memory o false)
    (hover : ¬ ((r.headerAt arena.memory o).size ≤ arena.stats.used ∧ 1 ≤ arena.stats.live)) :
    ∃ next, (release (r.payload o)).run arena = .error (.fault .subtraction) next := by
  have hroom := (hlies.admits_iff.mp hshows.admits).2
  have hreclaim : ∃ next, (Act.reclaim o (r.headerAt arena.memory o)).run arena =
      .error (.fault .subtraction) next := by
    unfold Act.reclaim
    rw [Act.run_bind_ok (Act.run_amend_eq (r.headerAt arena.memory o).reclaimed hr hshows.admits
      (by rfl)), Act.run_bind_ok (Act.run_discard _)]
    by_cases hused : (r.headerAt arena.memory o).size ≤ arena.stats.used
    · have hlive : ¬ 1 ≤ arena.stats.live := fun hlive => hover ⟨hused, hlive⟩
      rw [Act.run_bind_ok (Act.run_tally (Stats.dropUsed_eq (by exact hused)))]
      exact ⟨_, Act.run_bind_error (Act.run_tally_of_error (Stats.dropLive_eq_error hlive))⟩
    · exact ⟨_, Act.run_bind_error (Act.run_tally_of_error (Stats.dropUsed_eq_error hused))⟩
  obtain ⟨next, hrun⟩ := hreclaim
  refine ⟨next, ?_⟩
  unfold release
  rw [Act.run_bind_ok (EStateM.run_get _), if_neg (not_ignored hr hlies _),
    Act.run_bind_ok (Act.run_allocatedAt hr rfl hshows.admits hroom hshows.intact hshows.isFree)]
  exact Act.run_bind_error hrun

/-- **A release is safe on any bytes, if the counters cover the block and it adjoins what it is
merged with; and then it merges only blocks that are adjacent.**  The counters are needed, and so
are the links, as long as the headers that they lead to do not overlap in part. -/
theorem Runs.release_merges_adjacent {config : Config} {memory m : Memory} {tracer : τ}
    {history : List (Step × Option Nat)} (hcreate : create config memory tracer = .ok first)
    (hruns : Runs first history last) (husable : last.region.Usable)
    (hstart : m.start = last.memory.start) (hsize : m.size = last.memory.size) (address : Nat) :
    ((∀ o, address = last.region.payload o → last.region.Shows m o false →
        (last.holding m).Reclaimable last.region o) →
      ((release address).Safe (last.holding m) fun _ _ => True) ∧
      ∀ join, Act.JoinsAdjacent join →
        (releaseBy join address).run (last.holding m) = (release address).run (last.holding m)) ∧
    (((release address).Safe (last.holding m) fun _ _ => True) →
      ∀ o, address = last.region.payload o → last.region.Shows m o false →
        ((last.region.headerAt m o).size ≤ last.stats.used ∧ 1 ≤ last.stats.live) ∧
        ((∀ join, Act.JoinsAdjacent join → (releaseBy join address).run (last.holding m) =
            (release address).run (last.holding m)) →
          (∀ q ∈ (last.region.headerAt m o).prev, ∀ n ∈ (last.region.headerAt m o).next,
            last.region.Admits n → n = q ∨ last.region.Apart n q) →
          (last.holding m).Reclaimable last.region o)) := by
  have hfirst := hruns.usable husable
  obtain ⟨cells, -, hkept, hword⟩ := hruns.reaches hcreate hfirst
  have hr := region_holding hstart hsize
  have hlies : last.region.Lies m := (Region.lies_within husable).congr hstart hsize
  have hused : last.stats.used ≤ last.region.capacity := by
    have hle := Cells.used_le_extent first.region.footprint cells
    rw [hkept.region, hkept.counts.used]
    exact hle.trans_eq hkept.tidy.covers
  have hcount : last.stats.live + last.stats.releases < 2 ^ 64 := by
    rw [← hkept.counts.allocs]
    exact hword
  constructor
  · intro hreclaimable
    have hcareful := careful_release hr hlies hused hcount hreclaimable
    rw [← releaseBy_absorb]
    exact ⟨(hcareful Act.absorb fun _ _ _ _ => rfl).safe,
      fun join hjoin => (hcareful join hjoin).same⟩
  · intro hsafe o haddress hshows
    have hcovers : (last.region.headerAt m o).size ≤ last.stats.used ∧ 1 ≤ last.stats.live := by
      by_contra hover
      obtain ⟨next, hrun⟩ := run_release_overdrawn hr hlies hshows hover
      rw [← haddress] at hrun
      exact Act.not_safe_of_run_fault hrun hsafe
    refine ⟨hcovers, fun hsame hclear => ?_⟩
    subst haddress
    exact reclaimable_of_careful hr hlies hcount hshows hcovers.1 hcovers.2 hclear
      fun join hjoin => ⟨hsame join hjoin, hsafe⟩

/-- The bytes of a memory in which an allocated block stands between two free ones. -/
def flanked (r : Region) (m : Memory) : Memory :=
  r.setHeader (r.setHeader (r.setHeader m 0 (.fresh 8 none (some 64))) 64
    ((Header.fresh 8 (some 0) (some 128)).granted none)) 128 (.fresh 16 (some 64) none)

theorem headerAt_flanked {m : Memory} (hlies : r.Lies m) (hfootprint : r.footprint = 56)
    (hcapacity : 184 ≤ r.capacity) :
    r.headerAt (flanked r m) 0 = .fresh 8 none (some 64) ∧
      r.headerAt (flanked r m) 64 = (Header.fresh 8 (some 0) (some 128)).granted none ∧
      r.headerAt (flanked r m) 128 = .fresh 16 (some 64) none := by
  have hfits : ∀ (size : Nat) (prev next : Link), size < 2 ^ 64 → (∀ p ∈ prev, p < Link.nil) →
      (∀ n ∈ next, n < Link.nil) → (Header.fresh size prev next).Fits :=
    fun _ _ _ => Header.fits_fresh
  have hapart : ∀ {o o'}, o + 56 ≤ o' → r.Apart o o' := fun h => .inl (hfootprint.symm ▸ h)
  unfold flanked
  refine ⟨?_, ?_, ?_⟩
  · rw [Region.headerAt_setHeader_of_apart (hapart (by decide)),
      Region.headerAt_setHeader_of_apart (hapart (by decide))]
    exact Region.headerAt_setHeader hlies (by omega)
      (hfits _ _ _ (by decide) (by simp) (by simp [Link.nil]))
  · rw [Region.headerAt_setHeader_of_apart (hapart (by decide))]
    exact Region.headerAt_setHeader (hlies.congr (by simp) (by simp)) (by omega)
      ((hfits _ _ _ (by decide) (by simp [Link.nil]) (by simp [Link.nil])).granted none)
  · exact Region.headerAt_setHeader (hlies.congr (by simp) (by simp)) (by omega)
      (hfits _ _ _ (by decide) (by simp [Link.nil]) (by simp))

theorem adjoins_of_fresh {m : Memory} (hfootprint : r.footprint = 56)
    (hbefore : r.headerAt m 0 = .fresh 8 none (some 64))
    (hhere : r.headerAt m 64 = .fresh 8 (some 0) (some 128))
    (hafter : r.headerAt m 128 = .fresh 16 (some 64) none) : r.Adjoins m 64 := by
  refine ⟨fun q hq _ => ?_, fun halone => ?_, fun q hq _ n hn _ => ?_⟩
  · rw [hhere] at hq
    obtain rfl : 0 = q := Option.some.inj hq
    unfold Region.stop Block.size
    rw [hbefore, hfootprint]
    rfl
  · have hallocated := (halone 0 (by rw [hhere]; rfl)).isFree
    rw [hbefore] at hallocated
    exact absurd hallocated (by decide)
  · rw [hhere] at hq hn
    obtain rfl : 0 = q := Option.some.inj hq
    obtain rfl : 128 = n := Option.some.inj hn
    refine ⟨.inr (by omega), fun _ _ => ?_⟩
    unfold Region.stop Block.size
    rw [hbefore, hhere, hafter, hfootprint]
    decide

/-- The block between them adjoins both, and counters that cover it are enough. -/
theorem reclaimable_flanked (hlies : r.Lies arena.memory) (hunit : r.unit = .default)
    (hfootprint : r.footprint = 56) (hcapacity : r.capacity = 200)
    (hused : 8 ≤ arena.stats.used) (hlive : 1 ≤ arena.stats.live) :
    r.Shows (flanked r arena.memory) 64 false ∧
      (arena.holding (flanked r arena.memory)).Reclaimable r 64 := by
  obtain ⟨hbefore, hhere, hafter⟩ := headerAt_flanked hlies hfootprint (by omega)
  have hadmits : r.Admits 64 := by
    unfold Region.Admits
    rw [hunit, hfootprint, hcapacity]
    decide
  have hmarked := headerAt_reclaimed
    (show r.Lies (arena.holding (flanked r arena.memory)).memory from
      hlies.congr (by simp [flanked, holding]) (by simp [flanked, holding])) hadmits
  refine ⟨⟨hadmits, ?_, ?_⟩, ⟨?_, hlive, adjoins_of_fresh hfootprint ?_ ?_ ?_⟩⟩
  · rw [hhere]
    exact ⟨rfl, rfl, .inr rfl⟩
  · rw [hhere]
    rfl
  · exact (congrArg Header.size hhere).trans_le hused
  · exact (Region.headerAt_setHeader_of_apart (.inl (by omega))).trans hbefore
  · exact hmarked.trans (congrArg Header.reclaimed hhere)
  · exact (Region.headerAt_setHeader_of_apart (.inr (by omega))).trans hafter

theorem release_merges_adjacent_flanked :
    ∃ first last : Arena Silent, create {} sample ⟨⟩ = .ok first ∧
      Runs first [(.allocate 8, some 4152), (.allocate 8, some 4216)] last ∧
      last.region.Shows (flanked last.region last.memory) 64 false ∧
      ((release 4216).Safe (last.holding (flanked last.region last.memory)) fun _ _ => True) ∧
      ∀ join, Act.JoinsAdjacent join →
        (releaseBy join 4216).run (last.holding (flanked last.region last.memory)) =
          (release 4216).run (last.holding (flanked last.region last.memory)) := by
  obtain ⟨first, last, hcreate, -, hruns, hkept⟩ := @exists_sample_run
    [.allocate 8, .allocate 8] [some 4152, some 4216] [⟨8, true⟩, ⟨8, true⟩, ⟨16, false⟩]
    (by decide +kernel) (by decide)
  have hregion : last.region.unit = .default ∧ last.region.footprint = 56 ∧
      last.region.capacity = 200 ∧ last.region.base = 4096 ∧ last.region.Usable := by
    rw [hkept.region]
    decide +kernel
  obtain ⟨hunit, hfootprint, hcapacity, hbase, husable⟩ := hregion
  have hlies : last.region.Lies last.memory := Region.lies_within husable
  obtain ⟨hshows, hreclaimable⟩ := reclaimable_flanked hlies hunit hfootprint hcapacity
    (show 8 ≤ last.stats.used by rw [hkept.counts.used]; decide)
    (show 1 ≤ last.stats.live by rw [hkept.counts.live]; decide)
  obtain ⟨hsafe, hsame⟩ := (Runs.release_merges_adjacent hcreate hruns husable
    (show (flanked last.region last.memory).start = _ by simp [flanked])
    (show (flanked last.region last.memory).size = _ by simp [flanked]) 4216).1
    fun o ho _ => by
      unfold Region.payload at ho
      obtain rfl : o = 64 := by omega
      exact hreclaimable
  exact ⟨first, last, hcreate, hruns, hshows, hsafe, hsame⟩

/-- The header of a block of 24 bytes, but for its size. -/
def inflated : Header := (Header.fresh 0x10000000000 none (some 80)).granted none

/-- A header can be overwritten so that its release discounts more than was counted. -/
theorem release_inflated_overdraws :
    ∃ first last : Arena Silent, create {} sample ⟨⟩ = .ok first ∧
      Runs first [(.allocate 24, some 4152)] last ∧
      ∃ m, m.start = last.memory.start ∧ m.size = last.memory.size ∧
        ∃ next, (release 4152).run (last.holding m) = .error (.fault .subtraction) next := by
  obtain ⟨first, last, hcreate, -, hruns, hkept⟩ := @exists_sample_run
    [.allocate 24] [some 4152] [⟨24, true⟩, ⟨64, false⟩] (by decide +kernel) (by decide)
  have hlies := hkept.tidy.lies
  have hadmits : (Region.within ({} : Config).unit sample).Admits 0 := by decide +kernel
  have hpayload : (Region.within ({} : Config).unit sample).payload 0 = 4152 := by decide +kernel
  have hfits : inflated.Fits :=
    (Header.fits_fresh (by decide) (by simp) (by simp [Link.nil])).granted none
  have hhere := Region.headerAt_setHeader hlies (hlies.admits_iff.mp hadmits).2 hfits
  have hused : last.stats.used = 24 := hkept.counts.used
  refine ⟨first, last, hcreate, hruns,
    (Region.within ({} : Config).unit sample).setHeader last.memory 0 inflated,
    Region.start_setHeader, Region.size_setHeader, ?_⟩
  rw [← hpayload]
  refine run_release_overdrawn (Arena.region_mk hkept.region Region.start_setHeader
    Region.size_setHeader) (hlies.congr Region.start_setHeader Region.size_setHeader)
    ⟨hadmits, ?_, ?_⟩ ?_
  · have hintact : inflated.Intact := ⟨rfl, rfl, .inr rfl⟩
    rw [← hhere] at hintact
    exact hintact
  · exact (congrArg Header.isFree hhere).trans rfl
  · intro hcovered
    have hle : inflated.size ≤ last.stats.used :=
      (congrArg Header.size hhere).symm.trans_le hcovered.1
    rw [hused] at hle
    exact absurd hle (by decide)

end Arena

end FirstFit
