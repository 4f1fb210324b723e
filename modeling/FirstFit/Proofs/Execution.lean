/-
Operations as changes of memory, tracer and counters.

An operation runs its steps one after another, and each step may stop it.  Here the steps
are run where none of them stops: `run_bind_ok` passes from one to the next, and for every
part of an operation there is one lemma that gives the arena afterwards, its memory by the
functions on memories, with no step left in it.  The conditions are those under which the
checks succeed.  Later files reason about these arenas and never run a step again.
-/
import FirstFit.Arena.Allocate
import FirstFit.Arena.Release
import FirstFit.Proofs.Counting
import FirstFit.Proofs.Laid

namespace FirstFit

/-- The region depends on the settings and on where the memory is, and on nothing else. -/
theorem Arena.region_mk {τ : Type} {arena : Arena τ} {r : Region} (hr : arena.region = r)
    {memory : Memory} {tracer : τ} {stats : Stats} {journal : Array Event}
    (hstart : memory.start = arena.memory.start) (hsize : memory.size = arena.memory.size) :
    Arena.region ⟨arena.config, memory, tracer, stats, journal⟩ = r := by
  subst hr
  exact Region.within_congr hstart hsize

/-- The memory holds the cells, and the counters count them, after no more than so many steps. -/
structure Arena.Kept {τ : Type} (arena : Arena τ) (r : Region) (cells : List Cell) (steps : Nat) :
    Prop where
  region : arena.region = r
  tidy : r.Tidy arena.memory cells
  counts : arena.stats.Counts cells steps

/-- The token of the next block that is handed out, and the tracer afterwards. -/
def Arena.captured {τ : Type} [Tracer τ] (arena : Arena τ) : Option Token × τ :=
  if arena.config.capture then Tracer.capture arena.tracer else (none, arena.tracer)

/-- Every allocated cell was there before, with the token it has, or was handed out now, with
the token that was captured for it. -/
def Arena.KeepsTokens {τ : Type} [Tracer τ] (arena next : Arena τ) (r : Region)
    (cells after : List Cell) (answer : Option Nat) : Prop :=
  ∀ p ∈ Cells.place r.footprint 0 after, p.2.allocated = true →
    p ∈ Cells.place r.footprint 0 cells ∧
        (r.headerAt next.memory p.1).trace = (r.headerAt arena.memory p.1).trace ∨
      answer = some (r.payload p.1) ∧ (r.headerAt next.memory p.1).trace = arena.captured.1

/-- The tracer after a token, if there is one, was given back to it. -/
def Tracer.dropped {τ : Type} [Tracer τ] (tracer : τ) : Option Token → τ
  | none => tracer
  | some token => Tracer.discard tracer token

/-- The arena after the block at an offset was marked free. -/
def Arena.reclaimed {τ : Type} [Tracer τ] (arena : Arena τ) (r : Region) (offset : Nat) :
    Arena τ :=
  let h := r.headerAt arena.memory offset
  { arena with
    memory := r.setHeader arena.memory offset h.reclaimed
    tracer := Tracer.dropped arena.tracer h.trace
    stats := arena.stats.reclaimed h.size }

namespace Act

variable {τ α β : Type} {arena arena' : Arena τ} {r : Region}

/-! ### Single steps -/

/-- A step that succeeds is followed by the next one. -/
theorem run_bind_ok {x : Act τ α} {f : α → Act τ β} {a : α} (h : x.run arena = .ok a arena') :
    (x >>= f).run arena = (f a).run arena' := by
  rw [EStateM.run_bind, h]

/-- A step that stops keeps what follows from being done. -/
theorem run_bind_error {x : Act τ α} {f : α → Act τ β} {halt : Halt}
    (h : x.run arena = .error halt arena') : (x >>= f).run arena = .error halt arena' := by
  rw [EStateM.run_bind, h]

theorem run_bind_congr {x y : Act τ α} {f : α → Act τ β} (h : x.run arena = y.run arena') :
    (x >>= f).run arena = (y >>= f).run arena' := by
  rw [EStateM.run_bind, EStateM.run_bind, h]

/-- Steps that come to their end come to it one after the other. -/
theorem of_run_bind {x : Act τ α} {f : α → Act τ β} {b : β}
    (h : (x >>= f).run arena = .ok b arena') :
    ∃ a mid, x.run arena = .ok a mid ∧ (f a).run mid = .ok b arena' := by
  rw [EStateM.run_bind] at h
  split at h
  · next a mid hx => exact ⟨a, mid, hx, h⟩
  · cases h

/-- A change of the counters that succeeds is what its check gives. -/
theorem of_run_tally {change : Stats → Except Fault Stats} {u : Unit}
    (h : (tally change).run arena = .ok u arena') :
    ∃ stats, change arena.stats = .ok stats ∧ arena' = { arena with stats } := by
  cases hchange : change arena.stats with
  | error fault =>
    rw [run_tally_of_error hchange] at h
    cases h
  | ok stats =>
    rw [run_tally hchange] at h
    exact ⟨stats, rfl, (EStateM.Result.ok.inj h).2.symm⟩

theorem run_header_eq {offset : Nat} (hr : arena.region = r) (h : r.Admits offset) :
    (header offset).run arena = .ok (r.headerAt arena.memory offset) arena := by
  subst hr
  exact run_header h

theorem run_stamp_eq {offset : Nat} (new : Header) (hr : arena.region = r)
    (h : r.Admits offset) :
    (stamp offset new).run arena =
      .ok () { arena with memory := r.setHeader arena.memory offset new } := by
  subst hr
  exact run_stamp new h

theorem run_amend_eq {offset : Nat} {change : Header → Header} (new : Header)
    (hr : arena.region = r) (h : r.Admits offset)
    (hchange : change (r.headerAt arena.memory offset) = new) :
    (amend offset change).run arena =
      .ok () { arena with memory := r.setHeader arena.memory offset new } := by
  subst hr hchange
  exact run_amend change h

theorem run_erase_eq {offset : Nat} (hr : arena.region = r) (h : r.Admits offset) :
    (erase offset).run arena = .ok () { arena with memory := r.wipe arena.memory offset } := by
  subst hr
  exact run_erase h

/-- What follows after the back link of a neighbour, if there is one, was set. -/
theorem run_relink {link : Link} {prev : Nat} {f : Unit → Act τ β} (hr : arena.region = r)
    (h : ∀ n ∈ link, r.Admits n) :
    (match link with
      | some next => (amend next fun h => { h with prev := some prev }) >>= f
      | _ => f ()).run arena =
      (f ()).run { arena with memory := r.relink arena.memory link prev } := by
  cases link with
  | none => rfl
  | some next => exact run_bind_ok (run_amend_eq _ hr (h next rfl) rfl)

/-! ### Parts of an allocation -/

theorem run_split {b : Block} {length : Nat} (hr : arena.region = r)
    (hlies : r.Lies arena.memory) (hblock : r.Admits b.offset)
    (hrest : r.Admits (b.offset + r.footprint + length)) (hnext : ∀ n ∈ b.header.next, r.Admits n) :
    (split b length).run arena = .ok () { arena with
      memory := r.cut arena.memory b length
      journal := arena.journal.push (.split b.offset (b.offset + r.footprint + length)) } := by
  have hcapacity := hlies.capacity_lt
  have hroom := (hlies.admits_iff.mp hrest).2
  have hsum := Word.add_bind_add (show b.offset + r.footprint + length < 2 ^ 64 by omega)
  unfold split
  rw [run_bind_ok (EStateM.run_get _), hr]
  simp only [hsum]
  rw [run_bind_ok (run_checked_ok _), run_bind_ok (run_stamp_eq _ hr hrest)]
  refine (run_relink (Arena.region_mk hr (by simp) (by simp)) hnext).trans ?_
  rw [run_bind_ok (run_amend_eq _ (Arena.region_mk hr (by simp) (by simp)) hblock rfl)]
  rfl

theorem run_capture [Tracer τ] :
    capture.run arena = .ok arena.captured.1 { arena with tracer := arena.captured.2 } := by
  unfold capture Arena.captured
  rw [run_bind_ok (EStateM.run_get _)]
  cases arena.config.capture <;> rfl

theorem run_grant_tallies [Tracer τ] {offset : Nat} (hr : arena.region = r)
    (hlies : r.Lies arena.memory) (hadmits : r.Admits offset) :
    (grant offset).run arena = EStateM.run (do
      tally (Stats.addUsed (r.headerAt arena.memory offset).size)
      tally Stats.addLive
      tally Stats.addAlloc
      tally fun s => .ok s.raisePeaks
      return (r.headerAt arena.memory offset).size) { arena with
      memory := r.setHeader arena.memory offset
        ((r.headerAt arena.memory offset).granted arena.captured.1)
      tracer := arena.captured.2 } := by
  have hroom := (hlies.admits_iff.mp hadmits).2
  -- The size is read after the header was written, and is still the same.
  have hread : r.headerAt (r.setHeader arena.memory offset
      ((r.headerAt arena.memory offset).granted arena.captured.1)) offset =
      (r.headerAt arena.memory offset).granted arena.captured.1 :=
    Region.headerAt_setHeader hlies hroom (Region.fits_headerAt.granted _)
  unfold grant
  rw [run_bind_ok run_capture,
    run_bind_ok (run_amend_eq ((r.headerAt arena.memory offset).granted arena.captured.1)
      (Arena.region_mk hr rfl rfl) hadmits rfl),
    run_bind_ok (run_header_eq (Arena.region_mk hr (by simp) (by simp)) hadmits)]
  dsimp only
  rw [hread, Header.size_granted]

theorem run_grant [Tracer τ] {offset : Nat} (hr : arena.region = r) (hlies : r.Lies arena.memory)
    (hadmits : r.Admits offset)
    (hused : arena.stats.used + (r.headerAt arena.memory offset).size < 2 ^ 64)
    (hlive : arena.stats.live + 1 < 2 ^ 64) (hallocs : arena.stats.allocs + 1 < 2 ^ 64) :
    (grant offset).run arena = .ok (r.headerAt arena.memory offset).size { arena with
      memory := r.setHeader arena.memory offset
        ((r.headerAt arena.memory offset).granted arena.captured.1)
      tracer := arena.captured.2
      stats := arena.stats.granted (r.headerAt arena.memory offset).size } := by
  rw [run_grant_tallies hr hlies hadmits,
    run_bind_ok (run_tally (Stats.addUsed_eq (by exact hused))),
    run_bind_ok (run_tally (Stats.addLive_eq (by exact hlive))),
    run_bind_ok (run_tally (Stats.addAlloc_eq (by exact hallocs)))]
  rfl

/-- A block that is handed out is counted, so the count of all of them is a word. -/
theorem allocs_lt_of_run_grant [Tracer τ] {offset size : Nat}
    (hrun : (grant offset).run arena = .ok size arena') (hr : arena.region = r)
    (hlies : r.Lies arena.memory) (hadmits : r.Admits offset) :
    arena.stats.allocs + 1 < 2 ^ 64 := by
  rw [run_grant_tallies hr hlies hadmits] at hrun
  obtain ⟨_, _, hused, hrun⟩ := of_run_bind hrun
  obtain ⟨_, _, hlive, hrun⟩ := of_run_bind hrun
  obtain ⟨_, _, hallocs, -⟩ := of_run_bind hrun
  obtain ⟨_, husedSum, rfl⟩ := of_run_tally hused
  obtain ⟨_, hliveSum, rfl⟩ := of_run_tally hlive
  obtain ⟨_, hallocsSum, -⟩ := of_run_tally hallocs
  obtain ⟨-, rfl⟩ := Stats.raised_eq_ok_iff.mp husedSum
  obtain ⟨-, rfl⟩ := Stats.raised_eq_ok_iff.mp hliveSum
  exact (Stats.raised_eq_ok_iff.mp hallocsSum).1

theorem run_verify (hr : arena.region = r) (h : (Walk.through r arena.memory).verdict = .ok ()) :
    verify.run arena = .ok () arena := by
  subst hr
  unfold verify
  rw [run_bind_ok (EStateM.run_get _), Arena.verify, Arena.walk, h]
  rfl

/-- What follows a check of the chain, if one is made and finds nothing. -/
theorem run_verify_if {check : Bool} {rest : Act τ β} (hr : arena.region = r)
    (h : (Walk.through r arena.memory).verdict = .ok ()) :
    (if check = true then verify >>= fun _ => rest else rest).run arena = rest.run arena := by
  cases check with
  | false => rfl
  | true => exact run_bind_ok (run_verify hr h)

/-! ### Parts of a release -/

theorem run_discard [Tracer τ] (token : Option Token) :
    (discard token).run arena =
      .ok () { arena with tracer := Tracer.dropped arena.tracer token } := by
  cases token <;> rfl

theorem run_reclaim [Tracer τ] {offset : Nat} (hr : arena.region = r)
    (hadmits : r.Admits offset)
    (hused : (r.headerAt arena.memory offset).size ≤ arena.stats.used)
    (hlive : 1 ≤ arena.stats.live) (hreleases : arena.stats.releases + 1 < 2 ^ 64) :
    (reclaim offset (r.headerAt arena.memory offset)).run arena =
      .ok () (arena.reclaimed r offset) := by
  unfold reclaim
  rw [run_bind_ok (run_amend_eq (r.headerAt arena.memory offset).reclaimed hr hadmits (by rfl)),
    run_bind_ok (run_discard _), run_bind_ok (run_tally (Stats.dropUsed_eq (by exact hused))),
    run_bind_ok (run_tally (Stats.dropLive_eq (by exact hlive))),
    run_tally (Stats.addRelease_eq (by exact hreleases))]
  rfl

/-- Absorbing a block that has no token changes memory and journal. -/
theorem run_absorb [Tracer τ] {into victim : Nat} (hr : arena.region = r)
    (hinto : r.Admits into) (hvictim : r.Admits victim)
    (hnext : ∀ n ∈ (r.headerAt arena.memory victim).next, r.Admits n)
    (hsize : (r.headerAt arena.memory into).size +
      (r.footprint + (r.headerAt arena.memory victim).size) < 2 ^ 64)
    (htrace : (r.headerAt arena.memory victim).trace = none) :
    (absorb into victim).run arena = .ok () { arena with
      memory := r.absorb arena.memory into victim
      journal := arena.journal.push (.merged victim into) } := by
  have hsum := Word.bind_add_add hsize
  unfold absorb
  rw [run_bind_ok (run_header_eq hr hvictim), run_bind_ok (run_header_eq hr hinto),
    run_bind_ok (EStateM.run_get _), hr]
  simp only [hsum]
  rw [run_bind_ok (run_checked_ok _), run_bind_ok (run_amend_eq _ hr hinto rfl)]
  refine (run_relink (Arena.region_mk hr (by simp) (by simp)) hnext).trans ?_
  rw [htrace, run_bind_ok (run_discard _),
    run_bind_ok (run_erase_eq (Arena.region_mk hr (by simp) (by simp)) hvictim)]
  rfl

/-- A neighbour is looked at through its header; only a free one is told. -/
theorem run_freeNeighbour {link : Link} (hr : arena.region = r)
    (h : ∀ n ∈ link, r.Admits n ∧ (r.headerAt arena.memory n).Intact) :
    (freeNeighbour link).run arena =
      .ok (link.filter fun n => (r.headerAt arena.memory n).isFree) arena := by
  cases link with
  | none => rfl
  | some n =>
    obtain ⟨hadmits, hintact⟩ := h n rfl
    unfold freeNeighbour
    rw [run_bind_ok (run_header_eq hr hadmits)]
    rw [Header.intact_iff.mp hintact, Option.filter_some]
    rfl

theorem run_allocatedAt_foreign {address : Nat} (hr : arena.region = r)
    (hforeign : address < r.payload 0 ∨ r.base + r.capacity < address ∨
      ¬ r.Admits (address - r.payload 0)) :
    (allocatedAt address).run arena = .error (.corrupt (.foreignPointer address)) arena := by
  unfold allocatedAt
  rw [run_bind_ok (EStateM.run_get _), hr]
  by_cases hrange : address < r.payload 0 ∨ r.base + r.capacity < address
  · simp only [hrange, if_true]
    rfl
  · have hadmits : ¬ r.Admits (address - r.payload 0) := by tauto
    simp only [hrange, hadmits, if_false]
    rfl

/-- Where a header could be, all depends on what is read as one. -/
theorem run_allocatedAt_payload {offset : Nat} (hr : arena.region = r) (hadmits : r.Admits offset)
    (hle : offset + r.footprint ≤ r.capacity) :
    (allocatedAt (r.payload offset)).run arena =
      match (r.headerAt arena.memory offset).check? offset with
      | some cause => .error (.corrupt cause) arena
      | none =>
        if (r.headerAt arena.memory offset).isFree then
          .error (.corrupt (.doubleRelease (r.payload offset))) arena
        else .ok (offset, r.headerAt arena.memory offset) arena := by
  have hrange : ¬ (r.payload offset < r.payload 0 ∨ r.base + r.capacity < r.payload offset) := by
    unfold Region.payload
    omega
  have hoffset : r.payload offset - r.payload 0 = offset := by
    unfold Region.payload
    omega
  unfold allocatedAt
  rw [run_bind_ok (EStateM.run_get _), hr]
  simp only [hrange, if_false, hoffset, hadmits, if_true]
  rw [run_bind_ok (run_header_eq hr hadmits)]
  cases (r.headerAt arena.memory offset).check? offset with
  | some cause => rfl
  | none => cases (r.headerAt arena.memory offset).isFree <;> rfl

theorem run_allocatedAt {address offset : Nat} (hr : arena.region = r)
    (haddress : address = r.payload offset) (hadmits : r.Admits offset)
    (hle : offset + r.footprint ≤ r.capacity) (hintact : (r.headerAt arena.memory offset).Intact)
    (hallocated : (r.headerAt arena.memory offset).isFree = false) :
    (allocatedAt address).run arena =
      .ok (offset, r.headerAt arena.memory offset) arena := by
  rw [haddress, run_allocatedAt_payload hr hadmits hle, Header.intact_iff.mp hintact, hallocated]
  rfl

end Act

end FirstFit
