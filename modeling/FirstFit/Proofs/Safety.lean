/-
Operations on memory that nobody vouches for.

Whatever the bytes of an arena are, an operation may notice damage and stop.  What it must not
do is fail a check on itself, because such a check is made where nonsense is about to be
computed or written.  `Act.Safe` says that it does not, and what holds where it comes to its
end; `Act.Mimics` says so of two operations at once that do the same.  Both pass along a
sequence of steps, so an operation is looked at step by step.

Nothing is known of a header here but where it is: the offsets that are looked at must be ones
that can have a header, and the step that finds they are not reports damage.
-/
import FirstFit.Proofs.Execution

namespace FirstFit

/-- At an offset there is a sound header, of a free block or of an allocated one. -/
structure Region.Shows (r : Region) (m : Memory) (offset : Nat) (free : Bool) : Prop where
  admits : r.Admits offset
  intact : (r.headerAt m offset).Intact
  isFree : (r.headerAt m offset).isFree = free

namespace Act

variable {τ α β : Type} {arena arena' mid : Arena τ} {r : Region} {x y : Act τ α}
  {f g : α → Act τ β} {P : α → Arena τ → Prop} {Q : β → Arena τ → Prop} {a : α}

/-- An operation ends with what is asked of it or over damage, and not over a fault. -/
def Safe (x : Act τ α) (arena : Arena τ) (P : α → Arena τ → Prop) : Prop :=
  match x.run arena with
  | .ok a next => P a next
  | .error (.corrupt _) _ => True
  | .error (.fault _) _ => False

/-- An operation does the same as another one, which is safe. -/
structure Mimics (x y : Act τ α) (arena : Arena τ) (P : α → Arena τ → Prop) : Prop where
  same : x.run arena = y.run arena
  safe : y.Safe arena P

/-! ### One step after another -/

theorem safe_of_run_ok (h : x.run arena = .ok a arena') (hp : P a arena') : x.Safe arena P := by
  unfold Safe
  rw [h]
  exact hp

theorem safe_of_run_corrupt {c : Corruption} (h : x.run arena = .error (.corrupt c) arena') :
    x.Safe arena P := by
  unfold Safe
  rw [h]
  trivial

theorem not_safe_of_run_fault {fault : Fault} (h : x.run arena = .error (.fault fault) arena') :
    ¬ x.Safe arena P := by
  unfold Safe
  rw [h]
  exact not_false

theorem Safe.of_run_ok (h : x.Safe arena P) (hrun : x.run arena = .ok a arena') : P a arena' := by
  unfold Safe at h
  rw [hrun] at h
  exact h

theorem Safe.mono {P' : α → Arena τ → Prop} (h : x.Safe arena P)
    (himp : ∀ a next, P a next → P' a next) : x.Safe arena P' := by
  unfold Safe at h ⊢
  split at h
  · exact himp _ _ h
  · trivial
  · exact h

/-- Operations that are run as one are safe as one. -/
theorem safe_congr (h : x.run arena = y.run arena') (hy : y.Safe arena' P) : x.Safe arena P := by
  unfold Safe at hy ⊢
  rw [h]
  exact hy

theorem safe_bind_ok (h : x.run arena = .ok a mid) (hf : (f a).Safe mid Q) :
    (x >>= f).Safe arena Q := safe_congr (run_bind_ok h) hf

theorem Mimics.bind (h : Mimics x y arena P)
    (hf : ∀ a next, P a next → Mimics (f a) (g a) next Q) : Mimics (x >>= f) (y >>= g) arena Q := by
  obtain ⟨hsame, hsafe⟩ := h
  unfold Safe at hsafe
  split at hsafe
  · next a next hrun =>
    obtain ⟨hsame', hsafe'⟩ := hf a next hsafe
    exact ⟨(run_bind_ok (hsame.trans hrun)).trans (hsame'.trans (run_bind_ok hrun).symm),
      safe_bind_ok hrun hsafe'⟩
  · next c next hrun =>
    exact ⟨(run_bind_error (hsame.trans hrun)).trans (run_bind_error hrun).symm,
      safe_of_run_corrupt (run_bind_error hrun)⟩
  · exact hsafe.elim

theorem Safe.mimics (h : x.Safe arena P) : Mimics x x arena P := ⟨rfl, h⟩

theorem Safe.bind (h : x.Safe arena P) (hf : ∀ a next, P a next → (f a).Safe next Q) :
    (x >>= f).Safe arena Q := (h.mimics.bind fun a next ha => (hf a next ha).mimics).safe

theorem Mimics.bind_ok (h : x.run arena = .ok a mid) (hf : Mimics (f a) (g a) mid Q) :
    Mimics (x >>= f) (x >>= g) arena Q :=
  ⟨(run_bind_ok h).trans (hf.same.trans (run_bind_ok h).symm), safe_bind_ok h hf.safe⟩

/-! ### Single steps -/

theorem safe_header {offset : Nat} (hr : arena.region = r) :
    (header offset).Safe arena fun h next =>
      next = arena ∧ r.Admits offset ∧ h = r.headerAt arena.memory offset := by
  by_cases hadmits : r.Admits offset
  · exact safe_of_run_ok (run_header_eq hr hadmits) ⟨rfl, hadmits, rfl⟩
  · exact safe_of_run_corrupt (run_header_of_not_admits (hr ▸ hadmits))

/-- Setting the back link of a neighbour is where a link that leads nowhere is noticed. -/
theorem safe_relink {link : Link} {prev : Nat} {f : Unit → Act τ β} (hr : arena.region = r)
    (hf : (∀ n ∈ link, r.Admits n) →
      (f ()).Safe { arena with memory := r.relink arena.memory link prev } Q) :
    Safe (match link with
      | some next => (amend next fun h => { h with prev := some prev }) >>= f
      | _ => f ()) arena Q := by
  by_cases hlink : ∀ n ∈ link, r.Admits n
  · exact safe_congr (run_relink hr hlink) (hf hlink)
  · cases link with
    | none => simp at hlink
    | some next =>
      have hadmits : ¬ r.Admits next := by simpa using hlink
      exact safe_of_run_corrupt (run_bind_error (run_amend_of_not_admits _ (hr ▸ hadmits)))

/-- A walk along the chain computes nothing that could fail. -/
theorem safe_verify : verify.Safe arena fun _ next => next = arena := by
  have hrun : verify.run arena = (sound arena.verify).run arena := run_bind_ok (EStateM.run_get _)
  refine safe_congr hrun ?_
  cases arena.verify with
  | ok u => exact safe_of_run_ok (run_sound_ok u) rfl
  | error c => exact safe_of_run_corrupt (run_sound_error c)

/-! ### Parts of an allocation -/

/-- A block can be cut where there is room for the header of what is cut off. -/
theorem safe_split {b : Block} {length : Nat} (hr : arena.region = r)
    (hlies : r.Lies arena.memory) (hblock : r.Admits b.offset)
    (hrest : r.Admits (b.offset + r.footprint + length)) :
    (split b length).Safe arena fun _ next => ∃ journal,
      next = { arena with memory := r.cut arena.memory b length, journal } := by
  have hcapacity := hlies.capacity_lt
  have hroom := (hlies.admits_iff.mp hrest).2
  have hsum := Word.add_bind_add (show b.offset + r.footprint + length < 2 ^ 64 by omega)
  unfold split
  refine safe_bind_ok (EStateM.run_get _) ?_
  rw [hr]
  simp only [hsum]
  refine safe_bind_ok (run_checked_ok _) (safe_bind_ok (run_stamp_eq _ hr hrest) ?_)
  refine safe_relink (Arena.region_mk hr (by simp) (by simp)) fun _ => ?_
  refine safe_bind_ok (run_amend_eq _ (Arena.region_mk hr (by simp) (by simp)) hblock rfl) ?_
  exact safe_of_run_ok (run_note _) ⟨_, rfl⟩

/-! ### Parts of a release -/

/-- A neighbour is told if it shows a free block, wherever it is. -/
theorem safe_freeNeighbour {link : Link} (hr : arena.region = r) :
    (freeNeighbour link).Safe arena fun found next =>
      next = arena ∧ (∀ q ∈ found, q ∈ link) ∧
        ∀ q ∈ link, r.Shows arena.memory q found.isSome := by
  cases link with
  | none => exact safe_of_run_ok rfl ⟨rfl, by simp, by simp⟩
  | some q =>
    unfold freeNeighbour
    refine (safe_header hr).bind fun h next hh => ?_
    obtain ⟨rfl, hadmits, rfl⟩ := hh
    cases hcheck : (r.headerAt next.memory q).check? q with
    | some cause => exact safe_of_run_corrupt rfl
    | none =>
      have hintact := Header.intact_iff.mpr hcheck
      refine safe_of_run_ok rfl ⟨rfl, ?_, ?_⟩
      · intro p hp
        split at hp
        · exact hp
        · cases hp
      · intro p hp
        obtain rfl : q = p := Option.some.inj hp
        refine ⟨hadmits, hintact, ?_⟩
        cases (r.headerAt next.memory q).isFree <;> rfl

theorem run_freeNeighbour_shows {offset : Nat} {free : Bool} (hr : arena.region = r)
    (h : r.Shows arena.memory offset free) :
    (freeNeighbour (some offset)).run arena = .ok (if free then some offset else none) arena := by
  rw [run_freeNeighbour hr fun n hn => by
    obtain rfl : offset = n := Option.some.inj hn
    exact ⟨h.admits, h.intact⟩, Option.filter_some, h.isFree]

/-- A pointer is taken for that of the block it is the payload of, if there is an allocated one. -/
theorem safe_allocatedAt {address : Nat} (hr : arena.region = r) (hlies : r.Lies arena.memory) :
    (allocatedAt address).Safe arena fun found next =>
      next = arena ∧ address = r.payload found.1 ∧ found.2 = r.headerAt arena.memory found.1 ∧
        r.Shows arena.memory found.1 false := by
  by_cases hforeign : address < r.payload 0 ∨ r.base + r.capacity < address ∨
      ¬ r.Admits (address - r.payload 0)
  · exact safe_of_run_corrupt (run_allocatedAt_foreign hr hforeign)
  simp only [not_or, not_not, Nat.not_lt] at hforeign
  obtain ⟨hlow, -, hadmits⟩ := hforeign
  obtain ⟨offset, rfl⟩ := Region.exists_payload hlow
  rw [Region.payload_sub_payload] at hadmits
  have hrun := run_allocatedAt_payload hr hadmits (hlies.admits_iff.mp hadmits).2
  cases hcheck : (r.headerAt arena.memory offset).check? offset with
  | some cause =>
    rw [hcheck] at hrun
    exact safe_of_run_corrupt hrun
  | none =>
    rw [hcheck] at hrun
    cases hfree : (r.headerAt arena.memory offset).isFree with
    | true =>
      rw [hfree] at hrun
      exact safe_of_run_corrupt hrun
    | false =>
      rw [hfree] at hrun
      exact safe_of_run_ok hrun ⟨rfl, rfl, rfl, hadmits, Header.intact_iff.mpr hcheck, hfree⟩

/-- Two headers can become one if the size of the block is still a word. -/
theorem safe_absorb [Tracer τ] {into victim : Nat} (hr : arena.region = r)
    (hinto : r.Admits into) (hvictim : r.Admits victim)
    (hsize : (r.headerAt arena.memory into).size +
      (r.footprint + (r.headerAt arena.memory victim).size) < 2 ^ 64) :
    (absorb into victim).Safe arena fun _ next =>
      (∀ n ∈ (r.headerAt arena.memory victim).next, r.Admits n) ∧ ∃ tracer journal,
        next = { arena with memory := r.absorb arena.memory into victim, tracer, journal } := by
  have hsum := Word.bind_add_add hsize
  unfold absorb
  refine safe_bind_ok (run_header_eq hr hvictim) (safe_bind_ok (run_header_eq hr hinto)
    (safe_bind_ok (EStateM.run_get _) ?_))
  rw [hr]
  simp only [hsum]
  refine safe_bind_ok (run_checked_ok _) (safe_bind_ok (run_amend_eq _ hr hinto rfl) ?_)
  refine safe_relink (Arena.region_mk hr (by simp) (by simp)) fun hnext => ?_
  refine safe_bind_ok (run_discard _) (safe_bind_ok
    (run_erase_eq (Arena.region_mk hr (by simp) (by simp)) hvictim) ?_)
  exact safe_of_run_ok (run_note _) ⟨hnext, _, _, rfl⟩

end Act

end FirstFit
