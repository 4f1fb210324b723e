/-
Which addresses can be given back.

An address that is given back is taken at its word: what lies before it is read as a header,
whatever it is.  Nothing passes for a header that is none, if only nobody has written the
leading canary where no header is.  What a client wrote could look like it, and so could a
token, since an arena has no say in them (`Arena.Undisguised`).  But no other word of a
header does: it is a multiple of a unit, or a flag, or no link, or the trailing canary
(`Header.Describes.word_ne`).  So not even a look into the middle of a header finds one, and
where headers were there is nothing left of them.

`Arena.refusal` says what is wrong with an address that is not accepted.
-/
import FirstFit.Proofs.Residue

namespace FirstFit

/-! ### Words that are no canary -/

namespace Header

/-- A multiple of eight is not the leading canary, which is odd. -/
theorem toNat_ofNat_ne {n : Nat} (h : 8 ∣ n) : (UInt64.ofNat n).toNat ≠ leadingCanary := by
  rw [UInt64.toNat_ofNat']
  unfold leadingCanary
  omega

theorem toNat_link_ne {l : Link} (h : ∀ o ∈ l, 8 ∣ o) :
    (UInt64.ofNat (Link.toNat l)).toNat ≠ leadingCanary := by
  cases l with
  | none => decide
  | some o => exact toNat_ofNat_ne (h o rfl)

/-- **No word of a header but the first looks like the first word of one.** -/
theorem Describes.word_ne {h : Header} {c : Cell} {prev next : Link}
    (hd : h.Describes c prev next) (hsize : 8 ∣ c.size) (hprev : ∀ o ∈ prev, 8 ∣ o)
    (hnext : ∀ o ∈ next, 8 ∣ o) (htrace : ∀ t ∈ h.trace, t.toNat ≠ leadingCanary) {field : Field}
    (hfield : field ≠ .leading) : (h.toWord field).toNat ≠ leadingCanary := by
  cases field with
  | leading => exact absurd rfl hfield
  | size =>
    rw [toWord, hd.size]
    exact toNat_ofNat_ne hsize
  | flag =>
    rw [toWord, hd.flag]
    cases c.allocated <;> decide
  | prev =>
    rw [toWord, hd.prev]
    exact toNat_link_ne hprev
  | next =>
    rw [toWord, hd.next]
    exact toNat_link_ne hnext
  | trace =>
    rw [toWord]
    cases ht : h.trace with
    | none => decide
    | some t => exact htrace t ht
  | trailing =>
    rw [toWord, hd.trailing]
    decide

end Header

namespace Arena

open Cells

variable {τ : Type} {arena first last : Arena τ} {r : Region} {cells : List Cell} {steps : Nat}
  {P : Token → Prop}

/-- Every token in a header of the chain has a property. -/
def Traced (arena : Arena τ) (P : Token → Prop) : Prop :=
  ∀ b ∈ arena.blocks, ∀ t ∈ b.header.trace, P t

/-- Nothing in the region looks like the start of a header that is none. -/
structure Undisguised (arena : Arena τ) : Prop where
  /-- No word in no header is a leading canary. -/
  words : ∀ k, 8 * k + 8 ≤ arena.region.capacity →
    (∀ b ∈ arena.blocks, ¬ arena.region.InWords b.offset (arena.region.base + 8 * k)) →
    (arena.memory.word (arena.region.base + 8 * k)).toNat ≠ Header.leadingCanary
  /-- No token is one. -/
  tokens : arena.Traced fun t => t.toNat ≠ Header.leadingCanary

theorem Kept.describes_aligned (h : arena.Kept r cells steps) {p : Nat × Cell}
    (hp : p ∈ place r.footprint 0 cells) :
    ∃ prev next, (r.headerAt arena.memory p.1).Describes p.2 prev next ∧
      (∀ o ∈ prev, r.unit.bytes ∣ o) ∧ ∀ o ∈ next, r.unit.bytes ∣ o := by
  obtain ⟨pre, post, rfl, hplace⟩ := mem_place_iff.mp hp
  rw [Nat.zero_add] at hplace
  obtain ⟨-, hdescribes, -⟩ := h.tidy.at_middle
  rw [← hplace] at hdescribes
  refine ⟨_, _, hdescribes, ?_, ?_⟩
  · intro o ho
    rcases List.eq_nil_or_concat pre with rfl | ⟨front, a, rfl⟩
    · cases ho
    · rw [List.concat_eq_append, behind_concat, Nat.zero_add, Option.mem_some_iff] at ho
      subst ho
      refine (h.tidy.place_fits (p := (extent r.footprint front, a)) (mem_place_iff.mpr ?_)).1
      exact ⟨front, p.2 :: post, by simp, by simp⟩
  · intro o ho
    obtain ⟨rfl, -⟩ := Region.Laid.of_linkTo ho
    have hsize := h.tidy.aligned p.2 (mem_of_mem_place hp)
    exact Nat.dvd_add (Nat.dvd_add (h.tidy.place_fits hp).1 r.dvd_footprint) hsize

/-- **What is read as a header where none is has no leading canary.** -/
theorem Kept.leading_ne (h : arena.Kept r cells steps) (hundisguised : arena.Undisguised)
    {o : Nat} (hdvd : r.unit.bytes ∣ o) (hroom : o + r.footprint ≤ r.capacity)
    (ho : o ∉ offsets r.footprint cells) :
    (r.headerAt arena.memory o).leading ≠ Header.leadingCanary := by
  have hword := r.unit.word_dvd
  have hbytes := r.byteCount_le_footprint
  unfold Header.byteCount at hbytes
  show (arena.memory.word (r.base + o)).toNat ≠ _
  by_cases hin : ∃ o' ∈ offsets r.footprint cells, r.InWords o' (r.base + o)
  · -- The address is in the middle of a header, where one of its other words starts.
    obtain ⟨o', ho', hlow, hhigh⟩ := hin
    obtain ⟨c, hc⟩ := mem_offsets.mp ho'
    obtain ⟨prev, next, hdescribes, hprev, hnext⟩ := h.describes_aligned hc
    have hdvd' := (h.tidy.place_fits hc).1
    obtain ⟨field, hposition⟩ := Header.Field.exists_position_eq (i := o - o') (by omega)
      (Nat.dvd_sub (hword.trans hdvd) (hword.trans hdvd'))
    have hoffset : o = o' + field.position := by omega
    have hne : field ≠ .leading := by
      rintro rfl
      rw [hoffset] at ho
      exact ho ho'
    rw [hoffset, ← Nat.add_assoc, ← Memory.toWord_header]
    refine hdescribes.word_ne (hword.trans (h.tidy.aligned c (mem_of_mem_place hc)))
      (fun o ho => hword.trans (hprev o ho)) (fun o ho => hword.trans (hnext o ho)) ?_ hne
    exact hundisguised.tokens _ (h.mem_blocks_iff.mpr ⟨_, hc, rfl⟩)
  · obtain ⟨k, rfl⟩ := hword.trans hdvd
    have hout := h.not_inWords_iff.mpr fun o' ho' hin' => hin ⟨o', ho', hin'⟩
    have hwords := hundisguised.words k
    rw [h.region] at hwords hout
    exact hwords (by omega) hout

theorem Kept.traced_iff (h : arena.Kept r cells steps) :
    arena.Traced P ↔ ∀ p ∈ place r.footprint 0 cells, p.2.allocated = true →
      ∀ t ∈ (r.headerAt arena.memory p.1).trace, P t := by
  constructor
  · intro htraced p hp _ t ht
    exact htraced _ (h.mem_blocks_iff.mpr ⟨p, hp, rfl⟩) t ht
  · intro htraced b hb t ht
    obtain ⟨p, hp, rfl⟩ := h.mem_blocks_iff.mp hb
    by_cases hallocated : p.2.allocated = true
    · exact htraced p hp hallocated t ht
    · obtain ⟨_, hdescribes⟩ := h.tidy.held.describes hp
      rw [Bool.not_eq_true] at hallocated
      have hnone := hdescribes.untraced hallocated
      simp only at ht
      rw [hnone] at ht
      cases ht

/-! ### Refusals -/

/-- What is wrong with an address that is given back and is not that of a live payload. -/
def refusal (arena : Arena τ) (address : Nat) : Corruption :=
  if address < arena.region.payload 0 ∨ arena.region.base + arena.region.capacity < address ∨
      ¬ arena.region.unit.bytes ∣ address - arena.region.base then
    .foreignPointer address
  else if ∃ b ∈ arena.blocks, b.isFree = true ∧ address = arena.region.payload b.offset then
    .doubleRelease address
  else
    .leadingCanary (address - arena.region.payload 0)

theorem Kept.exists_free_iff (h : arena.Kept r cells steps) {address : Nat} :
    (∃ b ∈ arena.blocks, b.isFree = true ∧ address = r.payload b.offset) ↔
      ∃ p ∈ place r.footprint 0 cells, p.2.allocated = false ∧ address = r.payload p.1 := by
  rw [← h.lists]
  simp

theorem Kept.run_allocatedAt_dead (h : arena.Kept r cells steps)
    (hundisguised : arena.Undisguised) {offset : Nat} (hadmits : r.Admits offset)
    (hdead : ∀ b, ¬ arena.Live b (r.payload offset)) :
    (Act.allocatedAt (r.payload offset)).run arena =
      .error (.corrupt (arena.refusal (r.payload offset))) arena := by
  have hlies := h.tidy.lies
  obtain ⟨hdvd, hroom⟩ := hlies.admits_iff.mp hadmits
  unfold refusal
  rw [h.region, if_neg (hlies.inside_iff.mpr hadmits),
    Act.run_allocatedAt_payload h.region hadmits hroom, Region.payload_sub_payload]
  by_cases ho : offset ∈ offsets r.footprint cells
  · obtain ⟨c, hc⟩ := mem_offsets.mp ho
    obtain ⟨_, hdescribes⟩ := h.tidy.held.describes hc
    have hfree : c.allocated = false := by
      by_contra hallocated
      rw [Bool.not_eq_false] at hallocated
      exact hdead _ (h.live_iff.mpr ⟨_, hc, hallocated, rfl, rfl⟩)
    rw [if_pos (h.exists_free_iff.mpr ⟨_, hc, hfree, rfl⟩), hdescribes.check?, hdescribes.isFree,
      hfree]
    rfl
  · have hnone : ¬ ∃ b ∈ arena.blocks, b.isFree = true ∧ r.payload offset = r.payload b.offset := by
      intro hblock
      obtain ⟨b, hb, -, hpayload⟩ := hblock
      refine ho (h.mem_offsets_iff.mpr ⟨b, hb, ?_⟩)
      unfold Region.payload at hpayload
      omega
    have hcheck : (r.headerAt arena.memory offset).check? offset = some (.leadingCanary offset) :=
      if_pos (h.leading_ne hundisguised hdvd hroom ho)
    rw [if_neg hnone, hcheck]

variable [Tracer τ]

/-- **An address that is not that of a live payload is refused, and nothing is changed.** -/
theorem Kept.run_release_refused (h : arena.Kept r cells steps)
    (hundisguised : arena.Undisguised) {address : Nat} (hne : address ≠ 0)
    (hdead : ∀ b, ¬ arena.Live b address) :
    (release address).run arena = .error (.corrupt (arena.refusal address)) arena := by
  have hr := h.region
  have hlies := h.tidy.lies
  suffices hrun : (Act.allocatedAt address).run arena =
      .error (.corrupt (arena.refusal address)) arena by
    unfold release
    rw [Act.run_bind_ok (EStateM.run_get _), if_neg (by rw [hr]; simp [hne, hlies.usable])]
    exact Act.run_bind_error hrun
  by_cases hlow : address < r.payload 0
  · rw [refusal, hr, if_pos (.inl hlow)]
    exact Act.run_allocatedAt_foreign hr (.inl hlow)
  obtain ⟨offset, rfl⟩ := Region.exists_payload (Nat.le_of_not_lt hlow)
  by_cases hadmits : r.Admits offset
  · exact h.run_allocatedAt_dead hundisguised hadmits hdead
  · have hforeign := not_not.mp (hlies.inside_iff.not.mpr hadmits)
    rw [refusal, hr, if_pos hforeign]
    refine Act.run_allocatedAt_foreign hr (hforeign.imp_right (Or.imp_right fun _ => ?_))
    rw [Region.payload_sub_payload]
    exact hadmits

theorem Kept.run_release_accepted (h : arena.Kept r cells steps)
    (hword : arena.stats.allocs < 2 ^ 64) {address : Nat}
    (haddress : address = 0 ∨ ∃ b, arena.Live b address) :
    ∃ next, (release address).run arena = .ok () next := by
  obtain ⟨next, _, hrun, -⟩ := (h.recount (Nat.le_refl _)).step_release hword haddress
  exact ⟨next, (run_step_release_iff.mp hrun).2⟩

/-! ### Tokens of a run -/

/-- A token was captured for a block that was handed out in a history. -/
def Captures (first : Arena τ) (history : List (Step × Option Nat)) (t : Token) : Prop :=
  ∃ before n address after mid, history = before ++ (.allocate n, some address) :: after ∧
    Runs first before mid ∧ mid.captured.1 = some t

theorem Follows.traced {next : Arena τ} {after : List Cell} {s : Step} {answer : Option Nat}
    (hfollows : arena.Follows next r cells after steps s answer) (h : arena.Kept r cells steps)
    (htraced : arena.Traced P)
    (hcaptured : answer ≠ none → ∀ t, arena.captured.1 = some t → P t) : next.Traced P := by
  rw [hfollows.kept.traced_iff]
  intro p hp hallocated t ht
  rcases hfollows.tokens p hp hallocated with ⟨hbefore, hsame⟩ | ⟨hanswer, hnew⟩
  · rw [hsame] at ht
    exact h.traced_iff.mp htraced p hbefore hallocated t ht
  · rw [hnew] at ht
    refine hcaptured ?_ t ht
    rw [hanswer]
    exact Option.some_ne_none _

theorem Runs.traced {history : List (Step × Option Nat)} (hruns : Runs first history last)
    (h : first.Kept r cells steps) (hword : first.stats.allocs < 2 ^ 64) (hfirst : first.Traced P)
    (hcaptured : ∀ t, first.Captures history t → P t) : last.Traced P := by
  induction hruns generalizing cells steps with
  | nil => exact hfirst
  | @cons arena mid last s answer rest hallows hstep hrest ih =>
    obtain ⟨after, hfollows, hword'⟩ := h.follows_of_run hword hallows hstep
    have hmid : mid.Traced P := by
      refine hfollows.traced h hfirst ?_
      intro hanswer t ht
      obtain ⟨address, rfl⟩ := Option.ne_none_iff_exists'.mp hanswer
      obtain ⟨n, rfl⟩ := exists_request hfollows.step
      exact hcaptured t ⟨[], n, address, rest, arena, rfl, .nil arena, ht⟩
    refine ih hfollows.kept hword' hmid ?_
    intro t hlater
    obtain ⟨before, n, address, later, granting, rfl, hbefore, ht⟩ := hlater
    exact hcaptured t ⟨(s, answer) :: before, n, address, later, granting, rfl,
      .cons hallows hstep hbefore, ht⟩

theorem Runs.undisguised {config : Config} {memory : Memory} {tracer : τ}
    {history : List (Step × Option Nat)} (hcreate : create config memory tracer = .ok first)
    (hruns : Runs first history last) (husable : first.region.Usable)
    (hwrites : ∀ x ∈ history, ∀ a, x.1.writes a = none)
    (hcaptured : ∀ t, first.Captures history t → t.toNat ≠ Header.leadingCanary) :
    last.Undisguised := by
  have hfirst := kept_create hcreate husable
  have hle := hfirst.counts.allocs_le
  refine ⟨?_, ?_⟩
  · intro k _ hout
    obtain ⟨cells, -, hkept, -⟩ := hruns.reaches hcreate husable
    have hzero : last.memory.word (last.region.base + 8 * k) = 0 := by
      apply Memory.word_eq_zero
      intro a hlow hhigh
      apply hruns.byteAt_eq_zero hcreate hwrites
      intro b hb hin
      refine hout b hb ?_
      -- Headers start at multiples of a word, so they have all of a word or nothing.
      have hdvd := first.region.unit.word_dvd.trans (hkept.block_facts hb).1
      unfold Region.InWords Header.byteCount at hin ⊢
      omega
    rw [hzero]
    decide
  · have hvacant : first.Traced fun t => t.toNat ≠ Header.leadingCanary := by
      refine hfirst.traced_iff.mpr fun p hp hallocated => ?_
      rw [List.mem_singleton.mp hp] at hallocated
      cases hallocated
    exact hruns.traced hfirst (by omega) hvacant hcaptured

/-- **An address can be given back exactly if it is that of a live payload, or none at all.**  Any
other is refused with what is wrong with it, and nothing is changed; this holds as long as
nothing looks like a header that is none.  For a client that writes nothing that is so, if
the tracer gives no token that looks like a canary. -/
theorem Runs.release_decides_live {config : Config} {memory : Memory} {tracer : τ}
    {history : List (Step × Option Nat)} (hcreate : create config memory tracer = .ok first)
    (hruns : Runs first history last) (husable : last.region.Usable) :
    (last.Undisguised → ∀ address,
      ((∃ next, (release address).run last = .ok () next) ↔
        address = 0 ∨ ∃ b, last.Live b address) ∧
      (¬ (address = 0 ∨ ∃ b, last.Live b address) →
        (release address).run last = .error (.corrupt (last.refusal address)) last)) ∧
    ((∀ x ∈ history, ∀ a, x.1.writes a = none) →
      (∀ t, first.Captures history t → t.toNat ≠ Header.leadingCanary) → last.Undisguised) := by
  have hfirst := hruns.usable husable
  obtain ⟨cells, -, hkept, hword⟩ := hruns.reaches hcreate hfirst
  refine ⟨?_, hruns.undisguised hcreate hfirst⟩
  intro hundisguised address
  have hrefused : ¬ (address = 0 ∨ ∃ b, last.Live b address) →
      (release address).run last = .error (.corrupt (last.refusal address)) last := by
    intro hnot
    obtain ⟨hne, hdead⟩ := not_or.mp hnot
    exact hkept.run_release_refused hundisguised hne (not_exists.mp hdead)
  refine ⟨⟨?_, hkept.run_release_accepted hword⟩, hrefused⟩
  intro hok
  by_contra hnot
  obtain ⟨next, hrun⟩ := hok
  rw [hrefused hnot] at hrun
  cases hrun

/-- The second of the refused addresses is that of a free block, the third has the middle of a
header before it, and the last is the end of the region. -/
theorem release_decides_live_sample :
    ∃ first last : Arena Silent, create {} sample ⟨⟩ = .ok first ∧
      Runs first [(.allocate 8, some 4152), (.allocate 8, some 4216), (.release 4152, none)] last ∧
      (∃ next, (release 4216).run last = .ok () next) ∧
      (release 4217).run last = .error (.corrupt (.foreignPointer 4217)) last ∧
      (release 4152).run last = .error (.corrupt (.doubleRelease 4152)) last ∧
      (release 4224).run last = .error (.corrupt (.leadingCanary 72)) last ∧
      (release 4296).run last = .error (.corrupt (.leadingCanary 144)) last := by
  obtain ⟨first, last, hcreate, -, hruns, hkept⟩ := @exists_sample_run
    [.allocate 8, .allocate 8, .release 4152]
    [some 4152, some 4216, none] [⟨8, false⟩, ⟨8, true⟩, ⟨16, false⟩] (by decide +kernel)
    (by decide)
  have husable : last.region.Usable := by
    rw [hkept.region]
    decide +kernel
  obtain ⟨hexact, hundisguised⟩ := Runs.release_decides_live hcreate hruns husable
  have hexact := hexact (hundisguised (by simp [Step.writes]) fun t hcaptured => by
    obtain ⟨_, _, _, _, mid, -, -, ht⟩ := hcaptured
    unfold captured at ht
    split at ht <;> cases ht)
  have hlive : last.Allows (.release 4216) := hkept.allows_iff.mpr (by decide +kernel)
  have hdead : ∀ a ∈ [4217, 4152, 4224, 4296], ¬ last.Allows (.release a) := by
    intro a ha
    rw [hkept.allows_iff]
    revert a
    decide +kernel
  have hforeign : last.refusal 4217 = .foreignPointer 4217 := by
    unfold refusal
    rw [hkept.region, if_pos (by decide +kernel)]
  have hfree : last.refusal 4152 = .doubleRelease 4152 := by
    unfold refusal
    rw [hkept.region, if_neg (by decide +kernel),
      if_pos (hkept.exists_free_iff.mpr (by decide +kernel))]
  have hstray : ∀ a ∈ [4224, 4296], last.refusal a = .leadingCanary (a - 4152) := by
    intro a ha
    have hpayload : (Region.within ({} : Config).unit sample).payload 0 = 4152 := by decide +kernel
    unfold refusal
    rw [hkept.region, if_neg (by revert a; decide +kernel),
      if_neg (mt hkept.exists_free_iff.mp (by revert a; decide +kernel)), hpayload]
  refine ⟨first, last, hcreate, hruns, (hexact 4216).1.mpr hlive, ?_, ?_, ?_, ?_⟩
  · rw [(hexact 4217).2 (hdead _ (by simp)), hforeign]
  · rw [(hexact 4152).2 (hdead _ (by simp)), hfree]
  · rw [(hexact 4224).2 (hdead _ (by simp)), hstray _ (by simp)]
  · rw [(hexact 4296).2 (hdead _ (by simp)), hstray _ (by simp)]

end Arena

end FirstFit
