/-
What operations do to a memory.

An operation changes headers at a few offsets and nothing else.  Here each such change is
a function from memories to memories, without the bookkeeping around it: `relink` sets a
back link, `absorb` makes a block part of the one before it, `cut` makes two blocks of
one.  Of each it is said which headers it changes and how, and that all headers apart from
those stay as they were.

`Swept` says what becomes of all other bytes: where a header has disappeared they are
zero, and everywhere else they are kept.  `Rearranged` adds that headers which stay keep
their tokens, which is so as long as no block changes hands.
-/
import FirstFit.Proofs.Geometry
import FirstFit.Walk

namespace FirstFit

namespace Header

/-- The header after its block was handed out. -/
def granted (h : Header) (token : Option Token) : Header := { h with flag := 1, trace := token }

/-- The header after its block was given back. -/
def reclaimed (h : Header) : Header := { h with flag := 0, trace := none }

@[simp] theorem size_granted (h : Header) (token : Option Token) :
    (h.granted token).size = h.size := rfl

end Header

/-! ### Fitting into words -/

namespace Header.Fits

variable {h : Header}

theorem withPrev (fits : h.Fits) {p : Nat} (hp : p < Link.nil) :
    Fits { h with prev := some p } :=
  ⟨fits.leading, fits.size, fits.flag, fun q hq => by
    rw [Option.mem_some_iff] at hq
    exact hq ▸ hp, fits.next, fits.trailing⟩

theorem withExtent (fits : h.Fits) {size : Nat} {next : Link} (hsize : size < 2 ^ 64)
    (hnext : ∀ n ∈ next, n < Link.nil) : Fits { h with size := size, next := next } :=
  ⟨fits.leading, hsize, fits.flag, fits.prev, hnext, fits.trailing⟩

theorem granted (fits : h.Fits) (token : Option Token) : (h.granted token).Fits :=
  ⟨fits.leading, fits.size, show 1 < 2 ^ 64 by decide, fits.prev, fits.next, fits.trailing⟩

theorem reclaimed (fits : h.Fits) : h.reclaimed.Fits :=
  ⟨fits.leading, fits.size, show 0 < 2 ^ 64 by decide, fits.prev, fits.next, fits.trailing⟩

end Header.Fits

theorem Header.fits_fresh {size : Nat} {prev next : Link} (hsize : size < 2 ^ 64)
    (hprev : ∀ p ∈ prev, p < Link.nil) (hnext : ∀ n ∈ next, n < Link.nil) :
    (fresh size prev next).Fits :=
  ⟨show leadingCanary < 2 ^ 64 by decide, hsize, show 0 < 2 ^ 64 by decide, hprev, hnext,
    show trailingCanary < 2 ^ 64 by decide⟩

namespace Region

/-- The header at an offset of the region. -/
def headerAt (r : Region) (m : Memory) (offset : Nat) : Header := m.header (r.base + offset)

/-- Writes a header at an offset of the region. -/
def setHeader (r : Region) (m : Memory) (offset : Nat) (h : Header) : Memory :=
  m.setHeader (r.base + offset) h

/-- Makes every byte zero that a header at an offset takes up. -/
def wipe (r : Region) (m : Memory) (offset : Nat) : Memory :=
  m.fill (r.base + offset) r.footprint 0

/-- Makes the block a link leads to, if there is one, link back to `prev`. -/
def relink (r : Region) (m : Memory) (link : Link) (prev : Nat) : Memory :=
  match link with
  | none => m
  | some offset => r.setHeader m offset { r.headerAt m offset with prev := some prev }

/-- Makes the block at `victim` part of the one at `into`. -/
def absorb (r : Region) (m : Memory) (into victim : Nat) : Memory :=
  let taken := r.headerAt m victim
  let grown := r.headerAt m into
  let size := grown.size + (r.footprint + taken.size)
  r.wipe (r.relink (r.setHeader m into { grown with size, next := taken.next }) taken.next into)
    victim

/-- Cuts off what a block has behind its first `length` bytes. -/
def cut (r : Region) (m : Memory) (b : Block) (length : Nat) : Memory :=
  let rest := b.offset + r.footprint + length
  let linked := r.relink
    (r.setHeader m rest (.fresh (b.size - length - r.footprint) (some b.offset) b.header.next))
    b.header.next rest
  r.setHeader linked b.offset
    { r.headerAt linked b.offset with size := length, next := some rest }

/-- Two headers do not share a byte. -/
def Apart (r : Region) (o o' : Nat) : Prop :=
  o + r.footprint ≤ o' ∨ o' + r.footprint ≤ o

/-- An address is one of those of the seven words of a header. -/
def InWords (r : Region) (offset a : Nat) : Prop :=
  r.base + offset ≤ a ∧ a < r.base + offset + Header.byteCount

/-- An address is one of those a header takes up. -/
def InFootprint (r : Region) (offset a : Nat) : Prop :=
  r.base + offset ≤ a ∧ a < r.base + offset + r.footprint

variable {r : Region} {m : Memory} {o o' a into victim prev : Nat} {h : Header} {link : Link}

theorem InWords.inFootprint (h : r.InWords o a) : r.InFootprint o a := by
  have hbytes := r.byteCount_le_footprint
  exact ⟨h.1, Nat.lt_of_lt_of_le h.2 (by omega)⟩

/-- Headers that are apart from one that is not among them have none of its bytes. -/
theorem not_inWords_of_apart {offsets : List Nat} (hapart : ∀ o' ∈ offsets, o' = o ∨ r.Apart o' o)
    (ho : o ∉ offsets) (hin : r.InFootprint o a) : ∀ o' ∈ offsets, ¬ r.InWords o' a := by
  intro o' ho' hwords
  rcases hapart o' ho' with rfl | hapart
  · exact ho ho'
  · obtain ⟨hlow, hhigh⟩ := hwords.inFootprint
    obtain ⟨hlow', hhigh'⟩ := hin
    unfold Apart at hapart
    omega

/-! ### Single headers -/

theorem fits_headerAt : (r.headerAt m o).Fits := m.fits_header _

@[simp] theorem start_setHeader : (r.setHeader m o h).start = m.start := Memory.start_setHeader ..
@[simp] theorem size_setHeader : (r.setHeader m o h).size = m.size := Memory.size_setHeader ..
@[simp] theorem start_wipe : (r.wipe m o).start = m.start := Memory.start_fill ..
@[simp] theorem size_wipe : (r.wipe m o).size = m.size := Memory.size_fill ..

@[simp] theorem start_relink : (r.relink m link prev).start = m.start := by
  cases link <;> simp [relink]

@[simp] theorem size_relink : (r.relink m link prev).size = m.size := by
  cases link <;> simp [relink]

theorem headerAt_setHeader (lies : r.Lies m) (hroom : o + r.footprint ≤ r.capacity)
    (fits : h.Fits) : r.headerAt (r.setHeader m o h) o = h :=
  Memory.header_setHeader fits (lies.covers hroom)

theorem headerAt_setHeader_of_apart (hapart : r.Apart o' o) :
    r.headerAt (r.setHeader m o h) o' = r.headerAt m o' := by
  have hbytes := r.byteCount_le_footprint
  unfold Apart at hapart
  exact Memory.header_setHeader_of_disjoint h (by omega)

theorem headerAt_wipe_of_apart (hapart : r.Apart o' o) :
    r.headerAt (r.wipe m o) o' = r.headerAt m o' := by
  have hbytes := r.byteCount_le_footprint
  unfold Apart at hapart
  refine Memory.header_congr fun c h1 h2 => ?_
  rw [wipe, Memory.byteAt_fill, if_neg (by omega)]

theorem headerAt_relink_of_apart (hapart : ∀ n ∈ link, r.Apart o n) :
    r.headerAt (r.relink m link prev) o = r.headerAt m o := by
  cases link with
  | none => rfl
  | some n => exact headerAt_setHeader_of_apart (hapart n rfl)

theorem headerAt_relink (lies : r.Lies m) (hroom : o + r.footprint ≤ r.capacity)
    (hprev : prev < Link.nil) :
    r.headerAt (r.relink m (some o) prev) o = { r.headerAt m o with prev := some prev } :=
  headerAt_setHeader lies hroom (fits_headerAt.withPrev hprev)

theorem byteAt_setHeader_of_not_inWords (hout : ¬ r.InWords o a) :
    (r.setHeader m o h).byteAt a = m.byteAt a := by
  unfold InWords at hout
  exact Memory.byteAt_setHeader_of_outside h (by omega)

theorem byteAt_relink_of_not_inWords (hout : ∀ n ∈ link, ¬ r.InWords n a) :
    (r.relink m link prev).byteAt a = m.byteAt a := by
  cases link with
  | none => rfl
  | some n => exact byteAt_setHeader_of_not_inWords (hout n rfl)

theorem byteAt_wipe_of_not_inFootprint (hout : ¬ r.InFootprint o a) :
    (r.wipe m o).byteAt a = m.byteAt a := by
  unfold InFootprint at hout
  rw [wipe, Memory.byteAt_fill, if_neg (by omega)]

theorem byteAt_wipe (hin : r.InFootprint o a) : (r.wipe m o).byteAt a = 0 := by
  rw [wipe, Memory.byteAt_fill]
  by_cases hcovers : m.Covers a 1
  · rw [if_pos ⟨hin.1, hin.2, hcovers⟩]
  · rw [if_neg fun hc => hcovers hc.2.2, Memory.byteAt_of_not_covers hcovers]

/-! ### Two blocks become one -/

@[simp] theorem start_absorb : (r.absorb m into victim).start = m.start := by simp [absorb]
@[simp] theorem size_absorb : (r.absorb m into victim).size = m.size := by simp [absorb]

theorem headerAt_absorb_of_apart (hinto : r.Apart o into) (hvictim : r.Apart o victim)
    (hnext : ∀ n ∈ (r.headerAt m victim).next, r.Apart o n) :
    r.headerAt (r.absorb m into victim) o = r.headerAt m o := by
  unfold absorb
  rw [headerAt_wipe_of_apart hvictim, headerAt_relink_of_apart hnext,
    headerAt_setHeader_of_apart hinto]

theorem headerAt_absorb_into (lies : r.Lies m) (hroom : into + r.footprint ≤ r.capacity)
    (hsize : (r.headerAt m into).size + (r.footprint + (r.headerAt m victim).size) < 2 ^ 64)
    (hvictim : r.Apart into victim) (hnext : ∀ n ∈ (r.headerAt m victim).next, r.Apart into n) :
    r.headerAt (r.absorb m into victim) into =
      { r.headerAt m into with
        size := (r.headerAt m into).size + (r.footprint + (r.headerAt m victim).size)
        next := (r.headerAt m victim).next } := by
  unfold absorb
  rw [headerAt_wipe_of_apart hvictim, headerAt_relink_of_apart hnext]
  exact headerAt_setHeader lies hroom
    (fits_headerAt.withExtent hsize fits_headerAt.next)

theorem headerAt_absorb_next (lies : r.Lies m) (hnext : (r.headerAt m victim).next = some o)
    (hroom : o + r.footprint ≤ r.capacity) (hlt : into < Link.nil) (hinto : r.Apart o into)
    (hvictim : r.Apart o victim) :
    r.headerAt (r.absorb m into victim) o = { r.headerAt m o with prev := some into } := by
  unfold absorb
  rw [headerAt_wipe_of_apart hvictim, hnext, headerAt_relink (lies.congr (by simp) (by simp)) hroom
    hlt, headerAt_setHeader_of_apart hinto]

theorem byteAt_absorb (hinto : ¬ r.InWords into a)
    (hnext : ∀ n ∈ (r.headerAt m victim).next, ¬ r.InWords n a)
    (hvictim : ¬ r.InFootprint victim a) : (r.absorb m into victim).byteAt a = m.byteAt a := by
  unfold absorb
  rw [byteAt_wipe_of_not_inFootprint hvictim, byteAt_relink_of_not_inWords hnext,
    byteAt_setHeader_of_not_inWords hinto]

theorem byteAt_absorb_victim (hvictim : r.InFootprint victim a) :
    (r.absorb m into victim).byteAt a = 0 := byteAt_wipe hvictim

/-! ### One block becomes two -/

section Cut

variable {b : Block} {length : Nat}

@[simp] theorem start_cut : (r.cut m b length).start = m.start := by simp [cut]
@[simp] theorem size_cut : (r.cut m b length).size = m.size := by simp [cut]

theorem headerAt_cut_of_apart (hblock : r.Apart o b.offset)
    (hrest : r.Apart o (b.offset + r.footprint + length))
    (hnext : ∀ n ∈ b.header.next, r.Apart o n) :
    r.headerAt (r.cut m b length) o = r.headerAt m o := by
  unfold cut
  rw [headerAt_setHeader_of_apart hblock, headerAt_relink_of_apart hnext,
    headerAt_setHeader_of_apart hrest]

theorem headerAt_cut_block (lies : r.Lies m)
    (hroom : b.offset + r.footprint + length + r.footprint ≤ r.capacity)
    (hnext : ∀ n ∈ b.header.next, r.Apart b.offset n) :
    r.headerAt (r.cut m b length) b.offset =
      { r.headerAt m b.offset with
        size := length
        next := some (b.offset + r.footprint + length) } := by
  have hcapacity := lies.capacity_lt
  have hrest : r.Apart b.offset (b.offset + r.footprint + length) := .inl (by omega)
  unfold cut
  rw [headerAt_setHeader (lies.congr (by simp) (by simp)) (by omega),
    headerAt_relink_of_apart hnext, headerAt_setHeader_of_apart hrest]
  refine fits_headerAt.withExtent (by omega) fun n hn => ?_
  rw [Option.mem_some_iff] at hn
  unfold Link.nil
  omega

theorem headerAt_cut_rest (lies : r.Lies m) (hsize : b.size < 2 ^ 64)
    (hroom : b.offset + r.footprint + length + r.footprint ≤ r.capacity)
    (hfits : ∀ n ∈ b.header.next, n < Link.nil)
    (hnext : ∀ n ∈ b.header.next, r.Apart (b.offset + r.footprint + length) n) :
    r.headerAt (r.cut m b length) (b.offset + r.footprint + length) =
      .fresh (b.size - length - r.footprint) (some b.offset) b.header.next := by
  have hcapacity := lies.capacity_lt
  have hblock : r.Apart (b.offset + r.footprint + length) b.offset := .inr (by omega)
  unfold cut
  rw [headerAt_setHeader_of_apart hblock, headerAt_relink_of_apart hnext]
  refine headerAt_setHeader lies hroom (Header.fits_fresh (by omega) (fun p hp => ?_) hfits)
  rw [Option.mem_some_iff] at hp
  unfold Link.nil
  omega

theorem headerAt_cut_next (lies : r.Lies m) (hnext : b.header.next = some o)
    (hroom : o + r.footprint ≤ r.capacity)
    (hlt : b.offset + r.footprint + length < Link.nil) (hblock : r.Apart o b.offset)
    (hrest : r.Apart o (b.offset + r.footprint + length)) :
    r.headerAt (r.cut m b length) o =
      { r.headerAt m o with prev := some (b.offset + r.footprint + length) } := by
  unfold cut
  rw [headerAt_setHeader_of_apart hblock, hnext,
    headerAt_relink (lies.congr (by simp) (by simp)) hroom hlt, headerAt_setHeader_of_apart hrest]

theorem byteAt_cut (hblock : ¬ r.InWords b.offset a)
    (hrest : ¬ r.InWords (b.offset + r.footprint + length) a)
    (hnext : ∀ n ∈ b.header.next, ¬ r.InWords n a) :
    (r.cut m b length).byteAt a = m.byteAt a := by
  unfold cut
  rw [byteAt_setHeader_of_not_inWords hblock, byteAt_relink_of_not_inWords hnext,
    byteAt_setHeader_of_not_inWords hrest]

end Cut

/-! ### Tokens

Every header an operation writes is one that was there, changed in what it says of its
neighbours; its token is written back as it was.  So a header that stays keeps its token,
whether it is one of those that were written or lies apart from them. -/

theorem trace_setHeader (lies : r.Lies m) (hroom : o + r.footprint ≤ r.capacity) (fits : h.Fits)
    (hsame : h.trace = (r.headerAt m o).trace) (hclear : o' = o ∨ r.Apart o' o) :
    (r.headerAt (r.setHeader m o h) o').trace = (r.headerAt m o').trace := by
  rcases hclear with rfl | hapart
  · rw [headerAt_setHeader lies hroom fits, hsame]
  · rw [headerAt_setHeader_of_apart hapart]

theorem trace_relink (lies : r.Lies m) (hprev : prev < Link.nil)
    (hlink : ∀ n ∈ link, n + r.footprint ≤ r.capacity ∧ (o = n ∨ r.Apart o n)) :
    (r.headerAt (r.relink m link prev) o).trace = (r.headerAt m o).trace := by
  cases link with
  | none => rfl
  | some n =>
    obtain ⟨hroom, hclear⟩ := hlink n rfl
    exact trace_setHeader lies hroom (fits_headerAt.withPrev hprev) rfl hclear

theorem trace_absorb (lies : r.Lies m) (hroom : into + r.footprint ≤ r.capacity)
    (hsize : (r.headerAt m into).size + (r.footprint + (r.headerAt m victim).size) < 2 ^ 64)
    (hinto : o = into ∨ r.Apart o into) (hvictim : r.Apart o victim)
    (hnext : ∀ n ∈ (r.headerAt m victim).next,
      n + r.footprint ≤ r.capacity ∧ (o = n ∨ r.Apart o n)) :
    (r.headerAt (r.absorb m into victim) o).trace = (r.headerAt m o).trace := by
  have hcapacity := lies.capacity_lt
  have hlt : into < Link.nil := by
    unfold Link.nil
    omega
  unfold absorb
  rw [headerAt_wipe_of_apart hvictim, trace_relink (lies.congr (by simp) (by simp)) hlt hnext]
  exact trace_setHeader lies hroom (fits_headerAt.withExtent hsize fits_headerAt.next) rfl hinto

theorem trace_cut {b : Block} {length : Nat} (lies : r.Lies m)
    (hroom : b.offset + r.footprint + length + r.footprint ≤ r.capacity)
    (hblock : o = b.offset ∨ r.Apart o b.offset)
    (hrest : r.Apart o (b.offset + r.footprint + length))
    (hnext : ∀ n ∈ b.header.next, n + r.footprint ≤ r.capacity ∧ (o = n ∨ r.Apart o n)) :
    (r.headerAt (r.cut m b length) o).trace = (r.headerAt m o).trace := by
  have hcapacity := lies.capacity_lt
  have hlt : b.offset + r.footprint + length < Link.nil := by
    unfold Link.nil
    omega
  have hlink : ∀ n ∈ some (b.offset + r.footprint + length), n < Link.nil := by
    intro n hn
    rw [Option.mem_some_iff] at hn
    exact hn ▸ hlt
  refine (trace_setHeader (lies.congr (by simp) (by simp)) (by omega)
    (fits_headerAt.withExtent (by omega) hlink) rfl hblock).trans ?_
  rw [trace_relink (lies.congr (by simp) (by simp)) hlt hnext, headerAt_setHeader_of_apart hrest]

/-! ### All other bytes -/

/-- What became of the bytes in no header, when the headers at `old` offsets were replaced by
those at `new` ones: a footprint that was given up is zero, and the rest is as it was. -/
structure Swept (r : Region) (m m' : Memory) (old new : List Nat) : Prop where
  start : m'.start = m.start
  size : m'.size = m.size
  wiped : ∀ a, (∀ o ∈ new, ¬ r.InWords o a) → (∃ o ∈ old, o ∉ new ∧ r.InFootprint o a) →
    m'.byteAt a = 0
  kept : ∀ a, (∀ o ∈ new, ¬ r.InWords o a) → (∀ o ∈ old, o ∉ new → ¬ r.InFootprint o a) →
    m'.byteAt a = m.byteAt a

variable {m' m'' : Memory} {old mid new : List Nat}

/-- Writing headers that are there afterwards sweeps nothing, if none disappears. -/
theorem swept_of_kept (hstart : m'.start = m.start) (hsize : m'.size = m.size)
    (hsubset : ∀ o ∈ old, o ∈ new)
    (h : ∀ a, (∀ o ∈ new, ¬ r.InWords o a) → m'.byteAt a = m.byteAt a) :
    r.Swept m m' old new :=
  ⟨hstart, hsize, fun _ _ ⟨o, ho, hnot, _⟩ => absurd (hsubset o ho) hnot, fun a hout _ => h a hout⟩

theorem Swept.refl (m : Memory) (old : List Nat) : r.Swept m m old old :=
  swept_of_kept rfl rfl (fun _ ho => ho) fun _ _ => rfl

/-- Two sweeps are one, if no header is there in between only, and none is away in between
only. -/
theorem Swept.trans (h : r.Swept m m' old mid) (h' : r.Swept m' m'' mid new)
    (hmid : ∀ o ∈ mid, o ∈ old ∨ o ∈ new) (hnew : ∀ o ∈ old, o ∈ new → o ∈ mid) :
    r.Swept m m'' old new := by
  -- An address in no header of `new` and in no footprint given up since `mid` is in no
  -- header of `mid`.
  have hout : ∀ a, (∀ o ∈ new, ¬ r.InWords o a) → (∀ o ∈ mid, o ∉ new → ¬ r.InFootprint o a) →
      ∀ o ∈ mid, ¬ r.InWords o a := by
    intro a hwords hkept o ho hin
    by_cases hon : o ∈ new
    · exact hwords o hon hin
    · exact hkept o ho hon hin.inFootprint
  refine ⟨h'.start.trans h.start, h'.size.trans h.size, ?_, ?_⟩
  · intro a hwords hlies
    obtain ⟨o, ho, hnot, hin⟩ := hlies
    by_cases hgone : ∃ o ∈ mid, o ∉ new ∧ r.InFootprint o a
    · exact h'.wiped a hwords hgone
    · have hkept : ∀ o ∈ mid, o ∉ new → ¬ r.InFootprint o a :=
        fun o ho hon hin => hgone ⟨o, ho, hon, hin⟩
      rw [h'.kept a hwords hkept]
      exact h.wiped a (hout a hwords hkept) ⟨o, ho, fun hom => hkept o hom hnot hin, hin⟩
  · intro a hwords hkept
    have hkept' : ∀ o ∈ mid, o ∉ new → ¬ r.InFootprint o a := by
      intro o ho hon
      rcases hmid o ho with hold | hold
      · exact hkept o hold hon
      · exact absurd hold hon
    rw [h'.kept a hwords hkept']
    exact h.kept a (hout a hwords hkept') fun o ho hom => hkept o ho fun hon => hom (hnew o ho hon)

/-- A byte in no header afterwards was wiped, or it was in no header before and was kept. -/
theorem Swept.zero_or_kept (h : r.Swept m m' old new) (hout : ∀ o ∈ new, ¬ r.InWords o a) :
    m'.byteAt a = 0 ∨ (∀ o ∈ old, ¬ r.InWords o a) ∧ m'.byteAt a = m.byteAt a := by
  by_cases hgone : ∃ o ∈ old, o ∉ new ∧ r.InFootprint o a
  · exact .inl (h.wiped a hout hgone)
  · have hkept : ∀ o ∈ old, o ∉ new → ¬ r.InFootprint o a :=
      fun o ho hnot hin => hgone ⟨o, ho, hnot, hin⟩
    refine .inr ⟨fun o ho hin => ?_, h.kept a hout hkept⟩
    by_cases hnew : o ∈ new
    · exact hout o hnew hin
    · exact hkept o ho hnew hin.inFootprint

/-- Sweeping to the same headers leaves the same bytes where there were the same. -/
theorem Swept.byteAt_eq {n n' : Memory} (h : r.Swept m m' old new) (h' : r.Swept n n' old new)
    (hsame : ∀ a, (∀ o ∈ old, ¬ r.InWords o a) → m.byteAt a = n.byteAt a)
    (hout : ∀ o ∈ new, ¬ r.InWords o a) : m'.byteAt a = n'.byteAt a := by
  by_cases hgone : ∃ o ∈ old, o ∉ new ∧ r.InFootprint o a
  · rw [h.wiped a hout hgone, h'.wiped a hout hgone]
  · have hkept : ∀ o ∈ old, o ∉ new → ¬ r.InFootprint o a :=
      fun o ho hnot hin => hgone ⟨o, ho, hnot, hin⟩
    rw [h.kept a hout hkept, h'.kept a hout hkept]
    refine hsame a fun o ho hin => ?_
    by_cases hnew : o ∈ new
    · exact hout o hnew hin
    · exact hkept o ho hnew hin.inFootprint

/-- A sweep in which no block is handed out or given back: the headers that stay keep their
tokens. -/
structure Rearranged (r : Region) (m m' : Memory) (old new : List Nat) : Prop
    extends r.Swept m m' old new where
  tokens : ∀ o ∈ old, o ∈ new → (r.headerAt m' o).trace = (r.headerAt m o).trace

theorem Rearranged.refl (m : Memory) (old : List Nat) : r.Rearranged m m old old :=
  ⟨.refl m old, fun _ _ _ => rfl⟩

theorem Rearranged.trans (h : r.Rearranged m m' old mid) (h' : r.Rearranged m' m'' mid new)
    (hmid : ∀ o ∈ mid, o ∈ old ∨ o ∈ new) (hnew : ∀ o ∈ old, o ∈ new → o ∈ mid) :
    r.Rearranged m m'' old new := by
  refine ⟨h.toSwept.trans h'.toSwept hmid hnew, ?_⟩
  intro o hold ho
  have hom := hnew o hold ho
  rw [h'.tokens o hom ho, h.tokens o hold hom]

end Region

end FirstFit
