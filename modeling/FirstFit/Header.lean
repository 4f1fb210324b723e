/-
The header in front of every block.

A header is seven words between two canaries: what the block's payload measures,
whether it is allocated, which blocks come before and after it, and the token of its
snapshot.  Links are offsets from the base of the arena.  Every content of the seven
words is some header; `Header.check?` tells whether it was written by an arena.

`header_setHeader` says that a header reads back as it was written, and
`byteAt_setHeader_of_outside` that writing it changes nothing but its seven words.
-/
import FirstFit.Memory
import FirstFit.Token
import FirstFit.Corruption

namespace FirstFit

/-! ### Links -/

/-- The offset of a neighbour, if there is one. -/
abbrev Link := Option Nat

namespace Link

/-- The word that says there is no neighbour. -/
def nil : Nat := 0x10000000000000000 - 1

/-- The link that a number stands for. -/
def ofNat (n : Nat) : Link := if n = nil then none else some n

/-- The number that stands for a link. -/
def toNat : Link → Nat
  | none => nil
  | some offset => offset

@[simp] theorem toNat_ofNat (n : Nat) : toNat (ofNat n) = n := by
  unfold ofNat
  split
  · next h => exact h.symm
  · rfl

end Link

/-! ### Headers -/

/-- The seven words of a header, as what they say. -/
structure Header where
  /-- The leading canary. -/
  leading : Nat
  /-- How many bytes of payload follow the header. -/
  size : Nat
  /-- Zero for a free block, one for an allocated one. -/
  flag : Nat
  prev : Link
  next : Link
  trace : Option Token
  /-- The trailing canary. -/
  trailing : Nat
  deriving DecidableEq

namespace Header

/-- What the first word of every header should be. -/
def leadingCanary : Nat := 0xFF00AA55

/-- What the last word of every header should be. -/
def trailingCanary : Nat := 0xEE119966

/-- The words of a header by name. -/
inductive Field
  | leading | size | flag | prev | next | trace | trailing
  deriving DecidableEq, Repr

namespace Field

/-- The fields in the order of their words. -/
def all : List Field := [leading, size, flag, prev, next, trace, trailing]

/-- How many bytes into the header the word of a field starts. -/
def position : Field → Nat
  | leading => 0
  | size => 8
  | flag => 16
  | prev => 24
  | next => 32
  | trace => 40
  | trailing => 48

end Field

/-- How many bytes the seven words take. -/
def byteCount : Nat := 56

/-- The header whose words are given. -/
def ofWords (word : Field → UInt64) : Header where
  leading := (word .leading).toNat
  size := (word .size).toNat
  flag := (word .flag).toNat
  prev := .ofNat (word .prev).toNat
  next := .ofNat (word .next).toNat
  trace := Token.ofWord? (word .trace)
  trailing := (word .trailing).toNat

/-- The word of each field of a header. -/
def toWord (h : Header) : Field → UInt64
  | .leading => .ofNat h.leading
  | .size => .ofNat h.size
  | .flag => .ofNat h.flag
  | .prev => .ofNat (Link.toNat h.prev)
  | .next => .ofNat (Link.toNat h.next)
  | .trace => Token.toWord h.trace
  | .trailing => .ofNat h.trailing

/-- The header of a new free block. -/
def fresh (size : Nat) (prev next : Link) : Header where
  leading := leadingCanary
  size := size
  flag := 0
  prev := prev
  next := next
  trace := none
  trailing := trailingCanary

/-- A block is free if its flag is zero; any other flag keeps it from being handed out. -/
def isFree (h : Header) : Bool := h.flag == 0

/-- What is wrong with the header found at `offset`, judged by itself: the canaries
first, then the flag. -/
def check? (h : Header) (offset : Nat) : Option Corruption :=
  if h.leading ≠ leadingCanary then some (.leadingCanary offset)
  else if h.trailing ≠ trailingCanary then some (.trailingCanary offset)
  else if 1 < h.flag then some (.flag offset h.flag)
  else none

/-- Whether each number of the header is one a word can hold. -/
structure Fits (h : Header) : Prop where
  leading : h.leading < 0x10000000000000000
  size : h.size < 0x10000000000000000
  flag : h.flag < 0x10000000000000000
  prev : ∀ p ∈ h.prev, p < Link.nil
  next : ∀ n ∈ h.next, n < Link.nil
  trailing : h.trailing < 0x10000000000000000

theorem isFree_iff {h : Header} : h.isFree = true ↔ h.flag = 0 := by
  simp [isFree]

theorem check?_eq_none_iff {h : Header} {offset : Nat} :
    h.check? offset = none ↔
      h.leading = leadingCanary ∧ h.trailing = trailingCanary ∧ h.flag ≤ 1 := by
  unfold check?
  by_cases hl : h.leading = leadingCanary
  · by_cases ht : h.trailing = trailingCanary
    · by_cases hf : 1 < h.flag
      · simp [hl, ht, hf, Nat.not_le_of_lt hf]
      · simp [hl, ht, hf, Nat.le_of_not_lt hf]
    · simp [hl, ht]
  · simp [hl]

@[simp] theorem check?_fresh (size : Nat) (prev next : Link) (offset : Nat) :
    (fresh size prev next).check? offset = none :=
  check?_eq_none_iff.2 ⟨rfl, rfl, Nat.zero_le _⟩

private theorem ofNat_toNat_word {l : Link} (h : ∀ p ∈ l, p < Link.nil) :
    Link.ofNat (UInt64.ofNat (Link.toNat l)).toNat = l := by
  cases l with
  | none => rfl
  | some p =>
    have hp : p < 0x10000000000000000 - 1 := h p rfl
    have hword : (UInt64.ofNat p).toNat = p :=
      UInt64.toNat_ofNat_of_lt' (by simp only [UInt64.size]; omega)
    simp only [Link.toNat, hword]
    exact if_neg (by simp only [Link.nil]; omega)

/-- A header whose numbers are words is made up by its words. -/
theorem ofWords_toWord {h : Header} (fits : h.Fits) : ofWords h.toWord = h := by
  have hword : ∀ {n : Nat}, n < 0x10000000000000000 → (UInt64.ofNat n).toNat = n := fun hn =>
    UInt64.toNat_ofNat_of_lt' (by simp only [UInt64.size]; omega)
  obtain ⟨leading, size, flag, prev, next, trace, trailing⟩ := h
  simp only [ofWords, toWord, ofNat_toNat_word fits.prev, ofNat_toNat_word fits.next,
    hword fits.leading, hword fits.size, hword fits.flag, hword fits.trailing,
    Token.ofWord?_toWord]

/-- The words of a header are those it was made up by. -/
theorem toWord_ofWords (word : Field → UInt64) (field : Field) :
    (ofWords word).toWord field = word field := by
  cases field <;> simp [ofWords, toWord]

/-- The words of a header lie next to each other. -/
theorem Field.exists_position {i : Nat} (hi : i < byteCount) :
    ∃ field : Field, field.position ≤ i ∧ i < field.position + 8 := by
  simp only [byteCount] at hi
  have hword : i / 8 < Field.all.length := by
    show i / 8 < 7
    omega
  have hall : ∀ k (hk : k < Field.all.length), Field.all[k].position = 8 * k := by decide
  refine ⟨Field.all[i / 8], ?_⟩
  rw [hall]
  omega

theorem Field.exists_position_eq {i : Nat} (hi : i < byteCount) (hdvd : 8 ∣ i) :
    ∃ field : Field, field.position = i := by
  obtain ⟨field, hlow, hhigh⟩ := Field.exists_position hi
  have hposition : 8 ∣ field.position := by cases field <;> decide
  exact ⟨field, by omega⟩

/-- Whatever the words are, their numbers fit into words. -/
theorem fits_ofWords (word : Field → UInt64) : (ofWords word).Fits := by
  have hlink : ∀ w : UInt64, ∀ p ∈ Link.ofNat w.toNat, p < Link.nil := by
    intro w p hp
    have hw := w.toNat_lt
    unfold Link.ofNat at hp
    split at hp
    · simp at hp
    · next hne =>
      simp only [Option.mem_def, Option.some.injEq] at hp
      simp only [Link.nil] at hne ⊢
      omega
  exact ⟨UInt64.toNat_lt _, UInt64.toNat_lt _, UInt64.toNat_lt _, hlink _, hlink _,
    UInt64.toNat_lt _⟩

end Header

/-! ### Headers in memory -/

namespace Memory

/-- The header whose first byte is at `address`. -/
def header (m : Memory) (address : Nat) : Header :=
  .ofWords fun field => m.word (address + field.position)

/-- Writes the seven words of a header. -/
def setHeader (m : Memory) (address : Nat) (h : Header) : Memory :=
  Header.Field.all.foldl (fun m field => m.setWord (address + field.position) (h.toWord field)) m

@[simp] theorem start_setHeader (m : Memory) (a : Nat) (h : Header) :
    (m.setHeader a h).start = m.start := by
  simp [setHeader, Header.Field.all]

@[simp] theorem size_setHeader (m : Memory) (a : Nat) (h : Header) :
    (m.setHeader a h).size = m.size := by
  simp [setHeader, Header.Field.all]

/-- The header in memory has numbers that fit into words. -/
theorem fits_header (m : Memory) (a : Nat) : (m.header a).Fits := Header.fits_ofWords _

private theorem word_setHeader {m : Memory} {a : Nat} (h : Header)
    (hm : m.Covers a Header.byteCount) (field : Header.Field) :
    (m.setHeader a h).word (a + field.position) = h.toWord field := by
  have hcovers : ∀ (m' : Memory) (f : Header.Field), m'.start = m.start → m'.size = m.size →
      m'.Covers (a + f.position) 8 := by
    intro m' f hs hz
    simp only [Covers, stop, Header.byteCount] at hm ⊢
    cases f <;> simp only [Header.Field.position] <;> omega
  cases field <;>
    simp only [setHeader, Header.Field.all, List.foldl_cons, List.foldl_nil] <;>
    repeat first
      | rw [word_setWord _ (hcovers _ _ (by simp) (by simp))]
      | rw [word_setWord_of_disjoint _ (by simp only [Header.Field.position]; omega)]

/-- **A header reads back as it was written.** -/
theorem header_setHeader {m : Memory} {a : Nat} {h : Header} (fits : h.Fits)
    (hm : m.Covers a Header.byteCount) : (m.setHeader a h).header a = h := by
  simp only [header, word_setHeader h hm]
  exact Header.ofWords_toWord fits

/-- Writing a header changes only its own bytes. -/
theorem byteAt_setHeader_of_outside {m : Memory} {a c : Nat} (h : Header)
    (hc : c < a ∨ a + Header.byteCount ≤ c) : (m.setHeader a h).byteAt c = m.byteAt c := by
  simp only [Header.byteCount] at hc
  simp only [setHeader, Header.Field.all, List.foldl_cons, List.foldl_nil]
  iterate 7
    rw [byteAt_setWord_of_outside _ (by simp only [Header.Field.position]; omega)]

/-- A header is read from its own bytes only. -/
theorem header_congr {m m' : Memory} {a : Nat}
    (h : ∀ c, a ≤ c → c < a + Header.byteCount → m.byteAt c = m'.byteAt c) :
    m.header a = m'.header a := by
  have hword : ∀ field : Header.Field,
      m.word (a + field.position) = m'.word (a + field.position) := by
    intro field
    refine word_congr fun c h1 h2 => h c (by omega) ?_
    simp only [Header.byteCount]
    cases field <;> simp only [Header.Field.position] at h2 <;> omega
  simp only [header, hword]

/-- The words of the header at an address are those that are there. -/
theorem toWord_header (m : Memory) (a : Nat) (field : Header.Field) :
    (m.header a).toWord field = m.word (a + field.position) := Header.toWord_ofWords _ field

/-- **Where two memories have the same header they have the same bytes.** -/
theorem byteAt_eq_of_header_eq {m m' : Memory} {a c : Nat} (h : m.header a = m'.header a)
    (hlow : a ≤ c) (hhigh : c < a + Header.byteCount) : m.byteAt c = m'.byteAt c := by
  obtain ⟨field, hstart, hstop⟩ := Header.Field.exists_position (i := c - a) (by omega)
  have hword : m.word (a + field.position) = m'.word (a + field.position) := by
    rw [← toWord_header, ← toWord_header, h]
  have hc : a + field.position + (c - a - field.position) = c := by omega
  rw [← hc]
  exact byteAt_eq_of_word_eq hword (by omega)

/-- Writing a header leaves one that it does not overlap as it was. -/
theorem header_setHeader_of_disjoint {m : Memory} {a c : Nat} (h : Header)
    (hac : c + Header.byteCount ≤ a ∨ a + Header.byteCount ≤ c) :
    (m.setHeader a h).header c = m.header c :=
  header_congr fun _ h1 h2 => byteAt_setHeader_of_outside h (by omega)

end Memory

end FirstFit
