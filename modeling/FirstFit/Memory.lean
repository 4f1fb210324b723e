/-
The bytes an arena lives in.

A `Memory` is one stretch of the address space with its contents, and bytes are
named by absolute address.  `byteAt` is the view all facts are stated through: it is
total, and zero outside the stretch.  Every way of writing is made of `setByte`,
which ignores an address outside, so each needs one equation: what `byteAt` gives
afterwards.  Words are little-endian; `word_setWord` says that a word reads back.
-/
namespace FirstFit

/-- `count` equal bytes. -/
def Memory.repeated (count : Nat) (byte : UInt8) : ByteArray := ⟨Array.replicate count byte⟩

theorem Memory.size_repeated (count : Nat) (byte : UInt8) : (repeated count byte).size = count :=
  Array.size_replicate

theorem Memory.size_set {bytes : ByteArray} {i : Nat} (h : i < bytes.size) (byte : UInt8) :
    (bytes.set i byte h).size = bytes.size := by
  rw [← ByteArray.size_data, ByteArray.data_set, Array.size_set, ByteArray.size_data]

/-- A stretch of the address space.  It is less than half of it, as all objects are,
and the address of its end is a machine word. -/
structure Memory where
  /-- The address of the first byte. -/
  start : Nat
  bytes : ByteArray
  size_lt : bytes.size < 0x8000000000000000
  end_lt : start + bytes.size < 0x10000000000000000

namespace Memory

/-- How many bytes there are. -/
def size (m : Memory) : Nat := m.bytes.size

/-- The address after the last byte. -/
def stop (m : Memory) : Nat := m.start + m.size

/-- The `size` bytes from address `start`, all equal to `byte`, if such a stretch exists. -/
def filled? (start size : Nat) (byte : UInt8) : Option Memory :=
  if h : size < 0x8000000000000000 ∧ start + size < 0x10000000000000000 then
    some ⟨start, repeated size byte, by rw [size_repeated]; exact h.1,
      by rw [size_repeated]; exact h.2⟩
  else
    none

/-- The same stretch with every byte zero. -/
def cleared (m : Memory) : Memory :=
  ⟨m.start, repeated m.size 0, by rw [size_repeated]; exact m.size_lt,
    by rw [size_repeated]; exact m.end_lt⟩

/-- Whether the `count` bytes from `address` all belong to the memory. -/
def Covers (m : Memory) (address count : Nat) : Prop :=
  m.start ≤ address ∧ address + count ≤ m.stop

instance (m : Memory) (address count : Nat) : Decidable (m.Covers address count) :=
  inferInstanceAs (Decidable (_ ∧ _))

/-- The byte at `address`; zero if there is none. -/
def byteAt (m : Memory) (address : Nat) : UInt8 :=
  if h : m.start ≤ address ∧ address - m.start < m.bytes.size then
    getElem m.bytes (address - m.start) h.2
  else
    0

/-- Replaces the byte at `address`; without one there, nothing changes. -/
def setByte (m : Memory) (address : Nat) (byte : UInt8) : Memory :=
  if h : m.start ≤ address ∧ address - m.start < m.bytes.size then
    { m with
      bytes := m.bytes.set (address - m.start) byte h.2
      size_lt := by rw [size_set]; exact m.size_lt
      end_lt := by rw [size_set]; exact m.end_lt }
  else
    m

/-- The `count` bytes from `address`. -/
def read (m : Memory) (address count : Nat) : List UInt8 :=
  (List.range count).map fun i => m.byteAt (address + i)

/-- Replaces the bytes from `address` by the given ones, one after the other. -/
def write (m : Memory) (address : Nat) : List UInt8 → Memory
  | [] => m
  | byte :: rest => (m.setByte address byte).write (address + 1) rest

/-- Replaces each of the `count` bytes from `address` by `byte`. -/
def fill (m : Memory) (address : Nat) (count : Nat) (byte : UInt8) : Memory :=
  match count with
  | 0 => m
  | count + 1 => (m.setByte address byte).fill (address + 1) count byte

/-- The word whose bytes, from the lowest on, start at `address`. -/
def word (m : Memory) (address : Nat) : UInt64 :=
  (m.byteAt address).toUInt64
    + (m.byteAt (address + 1)).toUInt64 <<< 8
    + (m.byteAt (address + 2)).toUInt64 <<< 16
    + (m.byteAt (address + 3)).toUInt64 <<< 24
    + (m.byteAt (address + 4)).toUInt64 <<< 32
    + (m.byteAt (address + 5)).toUInt64 <<< 40
    + (m.byteAt (address + 6)).toUInt64 <<< 48
    + (m.byteAt (address + 7)).toUInt64 <<< 56

/-- The eight bytes of a word, the lowest first. -/
def bytesOfWord (w : UInt64) : List UInt8 :=
  [w.toUInt8, (w >>> 8).toUInt8, (w >>> 16).toUInt8, (w >>> 24).toUInt8,
    (w >>> 32).toUInt8, (w >>> 40).toUInt8, (w >>> 48).toUInt8, (w >>> 56).toUInt8]

/-- Replaces the word at `address`. -/
def setWord (m : Memory) (address : Nat) (w : UInt64) : Memory :=
  m.write address (bytesOfWord w)

/-- The words from `address` on that lie in the memory, as many as fit, each with its
distance from `address`. -/
def words (m : Memory) (address : Nat) : List (Nat × UInt64) :=
  (List.range ((m.stop - address) / 8)).map fun i => (8 * i, m.word (address + 8 * i))

/-! ### What a write leaves where it was -/

@[simp] theorem start_cleared (m : Memory) : m.cleared.start = m.start := rfl

@[simp] theorem size_cleared (m : Memory) : m.cleared.size = m.size := size_repeated ..

@[simp] theorem start_setByte (m : Memory) (a : Nat) (b : UInt8) :
    (m.setByte a b).start = m.start := by
  unfold setByte
  split <;> rfl

@[simp] theorem size_setByte (m : Memory) (a : Nat) (b : UInt8) :
    (m.setByte a b).size = m.size := by
  unfold setByte
  split
  · exact size_set ..
  · rfl

@[simp] theorem start_write (m : Memory) (a : Nat) (bs : List UInt8) :
    (m.write a bs).start = m.start := by
  induction bs generalizing m a with
  | nil => rfl
  | cons b bs ih => simp [write, ih]

@[simp] theorem size_write (m : Memory) (a : Nat) (bs : List UInt8) :
    (m.write a bs).size = m.size := by
  induction bs generalizing m a with
  | nil => rfl
  | cons b bs ih => simp [write, ih]

@[simp] theorem start_fill (m : Memory) (a n : Nat) (b : UInt8) :
    (m.fill a n b).start = m.start := by
  induction n generalizing m a with
  | zero => rfl
  | succ n ih => simp [fill, ih]

@[simp] theorem size_fill (m : Memory) (a n : Nat) (b : UInt8) :
    (m.fill a n b).size = m.size := by
  induction n generalizing m a with
  | zero => rfl
  | succ n ih => simp [fill, ih]

@[simp] theorem start_setWord (m : Memory) (a : Nat) (w : UInt64) :
    (m.setWord a w).start = m.start := start_write ..

@[simp] theorem size_setWord (m : Memory) (a : Nat) (w : UInt64) :
    (m.setWord a w).size = m.size := size_write ..

/-! ### The view -/

theorem byteAt_of_not_covers {m : Memory} {a : Nat} (h : ¬ m.Covers a 1) : m.byteAt a = 0 := by
  unfold byteAt
  split
  · next hin =>
    simp only [Covers, stop, size] at h
    omega
  · rfl

/-- Two memories over the same addresses with the same bytes are the same. -/
theorem ext_byteAt {m m' : Memory} (hstart : m.start = m'.start) (hsize : m.size = m'.size)
    (h : ∀ a, m.Covers a 1 → m.byteAt a = m'.byteAt a) : m = m' := by
  obtain ⟨s, bs, hs, he⟩ := m
  obtain ⟨s', bs', hs', he'⟩ := m'
  simp only at hstart
  subst hstart
  suffices bs = bs' by subst this; rfl
  refine ByteArray.ext_getElem hsize fun i hi hi' => ?_
  have := h (s + i) (by simp only [Covers, stop, size]; omega)
  simpa [byteAt, hi, hi'] using this

@[simp] theorem byteAt_cleared (m : Memory) (a : Nat) : m.cleared.byteAt a = 0 := by
  unfold byteAt
  split
  · simp [cleared, repeated, ByteArray.getElem_eq_getElem_data]
  · rfl

theorem byteAt_setByte (m : Memory) (a c : Nat) (b : UInt8) :
    (m.setByte a b).byteAt c = if c = a ∧ m.Covers a 1 then b else m.byteAt c := by
  have hcovers : m.Covers a 1 ↔ m.start ≤ a ∧ a - m.start < m.bytes.size := by
    simp only [Covers, stop, size]
    omega
  simp only [hcovers]
  by_cases ha : m.start ≤ a ∧ a - m.start < m.bytes.size
  · by_cases hc : m.start ≤ c ∧ c - m.start < m.bytes.size
    · have hiff : a - m.start = c - m.start ↔ c = a := by omega
      simp [byteAt, setByte, ha, hc, size_set, ByteArray.getElem_eq_getElem_data, Array.getElem_set,
        hiff]
    · have hne : c ≠ a := by
        rintro rfl
        exact hc ha
      simp [byteAt, setByte, ha, hc, size_set, hne]
  · simp [setByte, ha]

theorem byteAt_write (m : Memory) (a c : Nat) (bs : List UInt8) :
    (m.write a bs).byteAt c =
      if a ≤ c ∧ m.Covers c 1 then bs[c - a]?.getD (m.byteAt c) else m.byteAt c := by
  induction bs generalizing m a with
  | nil => simp [write]
  | cons b bs ih =>
    have hcovers : (m.setByte a b).Covers c 1 ↔ m.Covers c 1 := by simp [Covers, stop]
    simp only [write, ih, byteAt_setByte, hcovers]
    by_cases hm : m.Covers c 1
    · rcases Nat.lt_trichotomy a c with h | h | h
      · have hne : c ≠ a := by omega
        have hnext : c - a = c - (a + 1) + 1 := by omega
        simp [hm, hne, hnext, Nat.succ_le_of_lt h, Nat.le_of_lt h]
      · subst h
        have hnot : ¬ a + 1 ≤ a := by omega
        simp [hm, hnot]
      · have hne : c ≠ a := by omega
        simp [hne, Nat.not_le_of_lt h, Nat.not_le_of_lt (Nat.lt_succ_of_lt h)]
    · have hne : ¬ (c = a ∧ m.Covers a 1) := by
        rintro ⟨rfl, hc⟩
        exact hm hc
      simp [hm, hne]

theorem byteAt_fill (m : Memory) (a n c : Nat) (b : UInt8) :
    (m.fill a n b).byteAt c = if a ≤ c ∧ c < a + n ∧ m.Covers c 1 then b else m.byteAt c := by
  induction n generalizing m a with
  | zero => rw [fill, if_neg (by omega)]
  | succ n ih =>
    have hcovers : (m.setByte a b).Covers c 1 ↔ m.Covers c 1 := by simp [Covers, stop]
    rw [fill, ih, byteAt_setByte]
    by_cases hm : m.Covers c 1
    · by_cases hin : a + 1 ≤ c ∧ c < a + 1 + n
      · rw [if_pos ⟨hin.1, hin.2, hcovers.2 hm⟩, if_pos ⟨by omega, by omega, hm⟩]
      · rw [if_neg fun h => hin ⟨h.1, h.2.1⟩]
        by_cases hca : c = a
        · subst hca
          rw [if_pos ⟨rfl, hm⟩, if_pos ⟨Nat.le_refl _, by omega, hm⟩]
        · rw [if_neg fun h => hca h.1, if_neg fun h => hin ⟨by omega, by omega⟩]
    · have hne : ¬ (c = a ∧ m.Covers a 1) := by
        rintro ⟨rfl, hc⟩
        exact hm hc
      rw [if_neg fun h => hm (hcovers.1 h.2.2), if_neg hne, if_neg fun h => hm h.2.2]

/-! ### Words -/

@[simp] theorem length_bytesOfWord (w : UInt64) : (bytesOfWord w).length = 8 := rfl

/-- The eight bytes of a word make it up again. -/
theorem word_recombine (w : UInt64) :
    w.toUInt8.toUInt64 + (w >>> 8).toUInt8.toUInt64 <<< (8 : UInt64)
      + (w >>> 16).toUInt8.toUInt64 <<< (16 : UInt64)
      + (w >>> 24).toUInt8.toUInt64 <<< (24 : UInt64)
      + (w >>> 32).toUInt8.toUInt64 <<< (32 : UInt64)
      + (w >>> 40).toUInt8.toUInt64 <<< (40 : UInt64)
      + (w >>> 48).toUInt8.toUInt64 <<< (48 : UInt64)
      + (w >>> 56).toUInt8.toUInt64 <<< (56 : UInt64) = w := by
  apply UInt64.toNat_inj.mp
  have hw := w.toNat_lt
  simp only [UInt64.toNat_add, UInt64.toNat_shiftLeft, UInt8.toNat_toUInt64, UInt64.toNat_toUInt8,
    UInt64.toNat_shiftRight, UInt64.toNat_ofNat, Nat.shiftRight_eq_div_pow, Nat.shiftLeft_eq]
  simp only [Nat.reduceMod, Nat.reducePow] at *
  omega

/-- A word that lies in the memory reads back as it was written. -/
theorem word_setWord {m : Memory} {a : Nat} (w : UInt64) (h : m.Covers a 8) :
    (m.setWord a w).word a = w := by
  have hbyte : ∀ i (hi : i < 8), (m.setWord a w).byteAt (a + i) = (bytesOfWord w)[i] := by
    intro i hi
    have hcovers : m.Covers (a + i) 1 := by
      simp only [Covers] at h ⊢
      omega
    rw [setWord, byteAt_write, if_pos ⟨by omega, hcovers⟩, Nat.add_sub_cancel_left,
      List.getElem?_eq_getElem (by simpa using hi)]
    rfl
  have h0 : (m.setWord a w).byteAt a = w.toUInt8 := hbyte 0 (by omega)
  simp only [word, h0, hbyte 1 (by omega), hbyte 2 (by omega), hbyte 3 (by omega),
    hbyte 4 (by omega), hbyte 5 (by omega), hbyte 6 (by omega), hbyte 7 (by omega)]
  exact word_recombine w

/-- Writing a word changes only its own eight bytes. -/
theorem byteAt_setWord_of_outside {m : Memory} {a c : Nat} (w : UInt64)
    (h : c < a ∨ a + 8 ≤ c) : (m.setWord a w).byteAt c = m.byteAt c := by
  rw [setWord, byteAt_write]
  split
  · next hc =>
    rw [List.getElem?_eq_none (by rw [length_bytesOfWord]; omega)]
    rfl
  · rfl

/-- A word is read from its own eight bytes only. -/
theorem word_congr {m m' : Memory} {a : Nat}
    (h : ∀ c, a ≤ c → c < a + 8 → m.byteAt c = m'.byteAt c) : m.word a = m'.word a := by
  simp only [word, h a (by omega) (by omega), h (a + 1) (by omega) (by omega),
    h (a + 2) (by omega) (by omega), h (a + 3) (by omega) (by omega),
    h (a + 4) (by omega) (by omega), h (a + 5) (by omega) (by omega),
    h (a + 6) (by omega) (by omega), h (a + 7) (by omega) (by omega)]

/-- Writing a word leaves a word that does not overlap it as it was. -/
theorem word_setWord_of_disjoint {m : Memory} {a c : Nat} (w : UInt64)
    (h : c + 8 ≤ a ∨ a + 8 ≤ c) : (m.setWord a w).word c = m.word c :=
  word_congr fun d h1 h2 => byteAt_setWord_of_outside w (by omega)

/-- A byte that is put above a word with room for it there does not carry. -/
theorem toNat_add_byte {s shift : UInt64} {place : Nat} (b : UInt8)
    (hplace : 1 <<< shift.toNat = place) (hshift : shift.toNat < 64)
    (hroom : place * 256 ≤ 0x10000000000000000) (hs : s.toNat < place) :
    (s + b.toUInt64 <<< shift).toNat = s.toNat + place * b.toNat ∧
      (s + b.toUInt64 <<< shift).toNat < place * 256 := by
  have hb := b.toNat_lt
  have hle : place * (b.toNat + 1) ≤ place * 256 := Nat.mul_le_mul_left _ (by omega)
  rw [Nat.mul_add, Nat.mul_one] at hle
  rw [Nat.shiftLeft_eq, Nat.one_mul] at hplace
  have hshifted : (b.toUInt64 <<< shift).toNat = place * b.toNat := by
    rw [UInt64.toNat_shiftLeft, UInt8.toNat_toUInt64, Nat.mod_eq_of_lt hshift, Nat.shiftLeft_eq,
      hplace, Nat.mul_comm, Nat.mod_eq_of_lt (by omega)]
  rw [UInt64.toNat_add, hshifted, Nat.mod_eq_of_lt (by omega)]
  exact ⟨rfl, by omega⟩

/-- The number of a word is that of its bytes in base 256. -/
theorem toNat_word (m : Memory) (a : Nat) :
    (m.word a).toNat = (m.byteAt a).toNat + 0x100 * (m.byteAt (a + 1)).toNat
      + 0x10000 * (m.byteAt (a + 2)).toNat + 0x1000000 * (m.byteAt (a + 3)).toNat
      + 0x100000000 * (m.byteAt (a + 4)).toNat + 0x10000000000 * (m.byteAt (a + 5)).toNat
      + 0x1000000000000 * (m.byteAt (a + 6)).toNat
      + 0x100000000000000 * (m.byteAt (a + 7)).toNat := by
  obtain ⟨h1, l1⟩ := @toNat_add_byte (m.byteAt a).toUInt64 8 _ (m.byteAt (a + 1)) rfl (by decide)
    (by decide) (m.byteAt a).toNat_lt
  obtain ⟨h2, l2⟩ := @toNat_add_byte _ 16 _ (m.byteAt (a + 2)) rfl (by decide) (by decide) l1
  obtain ⟨h3, l3⟩ := @toNat_add_byte _ 24 _ (m.byteAt (a + 3)) rfl (by decide) (by decide) l2
  obtain ⟨h4, l4⟩ := @toNat_add_byte _ 32 _ (m.byteAt (a + 4)) rfl (by decide) (by decide) l3
  obtain ⟨h5, l5⟩ := @toNat_add_byte _ 40 _ (m.byteAt (a + 5)) rfl (by decide) (by decide) l4
  obtain ⟨h6, l6⟩ := @toNat_add_byte _ 48 _ (m.byteAt (a + 6)) rfl (by decide) (by decide) l5
  obtain ⟨h7, -⟩ := @toNat_add_byte _ 56 _ (m.byteAt (a + 7)) rfl (by decide) (by decide) l6
  rw [word, h7, h6, h5, h4, h3, h2, h1, UInt8.toNat_toUInt64]
  rfl

/-- The bytes of the word at an address are those that are there. -/
theorem bytesOfWord_word (m : Memory) (a : Nat) : bytesOfWord (m.word a) = m.read a 8 := by
  have hread : m.read a 8 = [m.byteAt a, m.byteAt (a + 1), m.byteAt (a + 2), m.byteAt (a + 3),
      m.byteAt (a + 4), m.byteAt (a + 5), m.byteAt (a + 6), m.byteAt (a + 7)] := rfl
  have hlt : ∀ c, (m.byteAt c).toNat < 256 := fun c => (m.byteAt c).toNat_lt
  have h0 := hlt a
  have h1 := hlt (a + 1)
  have h2 := hlt (a + 2)
  have h3 := hlt (a + 3)
  have h4 := hlt (a + 4)
  have h5 := hlt (a + 5)
  have h6 := hlt (a + 6)
  have h7 := hlt (a + 7)
  rw [hread]
  simp only [bytesOfWord, List.cons.injEq, and_true, ← UInt8.toNat_inj, UInt64.toNat_toUInt8,
    UInt64.toNat_shiftRight, UInt64.toNat_ofNat, Nat.shiftRight_eq_div_pow, toNat_word]
  simp only [Nat.reduceMod, Nat.reducePow]
  refine ⟨?_, ?_, ?_, ?_, ?_, ?_, ?_, ?_⟩ <;> omega

/-- Where two memories have the same word they have the same bytes. -/
theorem byteAt_eq_of_word_eq {m m' : Memory} {a i : Nat} (h : m.word a = m'.word a) (hi : i < 8) :
    m.byteAt (a + i) = m'.byteAt (a + i) := by
  have hread : ∀ m : Memory, (bytesOfWord (m.word a))[i]? = some (m.byteAt (a + i)) := by
    intro m
    rw [bytesOfWord_word, read, List.getElem?_map, List.getElem?_range hi]
    rfl
  have hbytes := hread m
  rw [h, hread m', Option.some.injEq] at hbytes
  exact hbytes.symm

/-- A word without a byte other than zero is zero. -/
theorem word_eq_zero {m : Memory} {a : Nat} (h : ∀ c, a ≤ c → c < a + 8 → m.byteAt c = 0) :
    m.word a = 0 := by
  have hcleared : m.word a = m.cleared.word a :=
    word_congr fun c h1 h2 => (h c h1 h2).trans (byteAt_cleared m c).symm
  rw [hcleared]
  simp [word]

-- From here on words are known by the facts above only.
attribute [irreducible] word setWord

end Memory

end FirstFit
