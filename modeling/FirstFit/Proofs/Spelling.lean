/-
How settings are spelt.

The texts of the variables are read by dropping, folding and comparing.  Here it is said what a
text looks like that is read: white space around the rest (`Text.Trimmed`), a decimal numeral
(`Text.Numeral`), a name in letters of either case (`Text.Spelt`).  Each reader accepts the texts
of its kind and no others, and finds what they denote.
-/
import Mathlib.Data.List.DropRight
import Mathlib.Data.List.Forall2
import Mathlib.Data.Nat.Digits.Lemmas
import FirstFit.Config.Reading

namespace FirstFit

namespace Text

/-! ### White space -/

/-- What is left of a whole text without the white space at its ends. -/
structure Trimmed (whole text : List Char) : Prop where
  exists_around : ∃ before after, whole = before ++ text ++ after ∧
    (∀ c ∈ before, isBlank c = true) ∧ ∀ c ∈ after, isBlank c = true
  head : ∀ c ∈ text.head?, isBlank c = false
  last : ∀ c ∈ text.getLast?, isBlank c = false

theorem trimmed_trim (whole : List Char) : Trimmed whole (trim whole) := by
  have hback : trim whole ++ (whole.dropWhile isBlank).rtakeWhile isBlank =
      whole.dropWhile isBlank := List.rdropWhile_append_rtakeWhile
  refine ⟨⟨whole.takeWhile isBlank, (whole.dropWhile isBlank).rtakeWhile isBlank, ?_,
    fun c => List.mem_takeWhile_imp, fun c => List.mem_rtakeWhile_imp⟩, ?_, ?_⟩
  · rw [List.append_assoc, hback, List.takeWhile_append_dropWhile]
  · intro c hc
    obtain ⟨rest, hrest⟩ := List.head?_eq_some_iff.mp hc
    have hhead := List.head?_dropWhile_not isBlank whole
    rw [← hback, hrest] at hhead
    exact hhead
  · intro c hc
    have hne : trim whole ≠ [] := List.ne_nil_of_mem (List.mem_of_getLast? hc)
    have hlast := List.rdropWhile_last_not isBlank (whole.dropWhile isBlank) hne
    rw [List.getLast?_eq_some_getLast hne] at hc
    rw [← Option.some.inj hc]
    exact Bool.eq_false_of_not_eq_true hlast

/-- Nothing is dropped from a text that starts with another character. -/
theorem dropWhile_isBlank_append {text : List Char} (rest : List Char) (hne : text ≠ [])
    (hhead : ∀ c ∈ text.head?, isBlank c = false) :
    (text ++ rest).dropWhile isBlank = text ++ rest := by
  cases text with
  | nil => exact absurd rfl hne
  | cons c text => rw [List.cons_append, List.dropWhile_cons_of_neg (by simp [hhead c rfl])]

/-- What is left is determined by the whole text. -/
theorem Trimmed.trim_eq {whole text : List Char} (h : Trimmed whole text) : trim whole = text := by
  obtain ⟨before, after, rfl, hbefore, hafter⟩ := h.exists_around
  rw [trim, List.append_assoc, List.dropWhile_append_of_pos hbefore]
  by_cases hne : text = []
  · subst hne
    rw [List.nil_append, List.dropWhile_eq_nil_iff.mpr hafter]
    rfl
  · have hlast : ∀ c ∈ text.reverse.head?, isBlank c = false := by
      rw [List.head?_reverse]
      exact h.last
    have hdrop := dropWhile_isBlank_append [] (List.reverse_ne_nil_iff.mpr hne) hlast
    rw [List.append_nil] at hdrop
    rw [dropWhile_isBlank_append after hne h.head, List.reverse_append,
      List.dropWhile_append_of_pos (fun c hc => hafter c (List.mem_reverse.mp hc)), hdrop,
      List.reverse_reverse]

theorem trimmed_iff {whole text : List Char} : Trimmed whole text ↔ trim whole = text :=
  ⟨Trimmed.trim_eq, fun h => h ▸ trimmed_trim whole⟩

/-- A text without white space is left as it is. -/
theorem trimmed_self {text : List Char} (h : ∀ c ∈ text, isBlank c = false) : Trimmed text text :=
  ⟨⟨[], [], by simp, by simp, by simp⟩, fun c hc => h c (List.mem_of_head? hc),
    fun c hc => h c (List.mem_of_getLast? hc)⟩

/-! ### Numerals -/

/-- The character of a digit. -/
def digit (d : Fin 10) : Char := Char.ofNat (48 + d)

/-- A decimal numeral of `n`, with leading zeros or without: one digit or more, of which the last
one counts the units, and a plus in front of them or not. -/
def Numeral (text : List Char) (n : Nat) : Prop :=
  ∃ ds : List (Fin 10), ds ≠ [] ∧ (text = ds.map digit ∨ text = '+' :: ds.map digit) ∧
    Nat.ofDigits 10 (ds.reverse.map Fin.val) = n

theorem digit_spec : ∀ d : Fin 10, (digit d).isDigit = true ∧ digit d ≠ '+' ∧
    (digit d).toNat - '0'.toNat = d ∧ isBlank (digit d) = false := by
  decide

theorem digit_of_isDigit {c : Char} (hc : c.isDigit = true) :
    digit (Fin.ofNat 10 (c.toNat - '0'.toNat)) = c := by
  have hbounds : 48 ≤ c.toNat ∧ c.toNat ≤ 57 := by
    simpa [Char.isDigit, UInt32.le_iff_toNat_le] using hc
  have hvalue : 48 + (c.toNat - 48) % 10 = c.toNat := by omega
  show Char.ofNat (48 + (c.toNat - 48) % 10) = c
  rw [hvalue, Char.ofNat_toNat]

/-- Read from the left, each digit makes ten times what there was of those before it. -/
theorem foldl_digit (ds : List (Fin 10)) :
    (ds.map digit).foldl (fun n c => 10 * n + (c.toNat - '0'.toNat)) 0 =
      Nat.ofDigits 10 (ds.reverse.map Fin.val) := by
  induction ds using List.reverseRecOn with
  | nil => rfl
  | append_singleton ds d ih =>
    rw [List.map_append, List.foldl_append, ih, List.reverse_append, List.map_append,
      List.reverse_singleton, List.map_singleton, List.map_singleton, List.singleton_append,
      Nat.ofDigits_cons, List.foldl_cons, List.foldl_nil, (digit_spec d).2.2.1, Nat.add_comm]

end Text

namespace Setting

open Text

theorem digits?_eq_some_iff {cs : List Char} {n : Nat} :
    digits? cs = some n ↔ ∃ ds : List (Fin 10), ds ≠ [] ∧ cs = ds.map digit ∧
      Nat.ofDigits 10 (ds.reverse.map Fin.val) = n := by
  unfold digits?
  constructor
  · intro h
    split at h
    · cases h
    · next hdigits =>
      simp only [List.isEmpty_iff, List.any_eq_true, Bool.not_eq_true', not_or, not_exists,
        not_and, Bool.not_eq_false] at hdigits
      have hcs : cs = (cs.map fun c => Fin.ofNat 10 (c.toNat - '0'.toNat)).map digit := by
        conv_lhs => rw [← List.map_id cs]
        rw [List.map_map]
        exact List.map_congr_left fun c hc => (digit_of_isDigit (hdigits.2 c hc)).symm
      refine ⟨_, by simp [hdigits.1], hcs, ?_⟩
      rw [← foldl_digit, ← hcs]
      exact Option.some.inj h
  · intro h
    obtain ⟨ds, hne, rfl, rfl⟩ := h
    rw [if_neg, foldl_digit]
    simp [hne, (digit_spec _).1]

/-- The numbers read are those of the numerals, as far as they are words. -/
theorem word?_eq_some_iff {cs : List Char} {n : Nat} :
    word? cs = some n ↔ Numeral cs n ∧ n < 2 ^ 64 := by
  have hdigits : ∀ text : List Char,
      (do let n ← digits? text; if n < 0x10000000000000000 then some n else none) = some n ↔
        (∃ ds : List (Fin 10), ds ≠ [] ∧ text = ds.map digit ∧
          Nat.ofDigits 10 (ds.reverse.map Fin.val) = n) ∧ n < 2 ^ 64 := by
    intro text
    rw [← digits?_eq_some_iff]
    simp only [Option.bind_eq_bind, Option.bind_eq_some_iff, Option.ite_none_right_eq_some,
      Option.some.injEq]
    constructor
    · rintro ⟨m, hm, hlt, rfl⟩
      exact ⟨hm, hlt⟩
    · rintro ⟨hm, hlt⟩
      exact ⟨n, hm, hlt, rfl⟩
  unfold word?
  rw [hdigits, Numeral]
  refine and_congr_left fun _ => exists_congr fun ds => and_congr_right fun hne =>
    and_congr_left fun _ => ?_
  split
  · next rest =>
    have hplus : '+' :: rest ≠ ds.map digit := by
      cases ds with
      | nil => exact absurd rfl hne
      | cons d ds => exact fun h => (digit_spec d).2.1 (List.cons.inj h).1.symm
    simp [hplus]
  · next hplus =>
    exact ⟨.inl, fun h => h.resolve_right fun hcons => hplus _ hcons⟩

end Setting

/-! ### Names -/

/-- The text is a name, in letters of either case. -/
def Text.Spelt (name : String) (text : List Char) : Prop :=
  List.Forall₂ (fun letter c => c = letter ∨ c = letter.toUpper) name.toList text

/-- How it is written when to verify. -/
def Verify.names : Verify → List String
  | ⟨false, false⟩ => ["none"]
  | ⟨true, false⟩ => ["alloc"]
  | ⟨false, true⟩ => ["release", "free"]
  | ⟨true, true⟩ => ["always"]

namespace Setting

open Text

/-- How a choice is written. -/
def switchNames : Bool → List String
  | true => ["1", "true"]
  | false => ["0", "false"]

theorem toNat_toLower (c : Char) :
    c.toLower.toNat = if 65 ≤ c.toNat ∧ c.toNat ≤ 90 then c.toNat + 32 else c.toNat := by
  have hbounds : (c.val ≥ 'A'.val ∧ c.val ≤ 'Z'.val) ↔ 65 ≤ c.toNat ∧ c.toNat ≤ 90 := by
    simp [UInt32.le_iff_toNat_le]
  unfold Char.toLower
  split
  · next hc =>
    have hle := (hbounds.mp hc).2
    rw [if_pos (hbounds.mp hc)]
    show (c.toNat + 32) % 4294967296 = c.toNat + 32
    omega
  · next hc => rw [if_neg (fun h => hc (hbounds.mpr h))]

theorem toNat_toUpper (c : Char) :
    c.toUpper.toNat = if 97 ≤ c.toNat ∧ c.toNat ≤ 122 then c.toNat - 32 else c.toNat := by
  have hbounds : ('a'.val ≤ c.val ∧ c.val ≤ 'z'.val) ↔ 97 ≤ c.toNat ∧ c.toNat ≤ 122 := by
    simp [UInt32.le_iff_toNat_le]
  unfold Char.toUpper
  split
  · next hc =>
    have hboth := hbounds.mp hc
    rw [if_pos hboth]
    have hstep : ('A'.val - 'a'.val).toNat = 4294967264 := by decide
    show (c.val + ('A'.val - 'a'.val)).toNat = _
    rw [UInt32.toNat_add, hstep, ← Char.toNat]
    omega
  · next hc => rw [if_neg (fun h => hc (hbounds.mpr h))]

theorem toNat_of_isLower {c : Char} (hc : c.isLower = true) : 97 ≤ c.toNat ∧ c.toNat ≤ 122 := by
  obtain ⟨hlow, hhigh⟩ := Bool.and_eq_true_iff.mp hc
  exact ⟨of_decide_eq_true hlow, of_decide_eq_true hhigh⟩

/-- The characters that are made a small letter are that letter and its capital. -/
theorem toLower_eq_iff {letter c : Char} (hletter : letter.isLower = true) :
    c.toLower = letter ↔ c = letter ∨ c = letter.toUpper := by
  have hbounds := toNat_of_isLower hletter
  rw [← Char.toNat_inj, ← Char.toNat_inj, ← Char.toNat_inj, toNat_toLower, toNat_toUpper,
    if_pos hbounds]
  split <;> omega

theorem spelt_iff {name : String} {cs : List Char}
    (hname : ∀ letter ∈ name.toList, letter.isLower = true) :
    Spelt name cs ↔ String.ofList (cs.map Char.toLower) = name := by
  have hlower : Spelt name cs ↔ name.toList = cs.map Char.toLower := by
    unfold Spelt
    generalize name.toList = letters at hname
    induction letters generalizing cs with
    | nil => simp [eq_comm]
    | cons letter letters ih =>
      obtain ⟨hletter, hletters⟩ := List.forall_mem_cons.mp hname
      cases cs with
      | nil => simp
      | cons c cs =>
        rw [List.forall₂_cons, List.map_cons, List.cons.injEq, ih hletters, eq_comm (a := letter),
          toLower_eq_iff hletter]
  rw [hlower]
  constructor
  · intro h
    rw [← h, String.ofList_toList]
  · rintro rfl
    rw [String.toList_ofList]

theorem mem_names_iff {name : String} :
    name ∈ ["none", "alloc", "release", "free", "always"] ↔
      ∃ verify : Verify, name ∈ verify.names := by
  constructor
  · simp only [List.mem_cons, List.not_mem_nil, or_false]
    rintro (rfl | rfl | rfl | rfl | rfl)
    · exact ⟨.never, by decide⟩
    · exact ⟨.allocate, by decide⟩
    · exact ⟨.release, by decide⟩
    · exact ⟨.release, by decide⟩
    · exact ⟨.always, by decide⟩
  · rintro ⟨⟨afterAllocate, afterRelease⟩, hname⟩
    cases afterAllocate <;> cases afterRelease <;> revert name <;> decide

theorem mem_switchNames_iff {name : String} :
    name ∈ ["1", "true", "0", "false"] ↔ ∃ capture, name ∈ switchNames capture := by
  rw [Bool.exists_bool, or_comm, ← List.mem_append]
  rfl

theorem isLower_of_mem_names {verify : Verify} {name : String} (hname : name ∈ verify.names) :
    ∀ letter ∈ name.toList, letter.isLower = true := by
  have hall : ∀ name ∈ ["none", "alloc", "release", "free", "always"],
      name.toList.all Char.isLower = true := by decide
  exact List.all_eq_true.mp (hall name (mem_names_iff.mpr ⟨verify, hname⟩))

theorem not_blank_of_isLower {c : Char} (hc : c.isLower = true) : isBlank c = false := by
  have hbounds := toNat_of_isLower hc
  refine List.any_eq_false.mpr fun range hrange => ?_
  have hapart : range.2 < 97 ∨ 122 < range.1 := by
    revert range
    decide
  simp only [Bool.and_eq_true, decide_eq_true_eq]
  omega

theorem verify?_eq_some_iff {cs : List Char} {verify : Verify} :
    verify? cs = some verify ↔ ∃ name ∈ verify.names, Spelt name cs := by
  have hread : verify? cs = some verify ↔ String.ofList (cs.map Char.toLower) ∈ verify.names := by
    obtain ⟨afterAllocate, afterRelease⟩ := verify
    unfold verify?
    generalize String.ofList (cs.map Char.toLower) = text
    split <;> cases afterAllocate <;> cases afterRelease <;>
      simp_all [Verify.names, Verify.never, Verify.allocate, Verify.release, Verify.always]
  rw [hread]
  constructor
  · intro h
    exact ⟨_, h, (spelt_iff (isLower_of_mem_names h)).mpr rfl⟩
  · rintro ⟨name, hname, hspelt⟩
    rwa [(spelt_iff (isLower_of_mem_names hname)).mp hspelt]

theorem not_blank_of_mem_switchNames {capture : Bool} {name : String}
    (hname : name ∈ switchNames capture) : ∀ c ∈ name.toList, isBlank c = false := by
  have hall : ∀ name ∈ ["1", "true", "0", "false"],
      (name.toList.all fun c => !isBlank c) = true := by decide
  simpa using hall name (mem_switchNames_iff.mpr ⟨capture, hname⟩)

theorem switch?_eq_some_iff {cs : List Char} {capture : Bool} :
    switch? cs = some capture ↔ ∃ name ∈ switchNames capture, name.toList = cs := by
  have hread : switch? cs = some capture ↔ String.ofList cs ∈ switchNames capture := by
    unfold switch?
    generalize String.ofList cs = text
    split <;> cases capture <;> simp_all [switchNames]
  rw [hread]
  constructor
  · intro h
    exact ⟨_, h, String.toList_ofList⟩
  · rintro ⟨name, hname, rfl⟩
    rwa [String.ofList_toList]

end Setting

end FirstFit
