/-
Tokens are in one place only.

An arena keeps no list of the tokens it has been given; each is in the header of its block, and
headers are cut off, absorbed and wiped.  So that no token is lost and none is given back
twice is a fact about whole histories.  `Custody` is the book that somebody would keep who
sees nothing but the steps and their answers: for each block that is out its address and its
token, and every call that the tracer should have had.  `Arena.conserves_tokens` says that
the book is right, whatever the tracer answers.

For snapshots in slots it follows that the store holds one for each live block
(`Custody.issued_of`), and that no two live blocks have the same.
-/
import Mathlib.Data.List.Nodup
import FirstFit.Proofs.Accounting
import FirstFit.Proofs.Slots
import FirstFit.Proofs.Tenancy

namespace FirstFit

/-! ### The book -/

/-- A call that is made to a tracer. -/
inductive Tracer.Call
  | capture
  | discard (token : Token)
  deriving DecidableEq

/-- The token a call gives back, if it is one that does. -/
def Tracer.Call.token? : Tracer.Call → Option Token
  | .capture => none
  | .discard token => some token

/-- The tracer after a call. -/
def Tracer.called {τ : Type} [Tracer τ] (tracer : τ) : Tracer.Call → τ
  | .capture => (Tracer.capture tracer).2
  | .discard token => Tracer.discard tracer token

/-- What is known of the tokens from the steps alone. -/
structure Custody (τ : Type) where
  tracer : τ
  /-- The address of each block that is out, with its token. -/
  held : List (Nat × Option Token) := []
  /-- The tokens of the blocks that came back, the last one last. -/
  returned : List (Option Token) := []
  /-- What the tracer was asked for, the last call last. -/
  calls : List Tracer.Call := []

namespace Custody

variable {τ : Type} [Tracer τ]

/-- A block was handed out: its token is captured, if callers are recorded. -/
def handOut (book : Custody τ) (capture : Bool) (address : Nat) : Custody τ :=
  if capture then
    { book with
      tracer := (Tracer.capture book.tracer).2
      held := (address, (Tracer.capture book.tracer).1) :: book.held
      calls := book.calls ++ [.capture] }
  else
    { book with held := (address, none) :: book.held }

/-- A block came back: its token is discarded, if it has one. -/
def takeBack (book : Custody τ) (entry : Nat × Option Token) : Custody τ where
  tracer := Tracer.dropped book.tracer entry.2
  held := book.held.erase entry
  returned := book.returned ++ [entry.2]
  calls := book.calls ++ (entry.2.map Tracer.Call.discard).toList

/-- What the book says after one more step with its answer. -/
def after (capture : Bool) (book : Custody τ) : Step × Option Nat → Custody τ
  | (.allocate _, some address) => book.handOut capture address
  | (.release address, _) =>
    match book.held.find? fun entry => entry.1 == address with
    | some entry => book.takeBack entry
    | none => book
  | _ => book

/-- The book of a whole history. -/
def of (capture : Bool) (tracer : τ) (history : List (Step × Option Nat)) : Custody τ :=
  history.foldl (after capture) { tracer }

variable {capture : Bool} {tracer : τ} {history : List (Step × Option Nat)}
  {x : Step × Option Nat} {book : Custody τ} {entry : Nat × Option Token} {address : Nat}

theorem of_concat :
    of capture tracer (history ++ [x]) = (of capture tracer history).after capture x := by
  rw [of, List.foldl_concat]
  rfl

/-- A step hands a block out, takes one back that is out, or is not written down. -/
theorem after_cases (capture : Bool) (book : Custody τ) (x : Step × Option Nat) :
    (∃ n address, x = (.allocate n, some address) ∧
      book.after capture x = book.handOut capture address) ∨
    (∃ address answer entry, x = (.release address, answer) ∧ entry ∈ book.held ∧
      entry.1 = address ∧ book.after capture x = book.takeBack entry) ∨
    x.1.grants x.2 = false ∧ book.after capture x = book ∧
      ∀ address answer, x = (.release address, answer) → ∀ token, (address, token) ∉ book.held := by
  obtain ⟨s, answer⟩ := x
  cases s with
  | allocate n =>
    cases answer with
    | some address => exact .inl ⟨n, address, rfl, rfl⟩
    | none => exact .inr (.inr ⟨rfl, rfl, by simp⟩)
  | release address =>
    cases hfind : book.held.find? fun entry => entry.1 == address with
    | some entry =>
      refine .inr (.inl ⟨address, answer, entry, rfl, List.mem_of_find?_eq_some hfind, ?_, ?_⟩)
      · simpa using List.find?_some hfind
      · simp [after, hfind]
    | none =>
      refine .inr (.inr ⟨rfl, by simp [after, hfind], ?_⟩)
      intro address' answer' heq token hmem
      cases heq
      have hnot := List.find?_eq_none.mp hfind _ hmem
      simp at hnot
  | resetPeaks => exact .inr (.inr ⟨rfl, by cases answer <;> rfl, by simp⟩)
  | write start bytes => exact .inr (.inr ⟨rfl, by cases answer <;> rfl, by simp⟩)

/-! ### What the book says of itself -/

theorem tracer_of : (of capture tracer history).tracer =
    (of capture tracer history).calls.foldl Tracer.called tracer := by
  induction history using List.reverseRecOn with
  | nil => rfl
  | append_singleton before x ih =>
    rw [of_concat]
    rcases after_cases capture (of capture tracer before) x with
      ⟨n, address, -, hafter⟩ | ⟨address, answer, entry, -, -, -, hafter⟩ | ⟨-, hafter, -⟩
    · rw [hafter]
      unfold handOut
      split
      · rw [List.foldl_concat, ← ih]
        rfl
      · exact ih
    · rw [hafter]
      unfold takeBack
      rw [List.foldl_append, ← ih]
      cases entry.2 <;> rfl
    · rw [hafter]
      exact ih

theorem count_capture_of : (of true tracer history).calls.count .capture =
    history.countP fun x => x.1.grants x.2 := by
  induction history using List.reverseRecOn with
  | nil => rfl
  | append_singleton before x ih =>
    rw [of_concat, List.countP_append, List.countP_singleton, ← ih]
    rcases after_cases true (of true tracer before) x with
      ⟨n, address, rfl, hafter⟩ | ⟨address, answer, entry, rfl, -, -, hafter⟩ | ⟨hgrants, hafter, -⟩
    · rw [hafter]
      simp [handOut, Step.grants]
    · rw [hafter]
      cases hentry : entry.2 <;> simp [takeBack, Step.grants, hentry]
    · rw [hafter, hgrants]
      rfl

/-- What is discarded is what came back, in that order. -/
theorem discards_of : (of capture tracer history).calls.filterMap Tracer.Call.token? =
    (of capture tracer history).returned.filterMap id := by
  induction history using List.reverseRecOn with
  | nil => rfl
  | append_singleton before x ih =>
    rw [of_concat]
    rcases after_cases capture (of capture tracer before) x with
      ⟨n, address, -, hafter⟩ | ⟨address, answer, entry, -, -, -, hafter⟩ | ⟨-, hafter, -⟩
    · rw [hafter]
      unfold handOut
      split
      · rw [List.filterMap_append, ih]
        exact List.append_nil _
      · exact ih
    · rw [hafter]
      cases hentry : entry.2 <;> simp [takeBack, hentry, Tracer.Call.token?, ih]
    · rw [hafter]
      exact ih

/-- Without captures there is nothing to give back. -/
theorem calls_of_false : (of false tracer history).calls = [] ∧
    ∀ entry ∈ (of false tracer history).held, entry.2 = none := by
  induction history using List.reverseRecOn with
  | nil => exact ⟨rfl, by simp [of]⟩
  | append_singleton before x ih =>
    obtain ⟨hcalls, hnone⟩ := ih
    rw [of_concat]
    rcases after_cases false (of false tracer before) x with
      ⟨n, address, -, hafter⟩ | ⟨address, answer, entry, -, hentry, -, hafter⟩ | ⟨-, hafter, -⟩
    · rw [hafter]
      refine ⟨hcalls, fun other hother => ?_⟩
      rcases List.mem_cons.mp hother with rfl | hother
      · rfl
      · exact hnone other hother
    · rw [hafter]
      refine ⟨?_, fun other hother => hnone other (List.mem_of_mem_erase hother)⟩
      simp [takeBack, hcalls, hnone entry hentry]
    · rw [hafter]
      exact ⟨hcalls, hnone⟩

/-! ### Snapshots in slots -/

/-- The number of the slot an entry stands for. -/
def slot (entry : Nat × Option Token) : Nat := entry.2.elim 0 Token.toNat

/-- What a store holds is what is out: one snapshot for each block. -/
structure Stored (book : Custody SlotStore) (steps : Nat) : Prop where
  issued : book.tracer.Issued (book.held.map slot)
  some_token : ∀ entry ∈ book.held, entry.2.isSome = true
  taken_le : book.tracer.taken ≤ steps

theorem Stored.handOut {book : Custody SlotStore} {steps : Nat} (h : book.Stored steps)
    (hsteps : steps + 1 < 2 ^ 64) (address : Nat) :
    (book.handOut true address).Stored (steps + 1) := by
  have hle := h.taken_le
  have hcapture := h.issued.capture_le
  obtain ⟨token, htoken, hnumber⟩ := Token.exists_ofNat?
    (SlotStore.Sound.capture_pos book.tracer) (by omega)
  have hanswer : (Tracer.capture book.tracer).1 = some token := htoken
  unfold Custody.handOut
  rw [if_pos rfl, hanswer]
  refine ⟨?_, fun entry hentry => ?_, ?_⟩
  · have hissued := h.issued.capture
    rw [← hnumber] at hissued
    exact hissued
  · rcases List.mem_cons.mp hentry with rfl | hentry
    · rfl
    · exact h.some_token entry hentry
  · have htaken := SlotStore.Sound.taken_capture book.tracer
    show book.tracer.capture.2.taken ≤ _
    omega

theorem Stored.takeBack {book : Custody SlotStore} {steps : Nat} (h : book.Stored steps)
    (hentry : entry ∈ book.held) : (book.takeBack entry).Stored (steps + 1) := by
  have hperm := (List.perm_cons_erase hentry).map slot
  rw [List.map_cons] at hperm
  have hissued := (h.issued.perm hperm).discard
  obtain ⟨token, htoken⟩ := Option.isSome_iff_exists.mp (h.some_token entry hentry)
  have hslot : slot entry = token.toNat := by simp [slot, htoken]
  have htracer : (book.takeBack entry).tracer = book.tracer.discard (slot entry) := by
    rw [hslot, Custody.takeBack, htoken]
    rfl
  refine ⟨?_, fun other hother => h.some_token other (List.mem_of_mem_erase hother), ?_⟩
  · rw [htracer]
    exact hissued
  · rw [htracer, SlotStore.Sound.taken_discard]
    exact Nat.le_succ_of_le h.taken_le

/-- **A store that starts empty holds one snapshot for each block that is out.** -/
theorem stored_of (hlength : history.length < 2 ^ 64) :
    (of true ({} : SlotStore) history).Stored history.length := by
  induction history using List.reverseRecOn with
  | nil => exact ⟨SlotStore.issued_empty, by simp [of], Nat.le_refl _⟩
  | append_singleton before x ih =>
    rw [List.length_append, List.length_singleton] at hlength ⊢
    have hbefore := ih (by omega)
    rw [of_concat]
    rcases after_cases true (of true ({} : SlotStore) before) x with
      ⟨n, address, -, hafter⟩ | ⟨address, answer, entry, -, hentry, -, hafter⟩ | ⟨-, hafter, -⟩
    · rw [hafter]
      exact hbefore.handOut hlength address
    · rw [hafter]
      exact hbefore.takeBack hentry
    · rw [hafter]
      exact ⟨hbefore.issued, hbefore.some_token, Nat.le_succ_of_le hbefore.taken_le⟩

/-! ### The book is right -/

variable {arena next first last : Arena τ} {config : Config} {memory : Memory}

/-- The book agrees with an arena. -/
structure Agrees (book : Custody τ) (arena : Arena τ) : Prop where
  tracer : arena.tracer = book.tracer
  mem_held_iff : ∀ address token, (address, token) ∈ book.held ↔ arena.Bears address token
  nodup : (book.held.map Prod.fst).Nodup
  live : arena.stats.live = book.held.length

omit [Tracer τ] in
theorem Agrees.eq_of_address (h : book.Agrees arena) {entry' : Nat × Option Token}
    (hentry : entry ∈ book.held) (hentry' : entry' ∈ book.held) (haddress : entry.1 = entry'.1) :
    entry = entry' :=
  List.inj_on_of_nodup_map h.nodup hentry hentry' haddress

theorem Agrees.handOut {n : Nat} (h : book.Agrees arena)
    (hserves : arena.Serves next (.allocate n) (some address)) (hnext : next.Orderly) :
    (book.handOut arena.config.capture address).Agrees next := by
  have htracer := hserves.captures (by simp)
  have hlive := hserves.live
  have hfresh : address ∉ book.held.map Prod.fst := by
    intro hmem
    obtain ⟨entry, hentry, rfl⟩ := List.mem_map.mp hmem
    obtain ⟨b, hbefore, -⟩ := (h.mem_held_iff entry.1 entry.2).mp hentry
    exact hserves.fresh rfl hbefore
  -- What is written down is what the arena was answered, if it asked.
  have hbook : book.handOut arena.config.capture address =
      { book with
        tracer := arena.captured.2
        held := (address, arena.captured.1) :: book.held
        calls := (book.handOut arena.config.capture address).calls } := by
    unfold Custody.handOut Arena.captured
    rw [h.tracer]
    split <;> rfl
  rw [hbook]
  refine ⟨htracer, fun a token => ?_, List.nodup_cons.mpr ⟨hfresh, h.nodup⟩, ?_⟩
  · rw [List.mem_cons, hserves.bears_iff hnext, h.mem_held_iff, Prod.mk.injEq]
    simp [eq_comm]
  · rw [List.length_cons, ← h.live]
    exact hlive

theorem Agrees.takeBack {answer : Option Nat} (h : book.Agrees arena)
    (hserves : arena.Serves next (.release entry.1) answer) (hnext : next.Orderly)
    (hnone : answer = none) (hentry : entry ∈ book.held) :
    (book.takeBack entry).Agrees next := by
  subst hnone
  obtain ⟨b, hlive, htrace⟩ := (h.mem_held_iff entry.1 entry.2).mp hentry
  have hpos := hlive.address_pos
  have hcount := hserves.live
  have hreclaims : (Step.release entry.1).reclaims = true := by
    simp only [Step.reclaims, bne_iff_ne, ne_eq]
    omega
  rw [if_pos hreclaims] at hcount
  refine ⟨?_, fun a token => ?_, ?_, ?_⟩
  · rw [hserves.discards hlive rfl, h.tracer, htrace]
    rfl
  · have hother : (a, token) ∈ book.held.erase entry ↔
        Step.release entry.1 ≠ .release a ∧ (a, token) ∈ book.held := by
      rw [(List.Nodup.of_map _ h.nodup).mem_erase_iff]
      refine and_congr_left fun hmem => not_congr ⟨fun heq => ?_, fun heq => ?_⟩
      · rw [← heq]
      · exact h.eq_of_address hmem hentry (Step.release.inj heq).symm
    show (a, token) ∈ book.held.erase entry ↔ _
    rw [hother, hserves.bears_iff hnext, h.mem_held_iff]
    simp
  · exact h.nodup.sublist (List.erase_sublist.map Prod.fst)
  · have hlength := List.length_erase_of_mem hentry
    have hlength' := List.length_pos_of_mem hentry
    have hlive' := h.live
    show next.stats.live = (book.held.erase entry).length
    simp only [Step.grants, Bool.false_eq_true, if_false] at hcount
    omega

theorem Agrees.rest {s : Step} (h : book.Agrees arena) (hserves : arena.Serves next s none)
    (hnext : next.Orderly) (hallows : arena.Allows s)
    (hnot : ∀ address, s = .release address → ∀ token, (address, token) ∉ book.held) :
    book.Agrees next := by
  -- What is given back is live, or it is the address of no block.
  have hreclaims : s.reclaims = false := by
    cases s with
    | release address =>
      rcases hallows with rfl | ⟨b, hlive⟩
      · rfl
      · exact absurd ((h.mem_held_iff _ _).mpr ⟨b, hlive, rfl⟩) (hnot address rfl _)
    | _ => rfl
  have hlive := hserves.live
  have hgrants : s.grants none = false := by cases s <;> rfl
  rw [hgrants, hreclaims] at hlive
  refine ⟨(hserves.rests rfl hreclaims).trans h.tracer, fun a token => ?_, h.nodup,
    hlive.trans h.live⟩
  rw [h.mem_held_iff, hserves.bears_iff hnext]
  refine ⟨fun hbears => .inr ⟨fun hs => ?_, hbears⟩, fun hcases => ?_⟩
  · exact hnot a hs token ((h.mem_held_iff a token).mpr hbears)
  · rcases hcases with ⟨hanswer, -⟩ | ⟨-, hbears⟩
    · cases hanswer
    · exact hbears

/-- **A step and its entry keep the book in agreement.** -/
theorem Agrees.after (h : book.Agrees arena) (hserves : arena.Serves next x.1 x.2)
    (hnext : next.Orderly) (hallows : arena.Allows x.1) :
    (book.after arena.config.capture x).Agrees next := by
  obtain ⟨s, answer⟩ := x
  rcases after_cases arena.config.capture book (s, answer) with
    ⟨n, address, heq, hafter⟩ | ⟨address, answer', entry, heq, hentry, rfl, hafter⟩ |
      ⟨hgrants, hafter, hnot⟩
  · cases heq
    rw [hafter]
    exact h.handOut hserves hnext
  · cases heq
    rw [hafter]
    refine h.takeBack hserves hnext ?_ hentry
    by_contra hsome
    obtain ⟨address, hanswer⟩ := Option.ne_none_iff_exists'.mp hsome
    obtain ⟨n, b, hs, -⟩ := hserves.granted hanswer
    cases hs
  · rw [hafter]
    have hanswer : answer = none := by
      by_contra hsome
      obtain ⟨address, hanswer⟩ := Option.ne_none_iff_exists'.mp hsome
      obtain ⟨n, b, hs, -⟩ := hserves.granted hanswer
      subst hs hanswer
      cases hgrants
    subst hanswer
    exact h.rest hserves hnext hallows fun address hs => hnot address none (congrArg (·, none) hs)

/-- The book of a run from the creation on agrees with the arena. -/
theorem agrees_of (hcreate : Arena.create config memory tracer = .ok first)
    (hruns : Arena.Runs first history last) (hlength : history.length < 2 ^ 64) :
    (of config.capture tracer history).Agrees last := by
  obtain ⟨hconfig, htracer⟩ := Arena.settings_of_create hcreate
  have hstats := (Arena.create_eq hcreate).2.1
  induction history using List.reverseRecOn generalizing last with
  | nil =>
    cases hruns
    refine ⟨htracer, fun address token => ?_, List.nodup_nil, by rw [hstats]; rfl⟩
    refine ⟨fun hmem => absurd hmem List.not_mem_nil, fun hbears => ?_⟩
    obtain ⟨b, hlive, -⟩ := hbears
    exact absurd hlive (Arena.not_live_create hcreate)
  | append_singleton before x ih =>
    rw [List.length_append, List.length_singleton] at hlength
    obtain ⟨mid, hbefore, hallows, hrun⟩ := hruns.of_concat
    have hfirst : first.stats.allocs = 0 := by rw [hstats]
    obtain ⟨hmid, hconfig', hle⟩ := hbefore.orderly (Arena.orderly_create hcreate) (by omega)
    obtain ⟨hlast, hserves⟩ := hmid.serves (by omega) hallows hrun
    have hafter := (ih hbefore (by omega)).after hserves hlast hallows
    rw [hconfig', hconfig, ← of_concat] at hafter
    exact hafter

end Custody

/-! ### Conservation -/

namespace Arena

open Custody

variable {τ : Type} [Tracer τ] {config : Config} {memory : Memory}
  {history : List (Step × Option Nat)}

/-- What a history has done with the tokens, and what its book says of it. -/
structure Conserves (book : Custody τ) (initial : τ) (capture : Bool)
    (history : List (Step × Option Nat)) (last : Arena τ) : Prop where
  /-- The tracer was called as the book says, and not otherwise. -/
  tracer : last.tracer = book.calls.foldl Tracer.called initial
  /-- The live blocks are those that are out, and have the tokens that were captured for them. -/
  held : ∀ address token, (address, token) ∈ book.held ↔ last.Bears address token
  once : (book.held.map Prod.fst).Nodup
  free : ∀ b ∈ last.blocks, b.isFree = true → b.header.trace = none
  captures : capture = true →
    book.calls.count .capture = history.countP fun x => x.1.grants x.2
  /-- What was discarded are the tokens of the blocks that came back, in that order. -/
  discards : book.calls.filterMap Tracer.Call.token? = book.returned.filterMap id
  off : capture = false → book.calls = []

/-- Each live block has a snapshot of its own in the store, and the store has no others. -/
structure Stores (last : Arena SlotStore) : Prop where
  live : last.tracer.live = last.stats.live
  held : ∀ address token, last.Bears address token →
    ∃ t, token = some t ∧ (last.tracer.snapshot? t.toNat).isSome = true
  distinct : ∀ address address' token,
    last.Bears address token → last.Bears address' token → address = address'

theorem Runs.conserves {tracer : τ} {first last : Arena τ}
    (hcreate : create config memory tracer = .ok first) (hruns : Runs first history last)
    (hlength : history.length < 2 ^ 64) :
    Conserves (of config.capture tracer history) tracer config.capture history last := by
  have hagrees := agrees_of hcreate hruns hlength
  have hfirst : first.stats.allocs = 0 := by rw [(create_eq hcreate).2.1]
  obtain ⟨hlast, -, -⟩ := hruns.orderly (orderly_create hcreate) (by omega)
  refine ⟨hagrees.tracer.trans tracer_of, hagrees.mem_held_iff, hagrees.nodup, ?_,
    fun hon => ?_, discards_of, fun hoff => ?_⟩
  · intro b hb hfree
    exact hlast.free_untraced hb hfree
  · rw [hon]
    exact count_capture_of
  · rw [hoff]
    exact calls_of_false.1

theorem Runs.stores {first last : Arena SlotStore}
    (hcreate : create config memory ({} : SlotStore) = .ok first) (hruns : Runs first history last)
    (hlength : history.length < 2 ^ 64) (hon : config.capture = true) : Stores last := by
  have hagrees := agrees_of hcreate hruns hlength
  rw [hon] at hagrees
  have hstored := stored_of hlength
  refine ⟨?_, fun address token hbears => ?_, fun address address' token hbears hbears' => ?_⟩
  · rw [hagrees.tracer, hstored.issued.live_eq, List.length_map, hagrees.live]
  · have hentry := (hagrees.mem_held_iff address token).mpr hbears
    obtain ⟨t, rfl⟩ := Option.isSome_iff_exists.mp (hstored.some_token _ hentry)
    refine ⟨t, rfl, ?_⟩
    rw [hagrees.tracer, ← hstored.issued.mem_iff]
    exact List.mem_map_of_mem hentry
  · have hentry := (hagrees.mem_held_iff address token).mpr hbears
    have hentry' := (hagrees.mem_held_iff address' token).mpr hbears'
    have heq := List.inj_on_of_nodup_map hstored.issued.distinct hentry hentry' rfl
    exact congrArg Prod.fst heq

/-- **Tokens are conserved, whatever the tracer answers.**  A token is captured exactly for a
block that is handed out, is the trace of its header for as long as it is live, and is given
back exactly when the block is.  A store of snapshots in slots therefore holds one for each
live block. -/
theorem conserves_tokens (hlength : history.length < 2 ^ 63) :
    (∀ {τ : Type} [Tracer τ] {tracer : τ} {first last : Arena τ},
      create config memory tracer = .ok first → Runs first history last →
        Conserves (of config.capture tracer history) tracer config.capture history last) ∧
    ∀ {first last : Arena SlotStore}, create config memory ({} : SlotStore) = .ok first →
      Runs first history last → config.capture = true → Stores last :=
  ⟨fun hcreate hruns => hruns.conserves hcreate (by omega),
    fun hcreate hruns hon => hruns.stores hcreate (by omega) hon⟩

theorem conserves_tokens_sample :
    ∃ first last : Arena SlotStore, create { capture := true } sample {} = .ok first ∧
      Runs first [(.allocate 24, some 4152), (.allocate 0, some 4232), (.release 4152, none)] last ∧
      last.tracer = ⟨#[none, some ⟨1⟩], [0], 2⟩ ∧ last.stats.live = 1 ∧
      last.Bears 4232 (Token.ofNat? 2) := by
  obtain ⟨first, last, hcreate, -, hruns, -⟩ := @exists_run_of_cells SlotStore _
    { capture := true } sample {} [.allocate 24, .allocate 0, .release 4152]
    [some 4152, some 4232, none] [⟨24, false⟩, ⟨0, true⟩, ⟨8, false⟩] (by decide +kernel)
    (by decide +kernel) (by decide +kernel) (by decide +kernel) (by decide)
  obtain ⟨hall, hstore⟩ := @conserves_tokens { capture := true } sample
    [(.allocate 24, some 4152), (.allocate 0, some 4232), (.release 4152, none)] (by decide)
  have hconserves := hall hcreate hruns
  have htracer : last.tracer = ⟨#[none, some ⟨1⟩], [0], 2⟩ :=
    hconserves.tracer.trans (by decide +kernel)
  have hlive := (hstore hcreate hruns rfl).live
  rw [htracer] at hlive
  exact ⟨first, last, hcreate, hruns, htracer, hlive.symm,
    (hconserves.held 4232 _).mp (by decide +kernel)⟩

end Arena

end FirstFit
