/-
The walk along the chain of blocks.

A walk starts at offset zero and follows the links for as long as each leads exactly to
where the block before it ends.  So its offsets grow, and it ends after finitely many
blocks whatever the memory holds.  What an arena asks of its chain (is it sound, which
blocks has it, which is the first that fits) are questions about the list of blocks the
walk has met and about how it ended.
-/
import FirstFit.Region

namespace FirstFit

/-- A header, and where it was found. -/
structure Block where
  /-- Counted from the base of the region. -/
  offset : Nat
  header : Header
  deriving DecidableEq

namespace Block

/-- How many bytes of payload the block has. -/
def size (b : Block) : Nat := b.header.size

/-- Whether the block can be handed out. -/
def isFree (b : Block) : Bool := b.header.isFree

/-- What is wrong with the header of the block, judged by itself. -/
def check? (b : Block) : Option Corruption := b.header.check? b.offset

/-- What is wrong with the block, given the one it was reached from: the header, then the
link back, then two free blocks in a row. -/
def defect? (b : Block) : (before : Option Block) → Option Corruption
  | none =>
    b.check? <|> b.header.prev.map .firstBackLink
  | some before =>
    b.check?
      <|> (if b.header.prev = some before.offset then none
        else some (.backLink b.offset before.offset (Link.toNat b.header.prev)))
      <|> (if before.isFree && b.isFree then some (.unmerged before.offset) else none)

end Block

namespace Region

/-- The offset after the payload of a block. -/
def stop (r : Region) (b : Block) : Nat := b.offset + r.footprint + b.size

/-- Where the chain goes on behind a block: nowhere, if the block ends with the region,
or else at its own end.  A link to any other place is damage. -/
def successor (r : Region) (b : Block) : Except Corruption (Option Nat) :=
  match b.header.next with
  | none => if r.stop b = r.capacity then .ok none else .error (.tiling b.offset)
  | some next => if next = r.stop b then .ok (some next) else .error (.tiling b.offset)

theorem lt_of_successor {r : Region} {b : Block} {next : Nat}
    (h : r.successor b = .ok (some next)) : b.offset < next := by
  have := r.footprint_pos
  unfold successor stop at h
  split at h
  · split at h <;> simp at h
  · split at h
    · simp only [Except.ok.injEq, Option.some.injEq] at h
      omega
    · simp at h

/-- Behind a block there is less of the region left. -/
theorem rest_lt_of_successor {r : Region} {b : Block} {next : Nat} (hadmits : r.Admits b.offset)
    (h : r.successor b = .ok (some next)) :
    r.capacity + 1 - next < r.capacity + 1 - b.offset := by
  have hlt := lt_of_successor h
  have hle := hadmits.2
  omega

end Region

/-- The blocks that were met, in order, and what kept the walk from going on to the end. -/
structure Walk where
  blocks : List Block
  defect : Option Corruption

namespace Walk

/-- The walk from an offset on, over headers that are found by their offset. -/
def follow (r : Region) (header : Nat → Header) (offset : Nat) : Walk :=
  if hadmits : r.Admits offset then
    match hnext : r.successor ⟨offset, header offset⟩ with
    | .error c => ⟨[⟨offset, header offset⟩], some c⟩
    | .ok none => ⟨[⟨offset, header offset⟩], none⟩
    | .ok (some next) =>
      have := Region.rest_lt_of_successor (b := ⟨offset, header offset⟩) hadmits hnext
      let rest := follow r header next
      ⟨⟨offset, header offset⟩ :: rest.blocks, rest.defect⟩
  else
    ⟨[], some (.linkOutside offset)⟩
termination_by r.capacity + 1 - offset

/-- The walk through a whole region.  There are no blocks in one that has no room for any. -/
def through (r : Region) (m : Memory) : Walk :=
  if r.Usable then follow r (fun offset => m.header (r.base + offset)) 0 else ⟨[], none⟩

section Follow

variable {r : Region} {header : Nat → Header} {offset : Nat}

theorem follow_of_not_admits (h : ¬ r.Admits offset) :
    follow r header offset = ⟨[], some (.linkOutside offset)⟩ := by
  rw [follow, dif_neg h]

theorem follow_of_error {c : Corruption} (hadmits : r.Admits offset)
    (h : r.successor ⟨offset, header offset⟩ = .error c) :
    follow r header offset = ⟨[⟨offset, header offset⟩], some c⟩ := by
  rw [follow, dif_pos hadmits]
  split <;> simp_all

theorem follow_of_end (hadmits : r.Admits offset)
    (h : r.successor ⟨offset, header offset⟩ = .ok none) :
    follow r header offset = ⟨[⟨offset, header offset⟩], none⟩ := by
  rw [follow, dif_pos hadmits]
  split <;> simp_all

theorem follow_of_next {next : Nat} (hadmits : r.Admits offset)
    (h : r.successor ⟨offset, header offset⟩ = .ok (some next)) :
    follow r header offset =
      ⟨⟨offset, header offset⟩ :: (follow r header next).blocks,
        (follow r header next).defect⟩ := by
  rw [follow, dif_pos hadmits]
  split <;> simp_all

end Follow

/-- What is wrong with blocks that follow each other, the first of them behind `before`. -/
def firstDefect? (before : Option Block) : List Block → Option Corruption
  | [] => none
  | b :: rest => b.defect? before <|> firstDefect? (some b) rest

/-- What is wrong with the chain: the first block that has a defect counts, and after all
of them whatever ended the walk. -/
def verdict (w : Walk) : Except Corruption Unit :=
  match firstDefect? none w.blocks <|> w.defect with
  | none => .ok ()
  | some c => .error c

/-- The blocks up to the first that has a damaged header. -/
def sound (w : Walk) : List Block := w.blocks.takeWhile fun b => b.check?.isNone

/-- The first free block of at least `length` bytes, if the walk comes to one.  Only the
header of that block is checked. -/
def firstFit (w : Walk) (length : Nat) : Except Corruption (Option Block) :=
  match w.blocks.find? fun b => b.isFree && length ≤ b.size with
  | some b =>
    match b.check? with
    | none => .ok (some b)
    | some c => .error c
  | none =>
    match w.defect with
    | none => .ok none
    | some c => .error c

end Walk

end FirstFit
