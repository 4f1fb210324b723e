/-
Sound chains, said without walking along them.

A chain is a list of blocks that tile a region from offset zero to its end, each with an
intact header in the memory, linked to both neighbours, and with no two free blocks in a
row.  Nothing here follows a link: every condition speaks of one block or of two that are
next to each other in the list.
-/
import FirstFit.Walk

namespace FirstFit

/-- A header as an arena writes it: both canaries are there, and the flag says one of two
things. -/
structure Header.Intact (h : Header) : Prop where
  leading : h.leading = leadingCanary
  trailing : h.trailing = trailingCanary
  flag : h.flag = 0 ∨ h.flag = 1

/-- How two blocks that are next to each other fit together. -/
structure Block.Precedes (r : Region) (a b : Block) : Prop where
  /-- The first ends where the second starts. -/
  tiles : r.stop a = b.offset
  next : a.header.next = some b.offset
  prev : b.header.prev = some a.offset
  /-- One of them is allocated. -/
  merged : ¬ (a.isFree = true ∧ b.isFree = true)

/-- The blocks are a sound chain of the region, over headers that are found by offset. -/
structure Chain (r : Region) (header : Nat → Header) (blocks : List Block) : Prop where
  /-- Every block has its header where the region allows one. -/
  admitted : ∀ b ∈ blocks, r.Admits b.offset
  found : ∀ b ∈ blocks, b.header = header b.offset
  intact : ∀ b ∈ blocks, b.header.Intact
  /-- There is a first block, and it starts the region. -/
  first : ∃ b, blocks.head? = some b ∧ b.offset = 0 ∧ b.header.prev = none
  /-- There is a last block, and it ends with the region. -/
  last : ∃ b, blocks.getLast? = some b ∧ r.stop b = r.capacity ∧ b.header.next = none
  consecutive : ∀ i a b, blocks[i]? = some a → blocks[i + 1]? = some b → a.Precedes r b

theorem Header.intact_iff {h : Header} {offset : Nat} :
    h.Intact ↔ h.check? offset = none := by
  rw [check?_eq_none_iff]
  constructor
  · rintro ⟨hl, ht, hf⟩
    exact ⟨hl, ht, by omega⟩
  · rintro ⟨hl, ht, hf⟩
    exact ⟨hl, ht, by omega⟩

end FirstFit
