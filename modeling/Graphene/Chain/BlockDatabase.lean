import Graphene.Chain.Block

/-!
# The block log

`block_database` is two files: `blocks`, to which every stored block is appended, and `index`,
which has one fixed-size entry for every block number: where the block is, how long it is, and its
id.  Storing a block under an id writes the entry at the number the *id* names; removing it sets
the length in that entry to zero.

* `BlockDatabase.store`, `remove`, `contains`, `fetchBlockId`, `fetchOptional`, `fetchByNumber`,
  `last`, `lastId` — the operations of `block_database.cpp`.
* `lastEntry_eq`, `lastEntry_eq_none` — `last` finds the highest entry that has a block.

A `block_pos` and a positive `block_size` always describe a block that was written there, since
`blocks` only grows, so an entry has that block itself here; a `block_size` of zero is `none`, and
so are the entries in the gap that writing past the end of `index` leaves.  The files themselves
are in `Graphene.Chain.BlockFiles`.
-/

set_option autoImplicit false

namespace Graphene

variable {C : ChainTypes}

/-- `index_entry`. -/
structure IndexEntry (C : ChainTypes) where
  /-- What `block_pos` and `block_size` describe. -/
  block : Option (SignedBlock C)
  /-- `block_id`. -/
  blockId : BlockId C

/-- `block_database`. -/
structure BlockDatabase (C : ChainTypes) where
  /-- The entries of the index. -/
  entries : ℕ → IndexEntry C := fun _ ↦ ⟨none, BlockId.zero C⟩
  /-- The length of the index, in entries. -/
  size : ℕ := 0

namespace BlockDatabase

/-- `store`. -/
def store (P : Protocol C) (log : BlockDatabase C) (id : BlockId C) (b : SignedBlock C) :
    BlockDatabase C :=
  let id := if id = BlockId.zero C then P.blockId b else id
  { entries := Function.update log.entries id.num ⟨some b, id⟩
    size := max log.size (id.num + 1) }

/-- `remove`; throws if the index has no entry of that number. -/
def remove (log : BlockDatabase C) (id : BlockId C) : Option (BlockDatabase C) :=
  if log.size ≤ id.num then none
  else if (log.entries id.num).blockId = id then
    some { log with entries := Function.update log.entries id.num ⟨none, id⟩ }
  else some log

/-- `contains`. -/
def contains (log : BlockDatabase C) (id : BlockId C) : Bool :=
  if id = BlockId.zero C then false
  else if log.size ≤ id.num then false
  else (log.entries id.num).blockId = id && (log.entries id.num).block.isSome

/-- `fetch_block_id`. -/
def fetchBlockId (log : BlockDatabase C) (num : ℕ) : Option (BlockId C) :=
  if log.size ≤ num then none
  else if (log.entries num).blockId = BlockId.zero C then none
  else some (log.entries num).blockId

/-- The block an entry describes, if its id is the one the entry has. -/
def read (P : Protocol C) (e : IndexEntry C) : Option (SignedBlock C) :=
  e.block.filter fun b ↦ P.blockId b = e.blockId

/-- `fetch_optional`. -/
def fetchOptional (P : Protocol C) (log : BlockDatabase C) (id : BlockId C) :
    Option (SignedBlock C) :=
  if log.size ≤ id.num then none
  else if (log.entries id.num).blockId = id then read P (log.entries id.num)
  else none

/-- `fetch_by_number`. -/
def fetchByNumber (P : Protocol C) (log : BlockDatabase C) (num : ℕ) : Option (SignedBlock C) :=
  if log.size ≤ num then none else read P (log.entries num)

/-- The last entry below `n` that has a block. -/
def lastEntry (log : BlockDatabase C) : ℕ → Option (IndexEntry C)
  | 0 => none
  | n + 1 => if (log.entries n).block.isSome then some (log.entries n) else log.lastEntry n

/-- `last`: the last block that was not removed; unlike the other reads, it does not look at its
id. -/
def last (log : BlockDatabase C) : Option (SignedBlock C) :=
  (log.lastEntry log.size).bind IndexEntry.block

/-- `last_id`. -/
def lastId (log : BlockDatabase C) : Option (BlockId C) :=
  (log.lastEntry log.size).map IndexEntry.blockId

/-! ## What the last entry is -/

variable {log : BlockDatabase C}

theorem lastEntry_eq {n k : ℕ} (hk : k < n) (hsome : (log.entries k).block.isSome)
    (hnone : ∀ j, k < j → j < n → (log.entries j).block = none) :
    log.lastEntry n = some (log.entries k) := by
  induction n with
  | zero => omega
  | succ n ih =>
    rw [lastEntry]
    rcases Nat.lt_succ_iff_lt_or_eq.1 hk with hlt | rfl
    · rw [hnone n hlt (Nat.lt_succ_self n)]
      exact ih hlt fun j hj hjn ↦ hnone j hj (Nat.lt_succ_of_lt hjn)
    · rw [if_pos hsome]

theorem lastEntry_eq_none {n : ℕ} (hnone : ∀ j < n, (log.entries j).block = none) :
    log.lastEntry n = none := by
  induction n with
  | zero => rfl
  | succ n ih =>
    rw [lastEntry, hnone n (Nat.lt_succ_self n)]
    exact ih fun j hj ↦ hnone j (Nat.lt_succ_of_lt hj)

end BlockDatabase

end Graphene
