import Graphene.Chain.Block
import Mathlib.Tactic.Linarith

/-!
# Chains of blocks and the states they leave

A chain is a list of blocks, newest first, that apply one after the other from a base state: the
genesis state, or whatever state the node was opened on.

* `Protocol.Base` — what a base state has to be like.
* `stateAt_spec` — the head block of a chain, its number and the last irreversible block.
* `Recorded` — the copies an undo stack holds under a chain: the states below the newest blocks,
  and at the very bottom possibly the state the oldest of these was applied to once more.
* `Kept` — the copies that are left after sessions have pushed out the oldest.
* `Protocol.Nests`, `Protocol.Lags` — how deep evaluations nest undo sessions, and that the last
  irreversible block is at least so far behind.
-/

set_option autoImplicit false

namespace Graphene

variable {C : ChainTypes}

/-! ## Ids -/

theorem Protocol.blockId_num (P : Protocol C) (b : SignedBlock C) :
    (P.blockId b).num = b.previous.num + 1 := rfl

theorem Protocol.blockId_ne_zero (P : Protocol C) (b : SignedBlock C) :
    P.blockId b ≠ BlockId.zero C := by
  intro h
  have hnum := congrArg BlockId.num h
  rw [P.blockId_num] at hnum
  exact absurd hnum (Nat.succ_ne_zero _)

/-- An id determines the header. -/
theorem Protocol.header_eq {P : Protocol C} {b c : SignedBlock C}
    (h : P.blockId b = P.blockId c) : b.header = c.header :=
  P.hash_injective (congrArg BlockId.digest h)

theorem Protocol.previous_eq {P : Protocol C} {b c : SignedBlock C}
    (h : P.blockId b = P.blockId c) : b.previous = c.previous :=
  congrArg BlockHeader.previous (P.header_eq h)

/-- An id determines a block whose transactions are the ones its header commits to. -/
theorem Protocol.eq_of_merkleOk {P : Protocol C} {b c : SignedBlock C}
    (h : P.blockId b = P.blockId c) (hb : P.MerkleOk b) (hc : P.MerkleOk c) : b = c := by
  obtain ⟨hdr, txs⟩ := b
  obtain ⟨hdr', txs'⟩ := c
  obtain rfl : hdr = hdr' := P.header_eq h
  obtain rfl : txs = txs' := P.calculateMerkleRoot_injective (hb.symm.trans hc)
  rfl

/-! ## Chains -/

/-- A state the node can be opened on. -/
structure Base (g : ChainState C) : Prop where
  /-- It has the dynamic global properties. -/
  dgp : ∃ dgp, g.dgp? = some dgp
  /-- The number of the head block is the one its id names. -/
  num_eq : g.headBlockId.num = g.headBlockNum
  /-- The last irreversible block is on the chain. -/
  lib_le : g.lastIrreversible ≤ g.headBlockNum

namespace Protocol

variable (P : Protocol C)

/-- The id of the newest block of a chain. -/
def tip (g : ChainState C) : List (SignedBlock C) → BlockId C
  | [] => g.headBlockId
  | b :: _ => P.blockId b

variable {P} {g : ChainState C}

theorem applyBlock_headBlockId {ix ix' : ChainState C} {b : SignedBlock C} (hix : Base ix)
    (h : P.applyBlock ix b = some ix') :
    P.Checks ix b ∧ ix'.headBlockId = P.blockId b ∧ ix'.headBlockNum = ix.headBlockNum + 1 ∧
      b.blockNum = ix.headBlockNum + 1 ∧ ix.lastIrreversible ≤ ix'.lastIrreversible ∧ Base ix' := by
  obtain ⟨dgp, hdgp⟩ := hix.dgp
  obtain ⟨hchecks, lib, hdgp', hle, hmax⟩ := applyBlock_spec hdgp h
  have hnum : b.blockNum = ix.headBlockNum + 1 := by
    rw [SignedBlock.blockNum, ← hchecks.2.1, hix.num_eq]
  have hlib : ix.lastIrreversible = dgp.lastIrreversibleBlockNum := by
    simp [Indexes.lastIrreversible, hdgp]
  have hlib' : ix'.lastIrreversible = lib := by simp [Indexes.lastIrreversible, hdgp']
  have hid' : ix'.headBlockId = P.blockId b := by simp [Indexes.headBlockId, hdgp']
  have hnum' : ix'.headBlockNum = b.blockNum := by simp [Indexes.headBlockNum, hdgp']
  have hix_le := hix.lib_le
  refine ⟨hchecks, hid', hnum'.trans hnum, hnum, by omega, ⟨_, hdgp'⟩, ?_, ?_⟩
  · rw [hid', hnum']
    rfl
  · rw [hlib', hnum']
    omega

/-- **The head block of a chain**, its number, and the last irreversible block. -/
theorem stateAt_spec (hg : Base g) {chain : List (SignedBlock C)} {ix : ChainState C}
    (h : P.stateAt g chain = some ix) :
    Base ix ∧ ix.headBlockId = P.tip g chain ∧
      ix.headBlockNum = g.headBlockNum + chain.length ∧
      g.lastIrreversible ≤ ix.lastIrreversible := by
  induction chain generalizing ix with
  | nil =>
    obtain rfl := Option.some_inj.1 h
    exact ⟨hg, rfl, rfl, le_rfl⟩
  | cons b bs ih =>
    obtain ⟨ix₁, h₁, happly⟩ := Option.bind_eq_some_iff.1 h
    obtain ⟨hbase, -, hnum, hlib⟩ := ih h₁
    obtain ⟨-, hid, hnum', -, hlib', hbase'⟩ := applyBlock_headBlockId hbase happly
    refine ⟨hbase', hid, ?_, hlib.trans hlib'⟩
    rw [hnum', hnum, List.length_cons, Nat.add_assoc]

/-- The part of a chain below its newest blocks is a chain. -/
theorem stateAt_drop {chain : List (SignedBlock C)} {ix : ChainState C}
    (h : P.stateAt g chain = some ix) (n : ℕ) : ∃ ix', P.stateAt g (chain.drop n) = some ix' := by
  induction n generalizing chain ix with
  | zero => exact ⟨ix, h⟩
  | succ n ih =>
    cases chain with
    | nil => exact ⟨ix, h⟩
    | cons b bs =>
      obtain ⟨ix₁, h₁, -⟩ := Option.bind_eq_some_iff.1 h
      exact ih h₁

/-- Every block of a chain builds on the one below it. -/
theorem previous_eq_tip (hg : Base g) {b : SignedBlock C} {bs : List (SignedBlock C)}
    {ix : ChainState C} (h : P.stateAt g (b :: bs) = some ix) :
    b.previous = P.tip g bs ∧ P.MerkleOk b := by
  obtain ⟨ix₁, h₁, happly⟩ := Option.bind_eq_some_iff.1 h
  obtain ⟨hbase, hid, -⟩ := stateAt_spec hg h₁
  obtain ⟨hchecks, -⟩ := applyBlock_headBlockId hbase happly
  exact ⟨hchecks.2.1.symm.trans hid, hchecks.1⟩

end Protocol

/-! ## What the undo stack holds -/

/-- The copies under a chain, newest first. -/
inductive Recorded (P : Protocol C) (g : ChainState C) :
    List (SignedBlock C) → List (ChainState C) → Prop
  /-- No copy. -/
  | nil (chain : List (SignedBlock C)) : Recorded P g chain []
  /-- The copy of the base state that the undo database makes by itself. -/
  | base {chain : List (SignedBlock C)} {s : ChainState C} (h : P.stateAt g chain = some s) :
    Recorded P g chain [s]
  /-- The copy the session of a block took. -/
  | block {b : SignedBlock C} {chain : List (SignedBlock C)} {s : ChainState C}
    {hist : List (ChainState C)} (h : P.stateAt g chain = some s) (hr : Recorded P g chain hist) :
    Recorded P g (b :: chain) (s :: hist)

namespace Recorded

variable {P : Protocol C} {g : ChainState C} {chain : List (SignedBlock C)}
  {hist : List (ChainState C)}

theorem take (h : Recorded P g chain hist) (n : ℕ) : Recorded P g chain (hist.take n) := by
  induction h generalizing n with
  | nil chain => simpa using nil chain
  | base h =>
    cases n with
    | zero => exact nil _
    | succ n => simpa using base h
  | block h hr ih =>
    cases n with
    | zero => exact nil _
    | succ n => exact block h (ih n)

/-- The newest copy, when it is below the head block, is the state the head block was applied
to. -/
theorem cons_inv (hg : Base g) {s : ChainState C} {ix : ChainState C}
    (h : Recorded P g chain (s :: hist)) (hix : P.stateAt g chain = some ix) :
    (s = ix ∧ hist = []) ∨
      ∃ b bs, chain = b :: bs ∧ P.stateAt g bs = some s ∧ Recorded P g bs hist ∧
        s.headBlockNum + 1 = ix.headBlockNum := by
  cases h with
  | base h => exact Or.inl ⟨Option.some_inj.1 (h.symm.trans hix), rfl⟩
  | @block b bs _ _ h hr =>
    refine Or.inr ⟨b, bs, rfl, h, hr, ?_⟩
    have h₁ := (Protocol.stateAt_spec hg h).2.2.1
    have h₂ := (Protocol.stateAt_spec hg hix).2.2.1
    rw [h₁, h₂, List.length_cons, Nat.add_assoc]

end Recorded

/-- Of the copies `hist` the newest `n` are still there in `hist'`; where none was, there may be one
of the current state `s` by now. -/
def Kept (s : ChainState C) (n : ℕ) (hist hist' : List (ChainState C)) : Prop :=
  ∃ k, n ≤ k ∧ (hist' = hist.take k ∨ hist.take k = [] ∧ hist' = [s])

namespace Kept

variable {s : ChainState C} {n n' : ℕ} {hist hist' hist'' : List (ChainState C)}

theorem refl (s : ChainState C) (n : ℕ) (hist : List (ChainState C)) : Kept s n hist hist :=
  ⟨max n hist.length, le_max_left _ _, Or.inl (List.take_of_length_le (le_max_right _ _)).symm⟩

theorem mono (h : Kept s n hist hist') (hn : n' ≤ n) : Kept s n' hist hist' := by
  obtain ⟨k, hk, hcases⟩ := h
  exact ⟨k, hn.trans hk, hcases⟩

theorem trans (h : Kept s n hist hist') (h' : Kept s n' hist' hist'') :
    Kept s (min n n') hist hist'' := by
  obtain ⟨k, hk, hcases⟩ := h
  obtain ⟨k', hk', hcases'⟩ := h'
  have hmin : hist.take (min k' k) = (hist.take k).take k' := List.take_take.symm
  rcases hcases with rfl | ⟨hnil, rfl⟩
  · refine ⟨min k' k, by omega, hcases'.imp ?_ ?_⟩
    · exact fun h ↦ h.trans hmin.symm
    · exact fun h ↦ ⟨hmin.trans h.1, h.2⟩
  · rw [hnil, List.take_nil] at hmin
    cases k' with
    | zero =>
      refine ⟨0, by omega, hcases'.imp ?_ ?_⟩
      · exact fun h ↦ h
      · exact fun h ↦ ⟨rfl, h.2⟩
    | succ k' =>
      refine ⟨min (k' + 1) k, by omega, Or.inr ⟨hmin, ?_⟩⟩
      rcases hcases' with h | ⟨h, -⟩
      · simpa using h
      · cases h

/-- Nothing has been dropped. -/
theorem of_length (h : Kept s hist.length hist hist') (n : ℕ) : Kept s n hist hist' := by
  obtain ⟨k, hk, hcases⟩ := h
  have htake : hist.take (max n k) = hist.take k := by
    rw [List.take_of_length_le hk, List.take_of_length_le (hk.trans (le_max_right _ _))]
  exact ⟨max n k, le_max_left _ _, by rwa [htake]⟩

/-- The copies among the newest `n` are where they were. -/
theorem getElem? (h : Kept s n hist hist') {j : ℕ} (hj : j < n) {t : ChainState C}
    (ht : hist[j]? = some t) : hist'[j]? = some t := by
  obtain ⟨k, hk, rfl | ⟨hnil, rfl⟩⟩ := h
  · rw [List.getElem?_take_of_lt (hj.trans_le hk), ht]
  · obtain ⟨hlt, -⟩ := List.getElem?_eq_some_iff.1 ht
    rcases List.take_eq_nil_iff.1 hnil with rfl | rfl
    · omega
    · cases hlt

theorem recorded {P : Protocol C} {g : ChainState C} {chain : List (SignedBlock C)}
    (h : Kept s n hist hist') (hr : Recorded P g chain hist)
    (hs : P.stateAt g chain = some s) : Recorded P g chain hist' := by
  obtain ⟨k, -, rfl | ⟨-, rfl⟩⟩ := h
  · exact hr.take k
  · exact Recorded.base hs

end Kept

/-! ## Nested sessions -/

/-- The transaction nests undo sessions no deeper than `depth`. -/
def Protocol.TxNests (P : Protocol C) (depth : ℕ) (tx : C.Tx) : Prop :=
  ∀ ix, (P.evaluateTransaction ix tx).1.depth ≤ depth

/-- Applying the block nests undo sessions no deeper than `depth`, besides its own. -/
structure Protocol.BlockNests (P : Protocol C) (depth : ℕ) (b : SignedBlock C) : Prop where
  /-- Its transactions. -/
  transactions : ∀ tx ∈ b.transactions, P.TxNests depth tx
  /-- Missed blocks. -/
  countMissed : ∀ ix, (P.countMissed ix b).1.depth ≤ depth
  /-- The witness's pay. -/
  updateSigningWitness : ∀ ix, (P.updateSigningWitness ix b).1.depth ≤ depth
  /-- The end of the block. -/
  finishBlock : ∀ ix, (P.finishBlock ix b).1.depth ≤ depth

/-- No evaluation nests undo sessions deeper than `depth`. -/
structure Protocol.Nests (P : Protocol C) (depth : ℕ) : Prop where
  /-- Transactions. -/
  tx : ∀ tx, P.TxNests depth tx
  /-- Blocks. -/
  block : ∀ b, P.BlockNests depth b

/-- Every block is more than `depth` above the block that is irreversible when it is applied, or
exactly that far. -/
def Protocol.Lags (P : Protocol C) (g : ChainState C) (depth : ℕ) : Prop :=
  ∀ chain ix b ix', P.stateAt g chain = some ix → P.applyUntilHead ix b = some ix' →
    ix.lastIrreversible + depth ≤ b.blockNum

/-- A distance of one is always there. -/
theorem Protocol.lags_one {P : Protocol C} {g : ChainState C} (hg : Base g) : P.Lags g 1 := by
  intro chain ix b ix' hix happly
  obtain ⟨hbase, -⟩ := stateAt_spec hg hix
  obtain ⟨dgp, hdgp⟩ := hbase.dgp
  obtain ⟨hchecks, -⟩ := applyUntilHead_spec hdgp happly
  have hlib := hbase.lib_le
  have hnum : b.blockNum = ix.headBlockNum + 1 := by
    rw [SignedBlock.blockNum, ← hchecks.2.1, hbase.num_eq]
  omega

theorem Script.depth_updateHead (P : Protocol C) (ix : ChainState C) (b : SignedBlock C) :
    (P.updateHead ix b).depth = 0 := by
  rw [Protocol.updateHead]
  split <;> rfl

theorem Script.depth_updateLastIrreversible (P : Protocol C) (ix : ChainState C) :
    (P.updateLastIrreversible ix).depth = 0 := by
  rw [Protocol.updateLastIrreversible]
  split
  · rfl
  · dsimp only
    split_ifs <;> rfl

end Graphene
