import Graphene.Db.Script
import Mathlib.Data.List.Sort

/-!
# Blocks and what they do to the objects

A block is identified by its number and a hash of its header.  Applying one evaluates its
transactions and then advances the dynamic global properties: the head block's number and id, and
the number of the last irreversible block.  Everything else a block does — the evaluators, the
witness schedule, the maintenance interval — is left open: `Protocol` has it as scripts computed
from the objects and the block, which may do anything but touch the dynamic global properties.

* `SignedBlock`, `BlockId` — blocks and their ids.
* `Protocol` — the parts of the protocol this development is about none of.
* `Protocol.applyBlock` — `_apply_block`, on the objects alone: a partial function.
* `Protocol.stateAt` — the objects after a chain of blocks, newest first.
* `Protocol.applyBlock_spec` — what every block has in common.

Of the dynamic global properties only the three fields the block logic reads are here; the others
count among the other objects.
-/

set_option autoImplicit false

namespace Graphene

/-- The types a chain is built from. -/
structure ChainTypes where
  /-- What the hash functions return. -/
  Digest : Type
  /-- The fields of a signed block header other than `previous` and `transaction_merkle_root`. -/
  Content : Type
  /-- `signed_transaction`. -/
  Tx : Type
  /-- The objects other than the dynamic global properties. -/
  Obj : Type
  /-- Digests can be compared. -/
  decDigest : DecidableEq Digest
  /-- The digest of `block_id_type()`. -/
  zeroDigest : Digest

instance (C : ChainTypes) : DecidableEq C.Digest := C.decDigest

/-- `block_id_type`: a hash whose first word is the number of the block. -/
structure BlockId (C : ChainTypes) where
  /-- `block_header::num_from_id`. -/
  num : ℕ
  /-- The rest of the hash. -/
  digest : C.Digest
deriving DecidableEq

/-- `block_id_type()`, which stands for "no block". -/
def BlockId.zero (C : ChainTypes) : BlockId C := ⟨0, C.zeroDigest⟩

/-- `signed_block_header`. -/
structure BlockHeader (C : ChainTypes) where
  /-- The id of the block this one builds on. -/
  previous : BlockId C
  /-- `transaction_merkle_root`. -/
  transactionMerkleRoot : C.Digest
  /-- The timestamp, the witness, the extensions and the witness's signature. -/
  content : C.Content

/-- `signed_block`. -/
structure SignedBlock (C : ChainTypes) where
  /-- The header. -/
  header : BlockHeader C
  /-- The transactions; the operation results a processed transaction carries are left out. -/
  transactions : List C.Tx

namespace SignedBlock

variable {C : ChainTypes}

/-- The id of the block this one builds on. -/
def previous (b : SignedBlock C) : BlockId C := b.header.previous

/-- `block_header::block_num`. -/
def blockNum (b : SignedBlock C) : ℕ := b.previous.num + 1

end SignedBlock

/-- The fields of `dynamic_global_property_object` the block logic reads. -/
structure DynamicGlobalProperties (C : ChainTypes) where
  /-- `head_block_number`. -/
  headBlockNumber : ℕ
  /-- `head_block_id`. -/
  headBlockId : BlockId C
  /-- `last_irreversible_block_num`. -/
  lastIrreversibleBlockNum : ℕ

/-- The objects of the chain. -/
inductive ChainObject (C : ChainTypes) where
  /-- The dynamic global properties. -/
  | dynamicGlobalProperties (dgp : DynamicGlobalProperties C)
  /-- Any other object. -/
  | other (obj : C.Obj)

/-- `dynamic_global_property_id_type(0)`: object 2.1.0. -/
def dgpId : ObjectId := ⟨⟨2, 1⟩, 0⟩

/-- An edit leaves the object `id` alone. -/
def Edit.Avoids {V : Type} (id : ObjectId) : Edit V → Prop
  | .create _ _ => True
  | .modify id' _ => id' ≠ id
  | .remove id' => id' ≠ id

/-- A script leaves the object `id` alone. -/
def Script.Avoids {V : Type} (id : ObjectId) : Script V → Prop
  | .done | .throw => True
  | .edit e rest => e.Avoids id ∧ rest.Avoids id
  | .proposal body rest => body.Avoids id ∧ rest.Avoids id

/-- A script that leaves the dynamic global properties alone. -/
def Evaluation (C : ChainTypes) := { s : Script (ChainObject C) // s.Avoids dgpId }

/-- The state of the chain: all objects. -/
abbrev ChainState (C : ChainTypes) := Indexes (ChainObject C)

namespace Indexes

variable {C : ChainTypes}

/-- The dynamic global properties, if they are there, as they are from genesis on. -/
def dgp? (ix : ChainState C) : Option (DynamicGlobalProperties C) :=
  match ix.objects dgpId with
  | some (.dynamicGlobalProperties dgp) => some dgp
  | _ => none

/-- `head_block_num`. -/
def headBlockNum (ix : ChainState C) : ℕ :=
  (ix.dgp?.map DynamicGlobalProperties.headBlockNumber).getD 0

/-- `head_block_id`. -/
def headBlockId (ix : ChainState C) : BlockId C :=
  (ix.dgp?.map DynamicGlobalProperties.headBlockId).getD (BlockId.zero C)

/-- `last_irreversible_block_num`. -/
def lastIrreversible (ix : ChainState C) : ℕ :=
  (ix.dgp?.map DynamicGlobalProperties.lastIrreversibleBlockNum).getD 0

end Indexes

/-- `GRAPHENE_MIN_UNDO_HISTORY`. -/
def minUndoHistory : ℕ := 10

/-- `GRAPHENE_MAX_UNDO_HISTORY`. -/
def maxUndoHistory : ℕ := 10000

/-- `GRAPHENE_100_PERCENT`. -/
def hundredPercent : ℕ := 10000

/-- `GRAPHENE_IRREVERSIBLE_THRESHOLD`. -/
def irreversibleThreshold : ℕ := 55 * (hundredPercent / 100)

/-- What is left open about the chain. -/
structure Protocol (C : ChainTypes) where
  /-- The hash of a signed header, less its first word. -/
  hash : BlockHeader C → C.Digest
  /-- No two headers that occur have the same hash. -/
  hash_injective : Function.Injective hash
  /-- `signed_block::calculate_merkle_root`. -/
  calculateMerkleRoot : List C.Tx → C.Digest
  /-- No two lists of transactions that occur have the same Merkle root. -/
  calculateMerkleRoot_injective : Function.Injective calculateMerkleRoot
  /-- What `apply_block` checks besides the Merkle root and the previous block: the checkpoints,
  the time, the witness and its signature. -/
  validateBlockHeader : ChainState C → SignedBlock C → Bool
  /-- `_apply_transaction`. -/
  evaluateTransaction : ChainState C → C.Tx → Evaluation C
  /-- The witnesses `update_global_dynamic_data` counts as having missed a block. -/
  countMissed : ChainState C → SignedBlock C → Evaluation C
  /-- `update_signing_witness`. -/
  updateSigningWitness : ChainState C → SignedBlock C → Evaluation C
  /-- The `last_confirmed_block_num` of each active witness. -/
  confirmations : ChainState C → List ℕ
  /-- Only blocks up to the head block have been confirmed. -/
  confirmations_le : ∀ ix dgp, ix.dgp? = some dgp → ∀ n ∈ confirmations ix, n ≤ dgp.headBlockNumber
  /-- What `_apply_block` does after `update_last_irreversible_block`, the observers included. -/
  finishBlock : ChainState C → SignedBlock C → Evaluation C
  /-- `is_known_transaction`. -/
  isKnownTransaction : ChainState C → C.Tx → Bool

variable {C : ChainTypes}

namespace Protocol

variable (P : Protocol C)

/-- `signed_block_header::id`. -/
def blockId (b : SignedBlock C) : BlockId C := ⟨b.blockNum, P.hash b.header⟩

/-- `transaction_merkle_root == calculate_merkle_root()`. -/
def MerkleOk (b : SignedBlock C) : Prop :=
  b.header.transactionMerkleRoot = P.calculateMerkleRoot b.transactions

instance (b : SignedBlock C) : Decidable (P.MerkleOk b) :=
  inferInstanceAs (Decidable (_ = _))

end Protocol

/-! ## Applying a block -/

/-- The number `update_last_irreversible_block` picks: what `nth_element` puts at `offset`. -/
def newLastIrreversible (confirmations : List ℕ) : ℕ :=
  let offset :=
    (hundredPercent - irreversibleThreshold) * confirmations.length / hundredPercent
  (confirmations.insertionSort (· ≤ ·)).getD offset 0

namespace Protocol

variable (P : Protocol C)

/-- `apply_transaction`, on the objects. -/
def applyTransaction (ix : ChainState C) (tx : C.Tx) : Option (ChainState C) :=
  (P.evaluateTransaction ix tx).1.eval ix

/-- The change `update_global_dynamic_data` makes to the properties. -/
def updateHead (ix : ChainState C) (b : SignedBlock C) : Script (ChainObject C) :=
  match ix.dgp? with
  | none => .throw
  | some dgp =>
    .edit (.modify dgpId (.dynamicGlobalProperties
      { dgp with headBlockNumber := b.blockNum, headBlockId := P.blockId b })) .done

/-- The change `update_last_irreversible_block` makes to the properties. -/
def updateLastIrreversible (ix : ChainState C) : Script (ChainObject C) :=
  match ix.dgp? with
  | none => .throw
  | some dgp =>
    let num := newLastIrreversible (P.confirmations ix)
    if num > dgp.lastIrreversibleBlockNum then
      .edit (.modify dgpId (.dynamicGlobalProperties { dgp with lastIrreversibleBlockNum := num }))
        .done
    else .done

/-- What `_apply_block` checks before it evaluates anything. -/
def Checks (ix : ChainState C) (b : SignedBlock C) : Prop :=
  P.MerkleOk b ∧ ix.headBlockId = b.previous ∧ P.validateBlockHeader ix b = true

instance (ix : ChainState C) (b : SignedBlock C) : Decidable (P.Checks ix b) :=
  inferInstanceAs (Decidable (_ ∧ _))

/-- `_apply_block` up to the point where `update_global_dynamic_data` has set the head block. -/
def applyUntilHead (ix : ChainState C) (b : SignedBlock C) : Option (ChainState C) :=
  if P.Checks ix b then do
    let ix ← b.transactions.foldlM P.applyTransaction ix
    let ix ← (P.countMissed ix b).1.eval ix
    (P.updateHead ix b).eval ix
  else none

/-- The rest of `_apply_block`. -/
def applyFromHead (ix : ChainState C) (b : SignedBlock C) : Option (ChainState C) :=
  if ix.headBlockNum - ix.lastIrreversible < maxUndoHistory then do
    let ix ← (P.updateSigningWitness ix b).1.eval ix
    let ix ← (P.updateLastIrreversible ix).eval ix
    (P.finishBlock ix b).1.eval ix
  else none

/-- `_apply_block`, on the objects. -/
def applyBlock (ix : ChainState C) (b : SignedBlock C) : Option (ChainState C) :=
  (P.applyUntilHead ix b).bind (P.applyFromHead · b)

/-- The objects after a chain of blocks, newest first, from `genesis` on. -/
def stateAt (genesis : ChainState C) : List (SignedBlock C) → Option (ChainState C)
  | [] => some genesis
  | b :: bs => (stateAt genesis bs).bind (P.applyBlock · b)

end Protocol

/-! ## What every block has in common -/

theorem Edit.eval_of_avoids {V : Type} {id : ObjectId} {e : Edit V} (he : e.Avoids id)
    {ix ix' : Indexes V} (hid : (ix.objects id).isSome) (h : e.eval ix = some ix') :
    ix'.objects id = ix.objects id := by
  cases e with
  | create index obj =>
    simp only [eval, Indexes.create] at h
    split_ifs at h with hfree
    obtain rfl := Option.some_inj.1 h
    refine Function.update_of_ne (fun heq ↦ hfree ?_) _ _
    rwa [← heq]
  | modify id' obj =>
    simp only [eval, Indexes.modify] at h
    split_ifs at h
    obtain rfl := Option.some_inj.1 h
    exact Function.update_of_ne (Ne.symm he) _ _
  | remove id' =>
    simp only [eval, Indexes.remove] at h
    split_ifs at h
    obtain rfl := Option.some_inj.1 h
    exact Function.update_of_ne (Ne.symm he) _ _

theorem Script.eval_of_avoids {V : Type} {id : ObjectId} {s : Script V} (hs : s.Avoids id)
    {ix ix' : Indexes V} (hid : (ix.objects id).isSome) (h : s.eval ix = some ix') :
    ix'.objects id = ix.objects id := by
  induction s generalizing ix ix' with
  | done => rw [Option.some_inj.1 h]
  | throw => cases h
  | edit e rest ih =>
    obtain ⟨ix₁, h₁, hrest⟩ := Option.bind_eq_some_iff.1 h
    have he := Edit.eval_of_avoids hs.1 hid h₁
    exact (ih hs.2 (he ▸ hid) hrest).trans he
  | proposal body rest ihBody ihRest =>
    rw [eval] at h
    cases hbody : body.eval ix with
    | none =>
      rw [hbody] at h
      exact ihRest hs.2 hid h
    | some ix₁ =>
      rw [hbody] at h
      have hb := ihBody hs.1 hid hbody
      exact (ihRest hs.2 (by simpa [hb] using hid) h).trans hb

/-- Evaluations leave the dynamic global properties alone. -/
theorem Evaluation.dgp?_eq (s : Evaluation C) {ix ix' : ChainState C}
    {dgp : DynamicGlobalProperties C} (hdgp : ix.dgp? = some dgp) (h : s.1.eval ix = some ix') :
    ix'.dgp? = some dgp := by
  have hid : (ix.objects dgpId).isSome := by
    rw [Indexes.dgp?] at hdgp
    cases hobj : ix.objects dgpId with
    | none => simp [hobj] at hdgp
    | some obj => rfl
  rw [Indexes.dgp?, Script.eval_of_avoids s.2 hid h]
  exact hdgp

/-- Setting the properties sets them. -/
theorem dgp?_of_modify {ix ix' : ChainState C} {dgp : DynamicGlobalProperties C}
    (h : (Script.edit (.modify dgpId (.dynamicGlobalProperties dgp)) .done).eval ix = some ix') :
    ix'.dgp? = some dgp := by
  obtain ⟨ix₁, h₁, hdone⟩ := Option.bind_eq_some_iff.1 h
  obtain rfl := Option.some_inj.1 hdone
  simp only [Edit.eval, Indexes.modify] at h₁
  split_ifs at h₁
  obtain rfl := Option.some_inj.1 h₁
  simp [Indexes.dgp?]

theorem newLastIrreversible_le {l : List ℕ} {n : ℕ} (h : ∀ k ∈ l, k ≤ n) :
    newLastIrreversible l ≤ n := by
  rw [newLastIrreversible, List.getD_eq_getElem?_getD]
  generalize (hundredPercent - irreversibleThreshold) * l.length / hundredPercent = offset
  cases hk : (l.insertionSort (· ≤ ·))[offset]? with
  | none => exact Nat.zero_le n
  | some k => exact h k ((List.perm_insertionSort _ l).mem_iff.1 (List.mem_of_getElem? hk))

namespace Protocol

variable {P : Protocol C}

theorem dgp?_applyTransactions {txs : List C.Tx} {ix ix' : ChainState C}
    {dgp : DynamicGlobalProperties C} (hdgp : ix.dgp? = some dgp)
    (h : txs.foldlM P.applyTransaction ix = some ix') : ix'.dgp? = some dgp := by
  induction txs generalizing ix with
  | nil => rwa [← Option.some_inj.1 h]
  | cons tx txs ih =>
    rw [List.foldlM_cons] at h
    obtain ⟨ix₁, h₁, hrest⟩ := Option.bind_eq_some_iff.1 h
    exact ih ((P.evaluateTransaction ix tx).dgp?_eq hdgp h₁) hrest

theorem applyUntilHead_spec {ix ix' : ChainState C} {b : SignedBlock C}
    {dgp : DynamicGlobalProperties C} (hdgp : ix.dgp? = some dgp)
    (h : P.applyUntilHead ix b = some ix') :
    P.Checks ix b ∧ ix'.dgp? =
      some { dgp with headBlockNumber := b.blockNum, headBlockId := P.blockId b } := by
  rw [applyUntilHead] at h
  split_ifs at h with hchecks
  refine ⟨hchecks, ?_⟩
  obtain ⟨ix₁, h₁, h⟩ := Option.bind_eq_some_iff.1 h
  obtain ⟨ix₂, h₂, h⟩ := Option.bind_eq_some_iff.1 h
  have hdgp₂ := (P.countMissed ix₁ b).dgp?_eq (dgp?_applyTransactions hdgp h₁) h₂
  rw [updateHead, hdgp₂] at h
  exact dgp?_of_modify h

theorem updateLastIrreversible_spec {ix ix' : ChainState C} {dgp : DynamicGlobalProperties C}
    (hdgp : ix.dgp? = some dgp) (h : (P.updateLastIrreversible ix).eval ix = some ix') :
    ∃ lib, ix'.dgp? = some { dgp with lastIrreversibleBlockNum := lib } ∧
      dgp.lastIrreversibleBlockNum ≤ lib ∧
      lib ≤ max dgp.lastIrreversibleBlockNum dgp.headBlockNumber := by
  rw [updateLastIrreversible, hdgp] at h
  simp only at h
  split_ifs at h with hlt
  · exact ⟨_, dgp?_of_modify h, hlt.le,
      (newLastIrreversible_le (P.confirmations_le ix dgp hdgp)).trans (le_max_right _ _)⟩
  · rw [← Option.some_inj.1 h]
    exact ⟨_, hdgp, le_rfl, le_max_left _ _⟩

theorem applyFromHead_spec {ix ix' : ChainState C} {b : SignedBlock C}
    {dgp : DynamicGlobalProperties C} (hdgp : ix.dgp? = some dgp)
    (h : P.applyFromHead ix b = some ix') :
    ∃ lib, ix'.dgp? = some { dgp with lastIrreversibleBlockNum := lib } ∧
      dgp.lastIrreversibleBlockNum ≤ lib ∧
      lib ≤ max dgp.lastIrreversibleBlockNum dgp.headBlockNumber := by
  rw [applyFromHead] at h
  split_ifs at h
  obtain ⟨ix₁, h₁, h⟩ := Option.bind_eq_some_iff.1 h
  obtain ⟨ix₂, h₂, h⟩ := Option.bind_eq_some_iff.1 h
  have hdgp₁ := (P.updateSigningWitness ix b).dgp?_eq hdgp h₁
  obtain ⟨lib, hdgp₂, hle, hmax⟩ := updateLastIrreversible_spec hdgp₁ h₂
  exact ⟨lib, (P.finishBlock ix₂ b).dgp?_eq hdgp₂ h, hle, hmax⟩

/-- **Every block** builds on the head block, becomes the head block, and moves the last
irreversible block forward if it moves it, but not past itself. -/
theorem applyBlock_spec {ix ix' : ChainState C} {b : SignedBlock C}
    {dgp : DynamicGlobalProperties C} (hdgp : ix.dgp? = some dgp)
    (h : P.applyBlock ix b = some ix') :
    P.Checks ix b ∧ ∃ lib,
      ix'.dgp? = some ⟨b.blockNum, P.blockId b, lib⟩ ∧
      dgp.lastIrreversibleBlockNum ≤ lib ∧ lib ≤ max dgp.lastIrreversibleBlockNum b.blockNum := by
  obtain ⟨ix₁, h₁, h⟩ := Option.bind_eq_some_iff.1 h
  obtain ⟨hchecks, hdgp₁⟩ := applyUntilHead_spec hdgp h₁
  exact ⟨hchecks, applyFromHead_spec hdgp₁ h⟩

end Protocol

end Graphene
