import Graphene.Chain.Calls

/-!
# Transactions and the duplicate index

Applying a transaction adds a `transaction_object` with its id, and a transaction whose id is in
the index is rejected.  The index would grow for ever, so that at the end of a block the
transactions in it that have expired are removed.  This is that part of `_apply_transaction` and
`_apply_block` in full, with duplicate checking enabled; what the operations of a transaction do,
and what else there is to a block, is left open once more.

* `TransactionTypes` — transactions with an id and an expiration.
* `SparingScript` — what the parts left open may do: anything but touch the duplicate index and
  the dynamic global properties, of which the head block time is one.
* `TransactionRules.evaluate`, `clearExpiredTransactions` — `_apply_transaction` and
  `clear_expired_transactions`.
* `TransactionRules.protocol` — the protocol of blocks made of these.
-/

set_option autoImplicit false

namespace Graphene

/-! ## Types -/

/-- The types a chain with transactions is built from. -/
structure TransactionTypes where
  /-- What the hash functions return. -/
  Digest : Type
  /-- Digests can be compared. -/
  decDigest : DecidableEq Digest
  /-- The digest of `block_id_type()`. -/
  zeroDigest : Digest
  /-- The witness, the extensions and the signature of a block header. -/
  Signing : Type
  /-- `signed_transaction`. -/
  Tx : Type
  /-- `transaction_id_type`. -/
  TxId : Type
  /-- Transaction ids can be compared. -/
  decTxId : DecidableEq TxId
  /-- The objects there are besides transaction objects and the dynamic global properties. -/
  Obj : Type
  /-- `transaction::id`, a hash of the transaction without its signatures. -/
  trxId : Tx → TxId
  /-- `expiration`. -/
  expiration : Tx → ℕ
  /-- The expiration is part of what is hashed. -/
  expiration_eq : ∀ tx tx', trxId tx = trxId tx' → expiration tx = expiration tx'

instance (T : TransactionTypes) : DecidableEq T.TxId := T.decTxId

/-- The content of a block header. -/
structure HeaderContent (T : TransactionTypes) where
  /-- `timestamp`. -/
  timestamp : ℕ
  /-- The witness and the rest. -/
  signing : T.Signing

/-- The objects of a chain with transactions. -/
inductive ChainData (T : TransactionTypes) where
  /-- `time` of the dynamic global properties. -/
  | time (t : ℕ)
  /-- `transaction_object`. -/
  | transaction (trx : T.Tx)
  /-- Any other object. -/
  | other (obj : T.Obj)

/-- The types of the chain. -/
abbrev TransactionTypes.types (T : TransactionTypes) : ChainTypes where
  Digest := T.Digest
  Content := HeaderContent T
  Tx := T.Tx
  Obj := ChainData T
  decDigest := T.decDigest
  zeroDigest := T.zeroDigest

/-- The `time` of the dynamic global properties, which is kept as an object of its own here. -/
def timeId : ObjectId := ⟨dgpId.index, 1⟩

/-- The index of the transaction objects: space `implementation_ids`, type
`impl_transaction_object_type`. -/
def transactionIndex : IndexId := ⟨2, 7⟩

variable {T : TransactionTypes}

/-- The timestamp of a block. -/
def SignedBlock.timestamp (b : SignedBlock T.types) : ℕ := b.header.content.timestamp

namespace Indexes

/-- `head_block_time`. -/
def headBlockTime (ix : ChainState T.types) : ℕ :=
  match ix.objects timeId with
  | some (.other (.time t)) => t
  | _ => 0

/-- The transaction object with a given instance number. -/
def transactionAt (ix : ChainState T.types) (inst : ℕ) : Option T.Tx :=
  match ix.objects ⟨transactionIndex, inst⟩ with
  | some (.other (.transaction trx)) => some trx
  | _ => none

/-- The transaction objects and their instance numbers. -/
def transactions (ix : ChainState T.types) : List (ℕ × T.Tx) :=
  (List.range (ix.nextId transactionIndex)).filterMap fun inst ↦
    (ix.transactionAt inst).map (inst, ·)

/-- There is a transaction object with this id. -/
def Knows (ix : ChainState T.types) (id : T.TxId) : Prop :=
  ∃ entry ∈ ix.transactions, T.trxId entry.2 = id

instance (ix : ChainState T.types) (id : T.TxId) : Decidable (ix.Knows id) :=
  inferInstanceAs (Decidable (∃ entry ∈ ix.transactions, _))

end Indexes

/-! ## Scripts -/

namespace Script

variable {V : Type}

/-- One script after another. -/
def append : Script V → Script V → Script V
  | done, t => t
  | throw, _ => throw
  | edit e rest, t => edit e (rest.append t)
  | proposal body rest, t => proposal body (rest.append t)

/-- A script, and then one that depends on what it has come to. -/
def andThen (s : Script V) (k : Indexes V → Script V) (ix : Indexes V) : Script V :=
  s.append ((s.eval ix).elim done k)

theorem eval_append (s t : Script V) (ix : Indexes V) :
    (s.append t).eval ix = (s.eval ix).bind t.eval := by
  induction s generalizing ix with
  | done => rfl
  | throw => rfl
  | edit e rest ih =>
    simp only [append, eval, Option.bind_assoc]
    congr
    funext ix'
    exact ih ix'
  | proposal body rest _ ih => exact ih _

theorem eval_andThen (s : Script V) (k : Indexes V → Script V) (ix : Indexes V) :
    (s.andThen k ix).eval ix = (s.eval ix).bind fun ix' ↦ (k ix').eval ix' := by
  rw [andThen, eval_append]
  cases s.eval ix <;> rfl

theorem depth_append_le {n : ℕ} {s t : Script V} (hs : s.depth ≤ n) (ht : t.depth ≤ n) :
    (s.append t).depth ≤ n := by
  induction s with
  | done => exact ht
  | throw => exact hs
  | edit e rest ih => exact ih hs
  | proposal body rest _ ih =>
    rw [depth, max_le_iff] at hs
    rw [append, depth, max_le_iff]
    exact ⟨hs.1, ih hs.2⟩

theorem depth_andThen_le {n : ℕ} {s : Script V} {k : Indexes V → Script V} (hs : s.depth ≤ n)
    (hk : ∀ ix, (k ix).depth ≤ n) (ix : Indexes V) : (s.andThen k ix).depth ≤ n := by
  refine depth_append_le hs ?_
  cases s.eval ix with
  | none => exact Nat.zero_le n
  | some ix' => exact hk ix'

theorem Avoids.append {id : ObjectId} {s t : Script V} (hs : s.Avoids id) (ht : t.Avoids id) :
    (s.append t).Avoids id := by
  induction s with
  | done => exact ht
  | throw => exact hs
  | edit e rest ih => exact ⟨hs.1, ih hs.2⟩
  | proposal body rest _ ih => exact ⟨hs.1, ih hs.2⟩

theorem Avoids.andThen {id : ObjectId} {s : Script V} {k : Indexes V → Script V}
    (hs : s.Avoids id) (hk : ∀ ix, (k ix).Avoids id) (ix : Indexes V) :
    (s.andThen k ix).Avoids id := by
  refine hs.append ?_
  cases s.eval ix with
  | none => exact trivial
  | some ix' => exact hk ix'

end Script

/-- The indexes of the duplicate index and the dynamic global properties. -/
def Guarded (index : IndexId) : Prop := index = dgpId.index ∨ index = transactionIndex

/-- An edit leaves the guarded indexes alone. -/
def Edit.Spares {V : Type} : Edit V → Prop
  | .create index _ => ¬ Guarded index
  | .modify id _ => ¬ Guarded id.index
  | .remove id => ¬ Guarded id.index

/-- A script leaves the guarded indexes alone. -/
def Script.Spares {V : Type} : Script V → Prop
  | .done | .throw => True
  | .edit e rest => e.Spares ∧ rest.Spares
  | .proposal body rest => body.Spares ∧ rest.Spares

theorem Edit.Spares.avoids {V : Type} {e : Edit V} (h : e.Spares) {id : ObjectId}
    (hid : Guarded id.index) : e.Avoids id := by
  cases e with
  | create index obj => exact trivial
  | modify id' obj =>
    rintro rfl
    exact h hid
  | remove id' =>
    rintro rfl
    exact h hid

theorem Script.Spares.avoids {V : Type} {s : Script V} (h : s.Spares) {id : ObjectId}
    (hid : Guarded id.index) : s.Avoids id := by
  induction s with
  | done => exact trivial
  | throw => exact trivial
  | edit e rest ih => exact ⟨h.1.avoids hid, ih h.2⟩
  | proposal body rest ihBody ihRest => exact ⟨ihBody h.1, ihRest h.2⟩

/-- What a part of the protocol that is left open may do.  It executes proposals, but not from
within proposals. -/
def SparingScript (T : TransactionTypes) :=
  { s : Script (ChainObject T.types) // s.Spares ∧ s.depth ≤ 1 }

/-! ## Rules -/

/-- What is left open about a chain with transactions. -/
structure TransactionRules (T : TransactionTypes) where
  /-- The hash of a signed header, less its first word. -/
  hash : BlockHeader T.types → T.Digest
  /-- No two headers that occur have the same hash. -/
  hash_injective : Function.Injective hash
  /-- `signed_block::calculate_merkle_root`. -/
  calculateMerkleRoot : List T.Tx → T.Digest
  /-- No two lists of transactions that occur have the same Merkle root. -/
  calculateMerkleRoot_injective : Function.Injective calculateMerkleRoot
  /-- `signed_transaction::validate`. -/
  validate : T.Tx → Bool
  /-- `verify_authority`. -/
  verifyAuthority : ChainState T.types → T.Tx → Bool
  /-- `ref_block_prefix` is that of the block summary `ref_block_num` refers to. -/
  tapos : ChainState T.types → T.Tx → Bool
  /-- `maximum_time_until_expiration`. -/
  maximumTimeUntilExpiration : ChainState T.types → ℕ
  /-- The operations of a transaction, and the check of the temporary account. -/
  operations : ChainState T.types → T.Tx → SparingScript T
  /-- The checkpoints, the witness, its signature and its slot. -/
  validateWitness : ChainState T.types → SignedBlock T.types → Bool
  /-- The witnesses `update_global_dynamic_data` counts as having missed a block. -/
  countMissed : ChainState T.types → SignedBlock T.types → SparingScript T
  /-- `update_signing_witness`. -/
  updateSigningWitness : ChainState T.types → SignedBlock T.types → SparingScript T
  /-- The `last_confirmed_block_num` of each active witness. -/
  confirmations : ChainState T.types → List ℕ
  /-- Only blocks up to the head block have been confirmed. -/
  confirmations_le : ∀ ix dgp, ix.dgp? = some dgp → ∀ n ∈ confirmations ix, n ≤ dgp.headBlockNumber
  /-- `perform_chain_maintenance` and `create_block_summary`. -/
  maintain : ChainState T.types → SignedBlock T.types → SparingScript T
  /-- What `_apply_block` does after `clear_expired_transactions`, the observers included. -/
  finish : ChainState T.types → SignedBlock T.types → SparingScript T

namespace TransactionRules

variable (R : TransactionRules T)

/-- What `_apply_transaction` checks of the block the transaction refers to, and of its expiration;
nothing for the first block. -/
def Timely (ix : ChainState T.types) (tx : T.Tx) : Prop :=
  0 < ix.headBlockNum → R.tapos ix tx = true ∧
    T.expiration tx ≤ ix.headBlockTime + R.maximumTimeUntilExpiration ix ∧
    ix.headBlockTime ≤ T.expiration tx

instance (ix : ChainState T.types) (tx : T.Tx) : Decidable (R.Timely ix tx) :=
  inferInstanceAs (Decidable (_ → _))

/-- The new transaction object. -/
def insertTransaction (tx : T.Tx) : Script (ChainObject T.types) :=
  .edit (.create transactionIndex (.other (.transaction tx))) .done

/-- `_apply_transaction`. -/
def evaluate (ix : ChainState T.types) (tx : T.Tx) : Script (ChainObject T.types) :=
  if R.validate tx = true ∧ ¬ ix.Knows (T.trxId tx) ∧ R.verifyAuthority ix tx = true ∧
      R.Timely ix tx then
    (insertTransaction tx).andThen (fun ix ↦ (R.operations ix tx).1) ix
  else .throw

/-- The change `update_global_dynamic_data` makes to the head block time. -/
def setTime (b : SignedBlock T.types) : Script (ChainObject T.types) :=
  .edit (.modify timeId (.other (.time b.timestamp))) .done

/-- The loop of `clear_expired_transactions` over the transaction objects, the one that expires last
first. -/
def clearExpired (headBlockTime : ℕ) : List (ℕ × T.Tx) → Script (ChainObject T.types)
  | [] => .done
  | (inst, tx) :: rest =>
    if headBlockTime > T.expiration tx then
      .edit (.remove ⟨transactionIndex, inst⟩) (clearExpired headBlockTime rest)
    else .done

/-- `clear_expired_transactions`. -/
def clearExpiredTransactions (ix : ChainState T.types) : Script (ChainObject T.types) :=
  clearExpired ix.headBlockTime
    (ix.transactions.insertionSort fun x y ↦ T.expiration x.2 ≥ T.expiration y.2)

/-- What `_apply_block` does after `update_last_irreversible_block`. -/
def finishBlock (ix : ChainState T.types) (b : SignedBlock T.types) :
    Script (ChainObject T.types) :=
  (R.maintain ix b).1.andThen
    (fun ix ↦ (clearExpiredTransactions ix).andThen (fun ix ↦ (R.finish ix b).1) ix) ix

/-! ## The protocol -/

theorem avoids_dgp (s : SparingScript T) : s.1.Avoids dgpId := s.2.1.avoids (Or.inl rfl)

theorem insertTransaction_avoids (tx : T.Tx) : (insertTransaction tx).Avoids dgpId :=
  ⟨trivial, trivial⟩

theorem setTime_avoids (b : SignedBlock T.types) : (setTime b).Avoids dgpId :=
  ⟨by simp [Edit.Avoids, dgpId, timeId], trivial⟩

theorem clearExpired_avoids (headBlockTime : ℕ) (entries : List (ℕ × T.Tx)) :
    (clearExpired headBlockTime entries).Avoids dgpId := by
  induction entries with
  | nil => exact trivial
  | cons entry rest ih =>
    obtain ⟨inst, tx⟩ := entry
    rw [clearExpired]
    split
    · exact ⟨by simp [Edit.Avoids, dgpId, transactionIndex], ih⟩
    · exact trivial

theorem clearExpired_depth (headBlockTime : ℕ) (entries : List (ℕ × T.Tx)) :
    (clearExpired headBlockTime entries).depth ≤ 1 := by
  induction entries with
  | nil => exact Nat.zero_le 1
  | cons entry rest ih =>
    obtain ⟨inst, tx⟩ := entry
    rw [clearExpired]
    split
    · exact ih
    · exact Nat.zero_le 1

theorem evaluate_avoids (ix : ChainState T.types) (tx : T.Tx) :
    (R.evaluate ix tx).Avoids dgpId := by
  rw [evaluate]
  split
  · exact (insertTransaction_avoids tx).andThen (fun _ ↦ avoids_dgp _) ix
  · exact trivial

theorem evaluate_depth (ix : ChainState T.types) (tx : T.Tx) : (R.evaluate ix tx).depth ≤ 1 := by
  rw [evaluate]
  split
  · exact Script.depth_andThen_le (Nat.zero_le 1) (fun ix' ↦ (R.operations ix' tx).2.2) ix
  · exact Nat.zero_le 1

theorem finishBlock_avoids (ix : ChainState T.types) (b : SignedBlock T.types) :
    (R.finishBlock ix b).Avoids dgpId :=
  (avoids_dgp _).andThen
    (fun ix' ↦ (clearExpired_avoids _ _).andThen (fun _ ↦ avoids_dgp _) ix') ix

theorem finishBlock_depth (ix : ChainState T.types) (b : SignedBlock T.types) :
    (R.finishBlock ix b).depth ≤ 1 :=
  Script.depth_andThen_le (R.maintain ix b).2.2
    (fun ix' ↦ Script.depth_andThen_le (clearExpired_depth _ _)
      (fun ix'' ↦ (R.finish ix'' b).2.2) ix') ix

/-- The protocol of the chain. -/
def protocol : Protocol T.types where
  hash := R.hash
  hash_injective := R.hash_injective
  calculateMerkleRoot := R.calculateMerkleRoot
  calculateMerkleRoot_injective := R.calculateMerkleRoot_injective
  validateBlockHeader ix b := ix.headBlockTime < b.timestamp && R.validateWitness ix b
  evaluateTransaction ix tx := ⟨R.evaluate ix tx, R.evaluate_avoids ix tx⟩
  countMissed ix b := ⟨(R.countMissed ix b).1.append (setTime b),
    (avoids_dgp _).append (setTime_avoids b)⟩
  updateSigningWitness ix b := ⟨(R.updateSigningWitness ix b).1, avoids_dgp _⟩
  confirmations := R.confirmations
  confirmations_le := R.confirmations_le
  finishBlock ix b := ⟨R.finishBlock ix b, R.finishBlock_avoids ix b⟩
  isKnownTransaction ix tx := ix.Knows (T.trxId tx)

/-- Proposals are executed one at a time. -/
theorem nests : R.protocol.Nests 1 where
  tx tx ix := R.evaluate_depth ix tx
  block b :=
    { transactions := fun tx _ ix ↦ R.evaluate_depth ix tx
      countMissed := fun ix ↦ Script.depth_append_le (R.countMissed ix b).2.2 (Nat.zero_le 1)
      updateSigningWitness := fun ix ↦ (R.updateSigningWitness ix b).2.2
      finishBlock := fun ix ↦ R.finishBlock_depth ix b }

end TransactionRules

end Graphene
