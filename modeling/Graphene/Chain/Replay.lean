import Graphene.Chain.AppliedOnce
import Graphene.Db.SideBySide
import Mathlib.Data.Finset.Insert

/-!
# Replaying a chain

`reindex` applies the blocks of the log once more, from the genesis state.  It skips the checks that
have been made when the blocks were first applied, it does not fill the duplicate index, and it runs
with the undo database disabled: only the sessions that `push_proposal` forces are real ones.

* `BlockRules` — what is left open about a block; `BlockRules.applyBlock`, the code of a block, with
  the checks that are skipped.
* `BlockRules.Live`, `BlockRules.replay` — a node that pushes blocks, and the loop of `reindex`.
* `replay_agrees` — the two come to the same objects, less the transaction objects, unless a
  proposal goes through in replay while the undo stack is empty.
* `replay_differs` — a chain of one block that is replayed to something else.
-/

set_option autoImplicit false

namespace Graphene

/-! ## What is skipped -/

/-- The `validation_steps` that applying a block looks at. -/
inductive ValidationStep where
  /-- `skip_witness_signature`. -/
  | witnessSignature
  /-- `skip_transaction_signatures`. -/
  | transactionSignatures
  /-- `skip_transaction_dupe_check`. -/
  | transactionDupeCheck
  /-- `skip_tapos_check`. -/
  | taposCheck
  /-- `skip_authority_check`. -/
  | authorityCheck
  /-- `skip_merkle_check`. -/
  | merkleCheck
  /-- `skip_assert_evaluation`. -/
  | assertEvaluation
  /-- `skip_undo_history_check`. -/
  | undoHistoryCheck
  /-- `skip_witness_schedule_check`. -/
  | witnessScheduleCheck
deriving DecidableEq

namespace ValidationStep

/-- `~0`. -/
def all : Finset ValidationStep :=
  {witnessSignature, transactionSignatures, transactionDupeCheck, taposCheck, authorityCheck,
    merkleCheck, assertEvaluation, undoHistoryCheck, witnessScheduleCheck}

/-- What `reindex` skips. -/
def reindex : Finset ValidationStep :=
  {witnessSignature, transactionSignatures, transactionDupeCheck, taposCheck,
    witnessScheduleCheck, authorityCheck}

end ValidationStep

open ValidationStep

/-! ## What is left open -/

variable {T : TransactionTypes}

/-- Something read from the objects other than the transaction objects. -/
def Reading (T : TransactionTypes) (α : Type) :=
  { f : ChainState T.types → α // ∀ ix, f (ix.hide transactionIndex) = f ix }

/-- Code that does without the transaction objects. -/
def SparingCode (T : TransactionTypes) :=
  { c : Code (ChainObject T.types) // c.Spares transactionIndex }

/-- A proposal that has expired. -/
structure ExpiredProposal (T : TransactionTypes) where
  /-- `id`. -/
  inst : ℕ
  /-- `is_authorized_to_execute`. -/
  authorized : Bool
  /-- The operations of `proposed_transaction`. -/
  operations : SparingCode T

/-- What is left open about a block. -/
structure BlockRules (T : TransactionTypes) where
  /-- The hash of a signed header, less its first word. -/
  hash : BlockHeader T.types → T.Digest
  /-- `signed_block::calculate_merkle_root`. -/
  calculateMerkleRoot : List T.Tx → T.Digest
  /-- `_checkpoints`, in the order of the block numbers. -/
  checkpoints : List (ℕ × BlockId T.types)
  /-- The witness of the block is there. -/
  hasWitness : SignedBlock T.types → Reading T Bool
  /-- `validate_signee`. -/
  validateSignee : ChainState T.types → SignedBlock T.types → Bool
  /-- The witness of the block is the one scheduled for its slot. -/
  isScheduled : ChainState T.types → SignedBlock T.types → Bool
  /-- `signed_transaction::validate`. -/
  validate : T.Tx → Bool
  /-- `verify_authority`. -/
  verifyAuthority : ChainState T.types → T.Tx → Bool
  /-- `ref_block_prefix` is that of the block summary `ref_block_num` refers to. -/
  tapos : ChainState T.types → T.Tx → Bool
  /-- `maximum_time_until_expiration`. -/
  maximumTimeUntilExpiration : Reading T ℕ
  /-- The operations of a transaction, and the check of the temporary account.  The only flag the
  evaluators depend on is `skip_assert_evaluation`: what `balance_claim_evaluator` checks when
  neither authorities nor signatures are skipped follows from what it checks next. -/
  operations : Bool → T.Tx → SparingCode T
  /-- The witnesses `update_global_dynamic_data` counts as having missed a block. -/
  countMissed : SignedBlock T.types → SparingCode T
  /-- `update_signing_witness`. -/
  updateSigningWitness : SignedBlock T.types → SparingCode T
  /-- The `last_confirmed_block_num` of each active witness. -/
  confirmations : Reading T (List ℕ)
  /-- `perform_chain_maintenance`, if it is time, and `create_block_summary`. -/
  maintain : SignedBlock T.types → SparingCode T
  /-- The proposals that have expired, by expiration. -/
  expiredProposals : Reading T (List (ExpiredProposal T))
  /-- What `_apply_block` does after `clear_expired_proposals`, the observers of `applied_block`
  included. -/
  finish : SignedBlock T.types → SparingCode T
  /-- The observers of `changed_objects` throw. -/
  changedObjectsThrow : ObjectDatabase (ChainObject T.types) → Bool

/-! ## The code of a block -/

/-- The code that does what a script does. -/
def Code.ofScript {V : Type} : Script V → Code V
  | .done => done
  | .throw => throw
  | .edit e rest => edit e (ofScript rest)
  | .proposal body rest => proposal (ofScript body) fun _ ↦ ofScript rest

/-- The code goes on if the objects are as they have to be. -/
def Code.check {V : Type} (p : Indexes V → Prop) [DecidablePred p] : Code V :=
  look fun ix ↦ if p ix then done else throw

namespace BlockRules

variable (R : BlockRules T) (skip : Finset ValidationStep) (b : SignedBlock T.types)

/-- `signed_block_header::id`. -/
def blockId : BlockId T.types := ⟨b.blockNum, R.hash b.header⟩

/-- `transaction_merkle_root == calculate_merkle_root()`. -/
def MerkleOk : Prop := b.header.transactionMerkleRoot = R.calculateMerkleRoot b.transactions

instance : Decidable (R.MerkleOk b) := T.decDigest _ _

/-- What `validate_block_header` checks. -/
def HeaderOk (ix : ChainState T.types) : Prop :=
  ix.headBlockId = b.previous ∧ ix.headBlockTime < b.timestamp ∧ (R.hasWitness b).1 ix = true ∧
    (witnessSignature ∈ skip ∨ R.validateSignee ix b = true) ∧
    (witnessScheduleCheck ∈ skip ∨ R.isScheduled ix b = true)

/-- What `_apply_transaction` checks. -/
def TransactionOk (tx : T.Tx) (ix : ChainState T.types) : Prop :=
  R.validate tx = true ∧ (transactionDupeCheck ∈ skip ∨ ¬ ix.Knows (T.trxId tx)) ∧
    (transactionSignatures ∈ skip ∨ authorityCheck ∈ skip ∨ R.verifyAuthority ix tx = true) ∧
    (0 < ix.headBlockNum → (taposCheck ∈ skip ∨ R.tapos ix tx = true) ∧
      T.expiration tx ≤ ix.headBlockTime + R.maximumTimeUntilExpiration.1 ix ∧
      ix.headBlockTime ≤ T.expiration tx)

instance : DecidablePred (R.HeaderOk skip b) := fun _ ↦ inferInstanceAs (Decidable (_ ∧ _))

instance (tx : T.Tx) : DecidablePred (R.TransactionOk skip tx) :=
  fun _ ↦ inferInstanceAs (Decidable (_ ∧ _))

/-- What `_apply_transaction` does when it has checked the transaction. -/
def evaluateTransaction (tx : T.Tx) : Code (ChainObject T.types) :=
  let operations := (R.operations (decide (assertEvaluation ∈ skip)) tx).1
  if transactionDupeCheck ∈ skip then operations
  else .edit (.create transactionIndex (.other (.transaction tx))) operations

/-- `_apply_transaction`. -/
def applyTransaction (tx : T.Tx) : Code (ChainObject T.types) :=
  (Code.check (R.TransactionOk skip tx)).andThen (R.evaluateTransaction skip tx)

/-- `update_global_dynamic_data`. -/
def updateGlobalDynamicData : Code (ChainObject T.types) :=
  (R.countMissed b).1.andThen <| .look fun ix ↦
    match ix.dgp? with
    | none => .throw
    | some dgp =>
      let nextMaxSize := b.blockNum - dgp.lastIrreversibleBlockNum
      .edit (.modify dgpId (.dynamicGlobalProperties
          { dgp with headBlockNumber := b.blockNum, headBlockId := R.blockId b })) <|
        .edit (.modify timeId (.other (.time b.timestamp))) <|
          if undoHistoryCheck ∈ skip ∨ nextMaxSize < maxUndoHistory then
            .setMaxSize (nextMaxSize + 1) .done
          else .throw

/-- `update_last_irreversible_block`. -/
def updateLastIrreversibleBlock : Code (ChainObject T.types) :=
  .look fun ix ↦
    match ix.dgp? with
    | none => .throw
    | some dgp =>
      let num := newLastIrreversible (R.confirmations.1 ix)
      if num > dgp.lastIrreversibleBlockNum then
        .edit (.modify dgpId
          (.dynamicGlobalProperties { dgp with lastIrreversibleBlockNum := num })) .done
      else .done

/-- `clear_expired_transactions`. -/
def clearExpiredTransactions : Code (ChainObject T.types) :=
  .look fun ix ↦ .ofScript (TransactionRules.clearExpiredTransactions ix)

/-- The object id of a proposal. -/
def proposalId (inst : ℕ) : ObjectId := ⟨⟨1, 10⟩, inst⟩

/-- `n` rounds of the loop of `clear_expired_proposals`. -/
def clearExpired : ℕ → Code (ChainObject T.types)
  | 0 => .done
  | n + 1 => .look fun ix ↦
    match R.expiredProposals.1 ix with
    | [] => .done
    | proposal :: _ =>
      let remove := Edit.remove (proposalId proposal.inst)
      if proposal.authorized then
        .proposal (proposal.operations.1.andThen (.edit remove .done)) fun ok ↦
          if ok then clearExpired n else .edit remove (clearExpired n)
      else .edit remove (clearExpired n)

/-- `clear_expired_proposals`.  Each round removes a proposal, and none that is created while one is
executed has expired yet, so that there are as many rounds as proposals have expired. -/
def clearExpiredProposals : Code (ChainObject T.types) :=
  .look fun ix ↦ R.clearExpired (R.expiredProposals.1 ix).length

/-- `_apply_block`, but for `notify_changed_objects`. -/
def applyUnchecked : Code (ChainObject T.types) :=
  if merkleCheck ∈ skip ∨ R.MerkleOk b then
    (Code.check (R.HeaderOk skip b)).andThen <|
      b.transactions.foldr (fun tx rest ↦ (R.applyTransaction skip tx).andThen rest) <|
        (R.updateGlobalDynamicData skip b).andThen <|
          (R.updateSigningWitness b).1.andThen <| R.updateLastIrreversibleBlock.andThen <|
            (R.maintain b).1.andThen <| clearExpiredTransactions.andThen <|
              R.clearExpiredProposals.andThen (R.finish b).1
  else .throw

/-- The last checkpoint is one. -/
def Checkpointed : Prop := ∃ last ∈ R.checkpoints.getLast?, last.2 ≠ BlockId.zero T.types

/-- The block is one of those up to the last checkpoint. -/
def BeforeLastCheckpoint : Prop := ∃ last ∈ R.checkpoints.getLast?, last.1 ≥ b.blockNum

instance : Decidable R.Checkpointed := inferInstanceAs (Decidable (∃ _ ∈ _, _))

instance : Decidable (R.BeforeLastCheckpoint b) := inferInstanceAs (Decidable (∃ _ ∈ _, _))

/-- `apply_block`, but for `notify_changed_objects`. -/
def applyBlock : Code (ChainObject T.types) :=
  if R.Checkpointed then
    if ∀ id ∈ R.checkpoints.lookup b.blockNum, R.blockId b = id then
      R.applyUnchecked (if R.BeforeLastCheckpoint b then all else skip) b
    else .throw
  else R.applyUnchecked skip b

/-! ## Nodes -/

variable (db : ObjectDatabase (ChainObject T.types))

/-- Apply a block, and notify the observers of the objects that have changed if the undo database is
enabled; `none` if anything throws. -/
def apply : Option (ObjectDatabase (ChainObject T.types)) :=
  match (R.applyBlock skip b).exec db with
  | some (true, db) =>
    if db.undoDb.disabled = false ∧ R.changedObjectsThrow db = true then none else some db
  | _ => none

/-- `push_block`, for a block that builds on the head block. -/
def pushBlock : Option (ObjectDatabase (ChainObject T.types)) :=
  (R.apply skip b db.startUndoSession.1).bind fun db' ↦
    (db.startUndoSession.2.commit db').map Prod.fst

/-- A node, started on `genesis`, has accepted some blocks, with the undo database enabled.  What
else it does between two blocks leaves the objects as they were. -/
inductive Live (genesis : ObjectDatabase (ChainObject T.types)) :
    List (SignedBlock T.types) → ObjectDatabase (ChainObject T.types) → Prop
  /-- No blocks. -/
  | start : Live genesis [] genesis
  /-- One more block. -/
  | push {blocks : List (SignedBlock T.types)} {db db' : ObjectDatabase (ChainObject T.types)}
    (h : Live genesis blocks db) (undoDb : UndoDatabase (ChainObject T.types))
    (henabled : undoDb.disabled = false) (hmaxSize : undoDb.maxSize = db.undoDb.maxSize)
    (skip : Finset ValidationStep) (hskip : skip ⊆ reindex) (b : SignedBlock T.types)
    (hpush : R.pushBlock skip b { db with undoDb } = some db') : Live genesis (blocks ++ [b]) db'

/-- The loop of `reindex`, with the undo database disabled; `none` if a block is not accepted. -/
def replay (genesis : ObjectDatabase (ChainObject T.types)) (blocks : List (SignedBlock T.types)) :
    Option (ObjectDatabase (ChainObject T.types)) :=
  blocks.foldlM (fun db b ↦ R.apply reindex b db)
    { genesis with undoDb := { genesis.undoDb with disabled := true } }

/-- Wherever a proposal is executed in replay on an empty undo stack, it fails. -/
def ReplaySupported (genesis : ObjectDatabase (ChainObject T.types))
    (blocks : List (SignedBlock T.types)) : Prop :=
  ∀ before b after db, blocks = before ++ b :: after → R.replay genesis before = some db →
    (R.applyBlock reindex b).Supported db

end BlockRules

/-! ## What replay leaves out -/

namespace Indexes

variable {ix : ChainState T.types}

theorem dgp?_hide : (ix.hide transactionIndex).dgp? = ix.dgp? := by
  rw [dgp?, dgp?, objects_hide (by decide)]

theorem headBlockNum_hide : (ix.hide transactionIndex).headBlockNum = ix.headBlockNum := by
  rw [headBlockNum, headBlockNum, dgp?_hide]

theorem headBlockId_hide : (ix.hide transactionIndex).headBlockId = ix.headBlockId := by
  rw [headBlockId, headBlockId, dgp?_hide]

theorem headBlockTime_hide : (ix.hide transactionIndex).headBlockTime = ix.headBlockTime := by
  rw [headBlockTime, headBlockTime, objects_hide (by decide)]

theorem transactions_hide : (ix.hide transactionIndex).transactions = [] := by
  have hnext : (ix.hide transactionIndex).nextId transactionIndex = 0 := by simp [hide]
  rw [transactions, hnext]
  rfl

end Indexes

namespace BlockRules

variable {R : BlockRules T} {skip skip' : Finset ValidationStep} {b : SignedBlock T.types}

theorem mirrors_check {V : Type} {hidden : IndexId} {p p' : Indexes V → Prop} [DecidablePred p]
    [DecidablePred p'] (h : ∀ ix, p ix → p' (ix.hide hidden)) :
    Code.Mirrors hidden (Code.check p) (Code.check p') := by
  refine .look fun ix ↦ ?_
  by_cases hp : p ix
  · rw [if_pos hp, if_pos (h ix hp)]
    exact .same trivial
  · rw [if_neg hp]
    exact .throw _

theorem HeaderOk.hide {ix : ChainState T.types} (h : R.HeaderOk skip b ix)
    (hreindex : reindex ⊆ skip') : R.HeaderOk skip' b (ix.hide transactionIndex) := by
  obtain ⟨hprevious, htime, hwitness, -, -⟩ := h
  refine ⟨?_, ?_, ?_, Or.inl (hreindex (by decide)), Or.inl (hreindex (by decide))⟩
  · rwa [Indexes.headBlockId_hide]
  · rwa [Indexes.headBlockTime_hide]
  · rwa [(R.hasWitness b).2]

theorem TransactionOk.hide {tx : T.Tx} {ix : ChainState T.types} (h : R.TransactionOk skip tx ix)
    (hreindex : reindex ⊆ skip') : R.TransactionOk skip' tx (ix.hide transactionIndex) := by
  obtain ⟨hvalidate, -, -, htimely⟩ := h
  refine ⟨hvalidate, Or.inl (hreindex (by decide)), Or.inl (hreindex (by decide)), fun hnum ↦ ?_⟩
  rw [Indexes.headBlockNum_hide] at hnum
  rw [Indexes.headBlockTime_hide, R.maximumTimeUntilExpiration.2]
  exact ⟨Or.inl (hreindex (by decide)), (htimely hnum).2⟩

theorem dgpId_visible : dgpId.index ≠ transactionIndex := by decide

theorem timeId_visible : timeId.index ≠ transactionIndex := by decide

theorem proposalId_visible (inst : ℕ) : (proposalId inst).index ≠ transactionIndex := by
  have h : (⟨1, 10⟩ : IndexId) ≠ transactionIndex := by decide
  exact h

theorem mirrors_applyTransaction (hreindex : reindex ⊆ skip')
    (hassert : assertEvaluation ∈ skip' ↔ assertEvaluation ∈ skip) (tx : T.Tx) :
    Code.Mirrors transactionIndex (R.applyTransaction skip tx) (R.applyTransaction skip' tx) := by
  refine .andThen (mirrors_check fun ix h ↦ h.hide hreindex) ?_
  have hdupe : transactionDupeCheck ∈ skip' := hreindex (by decide)
  simp only [evaluateTransaction, if_pos hdupe, hassert]
  split_ifs
  · exact .same (R.operations _ tx).2
  · exact .edit rfl (.same (R.operations _ tx).2)

theorem spares_updateGlobalDynamicData :
    (R.updateGlobalDynamicData skip b).Spares transactionIndex := by
  refine ⟨(R.countMissed b).2, fun ok ↦ ?_⟩
  cases ok with
  | false => exact trivial
  | true =>
    refine ⟨fun ix ↦ by simp only [Indexes.dgp?_hide], fun ix ↦ ?_⟩
    dsimp only
    cases ix.dgp? with
    | none => exact trivial
    | some dgp =>
      refine ⟨dgpId_visible, timeId_visible, ?_⟩
      split_ifs <;> exact trivial

theorem spares_updateLastIrreversibleBlock :
    R.updateLastIrreversibleBlock.Spares transactionIndex := by
  refine ⟨fun ix ↦ by simp only [Indexes.dgp?_hide, R.confirmations.2], fun ix ↦ ?_⟩
  dsimp only
  cases ix.dgp? with
  | none => exact trivial
  | some dgp =>
    dsimp only
    split_ifs
    · exact ⟨dgpId_visible, trivial⟩
    · exact trivial

theorem mirrors_clearExpired (headBlockTime : ℕ) (entries : List (ℕ × T.Tx)) :
    Code.Mirrors transactionIndex
      (.ofScript (TransactionRules.clearExpired headBlockTime entries)) .done := by
  induction entries with
  | nil => exact .same trivial
  | cons entry rest ih =>
    obtain ⟨inst, tx⟩ := entry
    rw [TransactionRules.clearExpired]
    split_ifs
    · exact .edit rfl ih
    · exact .same trivial

/-- In replay there is nothing to clear. -/
theorem mirrors_clearExpiredTransactions :
    Code.Mirrors transactionIndex (clearExpiredTransactions (T := T)) clearExpiredTransactions := by
  refine .look fun ix ↦ ?_
  have hnone : TransactionRules.clearExpiredTransactions (ix.hide transactionIndex) = .done := by
    rw [TransactionRules.clearExpiredTransactions, Indexes.transactions_hide]
    rfl
  rw [hnone]
  exact mirrors_clearExpired _ _

theorem spares_clearExpired (n : ℕ) : (R.clearExpired n).Spares transactionIndex := by
  induction n with
  | zero => exact trivial
  | succ n ih =>
    refine ⟨fun ix ↦ by simp only [R.expiredProposals.2], fun ix ↦ ?_⟩
    dsimp only
    cases R.expiredProposals.1 ix with
    | nil => exact trivial
    | cons proposal _ =>
      dsimp only
      split_ifs
      · refine ⟨⟨proposal.operations.2, fun ok ↦ ?_⟩, fun ok ↦ ?_⟩
        · cases ok with
          | false => exact trivial
          | true => exact ⟨proposalId_visible _, trivial⟩
        · cases ok with
          | false => exact ⟨proposalId_visible _, ih⟩
          | true => exact ih
      · exact ⟨proposalId_visible _, ih⟩

theorem spares_clearExpiredProposals : R.clearExpiredProposals.Spares transactionIndex := by
  refine ⟨fun ix ↦ by simp only [R.expiredProposals.2], fun ix ↦ ?_⟩
  exact spares_clearExpired _

/-- **Applying a block** that skips more. -/
theorem mirrors_applyUnchecked (hskip : skip ⊆ skip') (hreindex : reindex ⊆ skip')
    (hassert : assertEvaluation ∈ skip' ↔ assertEvaluation ∈ skip)
    (hundo : undoHistoryCheck ∈ skip' ↔ undoHistoryCheck ∈ skip) :
    Code.Mirrors transactionIndex (R.applyUnchecked skip b) (R.applyUnchecked skip' b) := by
  have hupdate : R.updateGlobalDynamicData skip' b = R.updateGlobalDynamicData skip b := by
    simp only [updateGlobalDynamicData, hundo]
  rw [applyUnchecked, applyUnchecked, hupdate]
  split_ifs with hroot hroot'
  · refine .andThen (mirrors_check fun ix h ↦ h.hide hreindex) ?_
    induction b.transactions with
    | nil =>
      exact .andThen (.same spares_updateGlobalDynamicData) <|
        .andThen (.same (R.updateSigningWitness b).2) <|
          .andThen (.same spares_updateLastIrreversibleBlock) <|
            .andThen (.same (R.maintain b).2) <| .andThen mirrors_clearExpiredTransactions <|
              .andThen (.same spares_clearExpiredProposals) (.same (R.finish b).2)
    | cons tx txs ih => exact (mirrors_applyTransaction hreindex hassert tx).andThen ih
  · exact absurd (hroot.imp_left fun h ↦ hskip h) hroot'
  · exact .throw _
  · exact .throw _

theorem mirrors_applyBlock (hskip : skip ⊆ reindex) :
    Code.Mirrors transactionIndex (R.applyBlock skip b) (R.applyBlock reindex b) := by
  have hassert : assertEvaluation ∉ reindex := by decide
  have hundo : undoHistoryCheck ∉ reindex := by decide
  have hunchecked := mirrors_applyUnchecked (R := R) (b := b) hskip subset_rfl
    (iff_of_false hassert fun h ↦ hassert (hskip h)) (iff_of_false hundo fun h ↦ hundo (hskip h))
  rw [applyBlock, applyBlock]
  split_ifs
  · exact mirrors_applyUnchecked subset_rfl (by decide) Iff.rfl Iff.rfl
  · exact hunchecked
  · exact .throw _
  · exact hunchecked

/-! ## Replay agrees -/

variable {db db' : ObjectDatabase (ChainObject T.types)}

theorem exec_of_apply (h : R.apply skip b db = some db') :
    (R.applyBlock skip b).exec db = some (true, db') := by
  rw [apply] at h
  split at h
  · split_ifs at h
    rwa [← Option.some_inj.1 h]
  · cases h

theorem apply_of_exec (h : (R.applyBlock skip b).exec db = some (true, db'))
    (hdisabled : db'.undoDb.disabled = true) : R.apply skip b db = some db' := by
  simp [apply, h, hdisabled]

/-- The database of a node that replays, beside that of one that has applied the same blocks. -/
structure Replayed (db db' : ObjectDatabase (ChainObject T.types)) : Prop where
  /-- The same objects, less the transaction objects. -/
  indexes_eq : db'.indexes = db.indexes.hide transactionIndex
  /-- The undo database is disabled. -/
  disabled : db'.undoDb.disabled = true
  /-- The same bound on the number of undo states. -/
  maxSize_eq : db'.undoDb.maxSize = db.undoDb.maxSize

/-- **One block**, pushed and replayed. -/
theorem Replayed.push (h : Replayed db db') {undoDb : UndoDatabase (ChainObject T.types)}
    (henabled : undoDb.disabled = false) (hmaxSize : undoDb.maxSize = db.undoDb.maxSize)
    (hskip : skip ⊆ reindex) {db₁ : ObjectDatabase (ChainObject T.types)}
    (hpush : R.pushBlock skip b { db with undoDb } = some db₁)
    (hsupported : (R.applyBlock reindex b).Supported db') :
    ∃ db₁', R.apply reindex b db' = some db₁' ∧ Replayed db₁ db₁' := by
  have hstart : ({ db with undoDb } : ObjectDatabase _).startUndoSession =
      ({ db with undoDb := undoDb.push }, {}) := by
    simp [ObjectDatabase.startUndoSession, henabled]
  rw [pushBlock, hstart] at hpush
  obtain ⟨db₂, happly, hcommit⟩ := Option.bind_eq_some_iff.1 hpush
  have halongside : Alongside transactionIndex False 0 { db with undoDb := undoDb.push } db' :=
    { indexes_eq := h.indexes_eq
      enabled := rfl
      disabled_eq := h.disabled
      maxSize_eq := h.maxSize_eq.trans hmaxSize.symm
      le_active := Nat.zero_le _
      le_active' := Nat.zero_le _
      stack := .of_ne_nil (List.cons_ne_nil _ _) False.elim }
  obtain ⟨db₁', hexec, hafter⟩ :=
    (mirrors_applyBlock hskip).exec halongside hsupported (exec_of_apply happly)
  refine ⟨db₁', apply_of_exec hexec hafter.disabled_eq, ?_⟩
  -- committing the session changes neither the objects nor the bound
  simp only [Session.commit, Option.map_map, ObjectDatabase.commit] at hcommit
  split_ifs at hcommit
  · cases hcommit
  · obtain rfl := Option.some_inj.1 hcommit
    exact ⟨hafter.indexes_eq, hafter.disabled_eq, hafter.maxSize_eq⟩

end BlockRules

open BlockRules in
/-- **Replay agrees**: what a node has accepted with the undo database enabled, `reindex` accepts,
and it comes to the same objects, less the transaction objects, if no proposal goes through in
replay while the undo stack is empty. -/
theorem replay_agrees {R : BlockRules T} {genesis db : ObjectDatabase (ChainObject T.types)}
    {blocks : List (SignedBlock T.types)}
    (hgenesis : genesis.indexes.hide transactionIndex = genesis.indexes)
    (h : R.Live genesis blocks db) (hsupported : R.ReplaySupported genesis blocks) :
    ∃ db', R.replay genesis blocks = some db' ∧
      db'.indexes = db.indexes.hide transactionIndex := by
  suffices hreplayed : ∃ db', R.replay genesis blocks = some db' ∧ Replayed db db' by
    obtain ⟨db', hreplay, hdb⟩ := hreplayed
    exact ⟨db', hreplay, hdb.indexes_eq⟩
  induction h with
  | start => exact ⟨_, rfl, hgenesis.symm, rfl, rfl⟩
  | @push blocks db db₁ _ undoDb henabled hmaxSize skip hskip b hpush ih =>
    obtain ⟨db', hreplay, hdb⟩ := ih fun before b' after d heq ↦
      hsupported before b' (after ++ [b]) d (by rw [heq, List.append_assoc]; rfl)
    obtain ⟨db₁', happly, hdb₁⟩ :=
      hdb.push henabled hmaxSize hskip hpush (hsupported blocks b [] db' rfl hreplay)
    refine ⟨db₁', ?_, hdb₁⟩
    rw [replay] at hreplay ⊢
    rw [List.foldlM_append, hreplay]
    show ([b].foldlM (fun db b ↦ R.apply reindex b db) db') = some db₁'
    rw [List.foldlM_cons, happly]
    rfl

/-! ## Chains of one and two blocks -/

namespace Testnet

open BlockRules

/-- The object that a payment creates. -/
def paymentId : ObjectId := ⟨payments, 0⟩

/-- The proposal with a given number, if it is there.  It creates a payment, or fails. -/
def toProposal (fails : ℕ → Bool) (inst : ℕ) : ExpiredProposal expiring where
  inst
  authorized := true
  operations :=
    ⟨if fails inst then .throw else .edit (.create payments (.other (.other ()))) .done, by
      split_ifs
      · exact trivial
      · exact ⟨by decide, trivial⟩⟩

/-- Every transaction creates a proposal that has already expired; of the proposals some fail. -/
def replayRules (fails : ℕ → Bool) : BlockRules expiring where
  hash h := .header h.previous.num h.previous.digest h.transactionMerkleRoot h.content.timestamp
  calculateMerkleRoot := .root
  checkpoints := []
  hasWitness _ := ⟨fun _ ↦ true, fun _ ↦ rfl⟩
  validateSignee _ _ := true
  isScheduled _ _ := true
  validate _ := true
  verifyAuthority _ _ := true
  tapos _ _ := true
  maximumTimeUntilExpiration := ⟨fun _ ↦ 1000, fun _ ↦ rfl⟩
  operations _ _ :=
    ⟨.edit (.create (proposalId 0).index (.other (.other ()))) .done, proposalId_visible 0, trivial⟩
  countMissed _ := ⟨.done, trivial⟩
  updateSigningWitness _ := ⟨.done, trivial⟩
  confirmations := ⟨fun _ ↦ [], fun _ ↦ rfl⟩
  maintain _ := ⟨.done, trivial⟩
  expiredProposals :=
    ⟨fun ix ↦ ([0, 1].filter fun inst ↦ (ix.objects (proposalId inst)).isSome).map
        (toProposal fails),
      fun ix ↦ by simp only [Indexes.objects_hide (proposalId_visible _)]⟩
  finish _ := ⟨.done, trivial⟩
  changedObjectsThrow _ := false

/-- A node that has been opened on the genesis state. -/
def replayGenesis : ObjectDatabase (ChainObject expiring.types) where
  indexes := expiringGenesis
  undoDb := { maxSize := minUndoHistory }

/-- The first block, with one transaction. -/
def firstBlock : SignedBlock expiring.types :=
  ⟨⟨BlockId.zero expiring.types, .root [.pay], ⟨5, ()⟩⟩, [.pay]⟩

/-- The second, with another one. -/
def secondBlock : SignedBlock expiring.types :=
  ⟨⟨(replayRules fun _ ↦ true).blockId firstBlock, .root [.fail], ⟨10, ()⟩⟩, [.fail]⟩

theorem expiringGenesis_hide :
    replayGenesis.indexes.hide transactionIndex = replayGenesis.indexes := by
  simp only [replayGenesis, expiringGenesis, Indexes.hide, Indexes.mk.injEq]
  constructor
  · funext id
    by_cases hid : id.index = transactionIndex
    · have hdgp : id ≠ dgpId := by
        rintro rfl
        exact dgpId_visible hid
      have htime : id ≠ timeId := by
        rintro rfl
        exact timeId_visible hid
      simp [hid, hdgp, htime]
    · simp [hid]
  · funext index
    by_cases hindex : index = transactionIndex
    · have hdgp : index ≠ dgpId.index := by
        rintro rfl
        exact dgpId_visible hindex
      rw [if_pos hindex, if_neg hdgp]
    · rw [if_neg hindex]

/-- The first proposal fails, and the second does not find the undo stack empty. -/
theorem replaySupported :
    (replayRules fun inst ↦ inst = 0).ReplaySupported replayGenesis [firstBlock, secondBlock] := by
  intro before b after db heq hreplay
  match before, heq with
  | [], heq =>
    obtain ⟨rfl, rfl⟩ := List.cons.inj heq
    obtain rfl := Option.some_inj.1 hreplay
    decide +kernel
  | [first], heq =>
    obtain rfl : firstBlock = first := (List.cons.inj heq).1
    have htail : [secondBlock] = b :: after := (List.cons.inj heq).2
    obtain ⟨rfl, rfl⟩ := List.cons.inj htail
    have hsupported : ∀ db ∈ (replayRules fun inst ↦ inst = 0).replay replayGenesis [firstBlock],
        ((replayRules fun inst ↦ inst = 0).applyBlock reindex secondBlock).Supported db := by
      decide +kernel
    exact hsupported db hreplay
  | _ :: _ :: before, heq => simp at heq

end Testnet

open Testnet in
/-- **Replay differs**: it has no transaction object for a transaction. -/
theorem replay_differs :
    ∃ db db', (replayRules fun inst ↦ inst = 0).Live replayGenesis [firstBlock] db ∧
      (replayRules fun inst ↦ inst = 0).replay replayGenesis [firstBlock] = some db' ∧
      (db.indexes.objects ⟨transactionIndex, 0⟩).isSome ∧
        db'.indexes.objects ⟨transactionIndex, 0⟩ = none := by
  have hrun : (((replayRules fun inst ↦ inst = 0).pushBlock ∅ firstBlock replayGenesis).bind
      fun db ↦ ((replayRules fun inst ↦ inst = 0).replay replayGenesis [firstBlock]).map fun db' ↦
        ((db.indexes.objects ⟨transactionIndex, 0⟩).isSome,
          (db'.indexes.objects ⟨transactionIndex, 0⟩).isSome)) = some (true, false) := by
    decide +kernel
  obtain ⟨db, hdb, hrun⟩ := Option.bind_eq_some_iff.1 hrun
  obtain ⟨db', hdb', hrun⟩ := Option.map_eq_some_iff.1 hrun
  simp only [Prod.mk.injEq, Option.isSome_eq_false_iff, Option.isNone_iff_eq_none] at hrun
  exact ⟨db, db', .push .start _ rfl rfl ∅ (Finset.empty_subset _) _ hdb, hdb', hrun⟩

open Testnet in
/-- When the first proposal has failed, the second goes through in replay as well. -/
theorem replay_agrees_testnet :
    ∃ db db', (replayRules fun inst ↦ inst = 0).Live replayGenesis [firstBlock, secondBlock] db ∧
      (replayRules fun inst ↦ inst = 0).replay replayGenesis [firstBlock, secondBlock] = some db' ∧
      db'.indexes = db.indexes.hide transactionIndex ∧
      (db'.indexes.objects paymentId).isSome := by
  have hlive : (((replayRules fun inst ↦ inst = 0).pushBlock ∅ firstBlock replayGenesis).bind
      fun db₁ ↦ ((replayRules fun inst ↦ inst = 0).pushBlock ∅ secondBlock db₁).map
        fun _ ↦ db₁.undoDb.disabled) = some false := by
    decide +kernel
  obtain ⟨db₁, hfirst, hlive⟩ := Option.bind_eq_some_iff.1 hlive
  obtain ⟨db, hsecond, henabled⟩ := Option.map_eq_some_iff.1 hlive
  have hpayment : ((replayRules fun inst ↦ inst = 0).replay replayGenesis
      [firstBlock, secondBlock]).map (fun db' ↦ (db'.indexes.objects paymentId).isSome) =
      some true := by
    decide +kernel
  obtain ⟨db', hreplay', hpayment⟩ := Option.map_eq_some_iff.1 hpayment
  have hlive : (replayRules fun inst ↦ inst = 0).Live replayGenesis [firstBlock, secondBlock] db :=
    .push (.push .start _ rfl rfl ∅ (Finset.empty_subset _) _ hfirst) db₁.undoDb henabled rfl ∅
      (Finset.empty_subset _) _ hsecond
  obtain ⟨db'', hreplay, hindexes⟩ := replay_agrees expiringGenesis_hide hlive replaySupported
  obtain rfl := Option.some_inj.1 (hreplay'.symm.trans hreplay)
  exact ⟨db, db', hlive, hreplay, hindexes, hpayment⟩

end Graphene
