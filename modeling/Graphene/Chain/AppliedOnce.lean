import Graphene.Chain.Transactions
import Graphene.Chain.Testnet

/-!
# No transaction is applied twice

What has been applied on a chain is remembered: its id is in the duplicate index, or it has expired,
and then a transaction with the same id, which expires at the same time, is too late.  Popping
blocks takes the state back to that of a shorter chain, so that nothing has to be said about undo.

* `Forgets` — what the steps of a block, other than those that set the head block, do to the index.
* `applyUntilHead_inv`, `applyFromHead_inv` — these steps.
* `Remembers`, `AppliedOnce` — the invariant.
* `no_transaction_twice` — the main result, for every run of a node.
-/

set_option autoImplicit false

namespace Graphene

open Throwing

variable {T : TransactionTypes} {R : TransactionRules T} {ix ix' ix₁ ix₂ : ChainState T.types}
  {tx tx' : T.Tx} {txs : List T.Tx} {b : SignedBlock T.types}

/-! ## What a state knows -/

theorem mem_transactions {inst : ℕ} :
    (inst, tx) ∈ ix.transactions ↔
      inst < ix.nextId transactionIndex ∧ ix.transactionAt inst = some tx := by
  simp [Indexes.transactions]

theorem headBlockTime_congr (h : ix'.objects timeId = ix.objects timeId) :
    ix'.headBlockTime = ix.headBlockTime := by
  simp only [Indexes.headBlockTime, h]

theorem headBlockNum_congr (h : ix'.objects dgpId = ix.objects dgpId) :
    ix'.headBlockNum = ix.headBlockNum := by
  simp only [Indexes.headBlockNum, Indexes.dgp?, h]

theorem transactions_congr
    (hobjects : ∀ inst, ix'.objects ⟨transactionIndex, inst⟩ = ix.objects ⟨transactionIndex, inst⟩)
    (hnext : ix'.nextId transactionIndex = ix.nextId transactionIndex) :
    ix'.transactions = ix.transactions := by
  simp only [Indexes.transactions, Indexes.transactionAt, hobjects, hnext]

/-- `ix'` has the guarded objects of `ix`. -/
structure Agrees (ix ix' : ChainState T.types) : Prop where
  /-- The objects. -/
  objects : ∀ id : ObjectId, Guarded id.index → ix'.objects id = ix.objects id
  /-- The next ids. -/
  nextId : ∀ index, Guarded index → ix'.nextId index = ix.nextId index

theorem Agrees.refl (ix : ChainState T.types) : Agrees ix ix := ⟨fun _ _ ↦ rfl, fun _ _ ↦ rfl⟩

theorem Agrees.trans (h : Agrees ix ix₁) (h' : Agrees ix₁ ix₂) : Agrees ix ix₂ :=
  ⟨fun id hid ↦ (h'.objects id hid).trans (h.objects id hid),
    fun index hindex ↦ (h'.nextId index hindex).trans (h.nextId index hindex)⟩

theorem Agrees.transactions_eq (h : Agrees ix ix') : ix'.transactions = ix.transactions :=
  transactions_congr (fun _ ↦ h.objects _ (Or.inr rfl)) (h.nextId _ (Or.inr rfl))

theorem Edit.Spares.agrees {e : Edit (ChainObject T.types)} (he : e.Spares)
    (h : e.eval ix = some ix') : Agrees ix ix' := by
  have hne : ∀ {id id' : ObjectId}, ¬ Guarded id'.index → Guarded id.index → id ≠ id' := by
    rintro id _ hid' hid rfl
    exact hid' hid
  cases e with
  | create index obj =>
    simp only [eval, Indexes.create] at h
    split_ifs at h
    obtain rfl := Option.some_inj.1 h
    refine ⟨fun id hid ↦ Function.update_of_ne (@hne id ⟨index, _⟩ he hid) _ _,
      fun index' hindex ↦ ?_⟩
    refine Function.update_of_ne ?_ _ _
    rintro rfl
    exact he hindex
  | modify id' obj =>
    simp only [eval, Indexes.modify] at h
    split_ifs at h
    obtain rfl := Option.some_inj.1 h
    exact ⟨fun id hid ↦ Function.update_of_ne (hne he hid) _ _, fun _ _ ↦ rfl⟩
  | remove id' =>
    simp only [eval, Indexes.remove] at h
    split_ifs at h
    obtain rfl := Option.some_inj.1 h
    exact ⟨fun id hid ↦ Function.update_of_ne (hne he hid) _ _, fun _ _ ↦ rfl⟩

theorem Script.Spares.agrees {s : Script (ChainObject T.types)} (hs : s.Spares)
    (h : s.eval ix = some ix') : Agrees ix ix' := by
  induction s generalizing ix ix' with
  | done =>
    obtain rfl := Option.some_inj.1 h
    exact .refl ix
  | throw => cases h
  | edit e rest ih =>
    obtain ⟨ix₁, h₁, hrest⟩ := Option.bind_eq_some_iff.1 h
    exact (hs.1.agrees h₁).trans (ih hs.2 hrest)
  | proposal body rest ihBody ihRest =>
    rw [eval] at h
    cases hbody : body.eval ix with
    | none =>
      rw [hbody] at h
      exact ihRest hs.2 h
    | some ix₁ =>
      rw [hbody] at h
      exact (ihBody hs.1 hbody).trans (ihRest hs.2 h)

/-! ## The steps of a block -/

/-- `ix'` has the head block of `ix`, and knows what `ix` knows, but for what has expired. -/
structure Forgets (ix ix' : ChainState T.types) : Prop where
  /-- The head block time. -/
  time_eq : ix'.headBlockTime = ix.headBlockTime
  /-- The number of the head block. -/
  num_eq : ix'.headBlockNum = ix.headBlockNum
  /-- The duplicate index. -/
  knows : ∀ id, ix.Knows id → ix'.Knows id ∨
    0 < ix.headBlockNum ∧ ∃ tx, T.trxId tx = id ∧ T.expiration tx < ix.headBlockTime

namespace Forgets

theorem refl (ix : ChainState T.types) : Forgets ix ix := ⟨rfl, rfl, fun _ h ↦ Or.inl h⟩

theorem trans (h : Forgets ix ix₁) (h' : Forgets ix₁ ix₂) : Forgets ix ix₂ := by
  refine ⟨h'.time_eq.trans h.time_eq, h'.num_eq.trans h.num_eq, fun id hid ↦ ?_⟩
  rcases h.knows id hid with hid₁ | hexpired
  · rw [← h.time_eq, ← h.num_eq]
    exact h'.knows id hid₁
  · exact Or.inr hexpired

theorem of_agrees (h : Agrees ix ix') : Forgets ix ix' where
  time_eq := headBlockTime_congr (h.objects _ (Or.inl rfl))
  num_eq := headBlockNum_congr (h.objects _ (Or.inl rfl))
  knows id hid := by
    rw [Indexes.Knows, h.transactions_eq]
    exact Or.inl hid

theorem sparing (s : SparingScript T) (h : s.1.eval ix = some ix') : Forgets ix ix' :=
  of_agrees (s.2.1.agrees h)

end Forgets

theorem timeId_ne (inst : ℕ) : timeId ≠ ⟨transactionIndex, inst⟩ := by
  simp [timeId, dgpId, transactionIndex]

theorem dgpId_ne (inst : ℕ) : dgpId ≠ ⟨transactionIndex, inst⟩ := by
  simp [dgpId, transactionIndex]

/-- What creating an object does. -/
theorem Indexes.create_spec {V : Type} {ix ix' : Indexes V} {index : IndexId} {obj : V}
    (h : ix.create index obj = some ix') :
    ix.objects ⟨index, ix.nextId index⟩ = none ∧
    ix'.objects ⟨index, ix.nextId index⟩ = some obj ∧
    (∀ id, id ≠ ⟨index, ix.nextId index⟩ → ix'.objects id = ix.objects id) ∧
    ix'.nextId index = ix.nextId index + 1 := by
  simp only [Indexes.create] at h
  split_ifs at h with hfree
  obtain rfl := Option.some_inj.1 h
  refine ⟨by simpa using hfree, Function.update_self _ _ _, fun id hid ↦ ?_,
    Function.update_self _ _ _⟩
  exact Function.update_of_ne hid _ _

/-- A new transaction object is known, and so is what was known before. -/
theorem insertTransaction_spec
    (h : (TransactionRules.insertTransaction tx).eval ix = some ix') :
    Forgets ix ix' ∧ ix'.Knows (T.trxId tx) := by
  obtain ⟨ix₁, h₁, hdone⟩ := Option.bind_eq_some_iff.1 h
  obtain rfl := Option.some_inj.1 hdone
  obtain ⟨hfree, hnew, hobjects, hnext⟩ := Indexes.create_spec h₁
  refine ⟨⟨headBlockTime_congr (hobjects _ (timeId_ne _)),
    headBlockNum_congr (hobjects _ (dgpId_ne _)), ?_⟩,
    (ix.nextId transactionIndex, tx), mem_transactions.2 ⟨by omega, ?_⟩, rfl⟩
  · rintro id ⟨⟨inst, t⟩, hmem, rfl⟩
    obtain ⟨hlt, hat⟩ := mem_transactions.1 hmem
    refine Or.inl ⟨(inst, t), mem_transactions.2 ⟨by omega, ?_⟩, rfl⟩
    have hne : (⟨transactionIndex, inst⟩ : ObjectId) ≠
        ⟨transactionIndex, ix.nextId transactionIndex⟩ := by
      simpa using hlt.ne
    rw [← hat]
    simp only [Indexes.transactionAt, hobjects _ hne]
  · simp only [Indexes.transactionAt, hnew]

/-- What is not there any more has expired. -/
theorem clearExpired_spec {entries : List (ℕ × T.Tx)} {headBlockTime : ℕ}
    (h : (TransactionRules.clearExpired headBlockTime entries).eval ix = some ix') :
    (∀ id : ObjectId, id.index ≠ transactionIndex → ix'.objects id = ix.objects id) ∧
    ix'.nextId = ix.nextId ∧
    ∀ inst t, ix.transactionAt inst = some t → ix'.transactionAt inst = some t ∨
      ∃ t', (inst, t') ∈ entries ∧ T.expiration t' < headBlockTime := by
  induction entries generalizing ix with
  | nil =>
    obtain rfl := Option.some_inj.1 h
    exact ⟨fun _ _ ↦ rfl, rfl, fun _ _ ht ↦ Or.inl ht⟩
  | cons entry rest ih =>
    obtain ⟨inst', tx'⟩ := entry
    rw [TransactionRules.clearExpired] at h
    split at h
    case isFalse =>
      obtain rfl := Option.some_inj.1 h
      exact ⟨fun _ _ ↦ rfl, rfl, fun _ _ ht ↦ Or.inl ht⟩
    case isTrue hexpired =>
      obtain ⟨ix₁, h₁, hrest⟩ := Option.bind_eq_some_iff.1 h
      simp only [Edit.eval, Indexes.remove] at h₁
      split_ifs at h₁
      obtain rfl := Option.some_inj.1 h₁
      obtain ⟨hobjects, hnext, hkept⟩ := ih hrest
      refine ⟨fun id hid ↦ (hobjects id hid).trans (Function.update_of_ne ?_ _ _), hnext,
        fun inst t ht ↦ ?_⟩
      · rintro rfl
        exact hid rfl
      by_cases heq : inst = inst'
      · subst heq
        exact Or.inr ⟨tx', List.mem_cons_self, hexpired⟩
      · have ht₁ : Indexes.transactionAt (T := T)
            { ix with objects := Function.update ix.objects ⟨transactionIndex, inst'⟩ none }
            inst = some t := by
          rw [← ht]
          simp only [Indexes.transactionAt]
          rw [Function.update_of_ne]
          simpa using heq
        rcases hkept inst t ht₁ with hstays | ⟨t', hmem, hlt⟩
        · exact Or.inl hstays
        · exact Or.inr ⟨t', List.mem_cons_of_mem _ hmem, hlt⟩

theorem clearExpiredTransactions_forgets (hnum : 0 < ix.headBlockNum)
    (h : (TransactionRules.clearExpiredTransactions ix).eval ix = some ix') : Forgets ix ix' := by
  obtain ⟨hobjects, hnext, hkept⟩ := clearExpired_spec h
  refine ⟨headBlockTime_congr (hobjects _ (by decide)), headBlockNum_congr (hobjects _ (by decide)),
    ?_⟩
  rintro id ⟨⟨inst, t⟩, hmem, rfl⟩
  have hat := mem_transactions.1 hmem
  rcases hkept inst t hat.2 with hstays | ⟨t', hmem', hlt⟩
  · exact Or.inl ⟨(inst, t), mem_transactions.2 ⟨hnext ▸ hat.1, hstays⟩, rfl⟩
  · rw [List.mem_insertionSort, mem_transactions, hat.2] at hmem'
    obtain rfl := Option.some_inj.1 hmem'.2
    exact Or.inr ⟨hnum, t, rfl, hlt⟩

/-- What modifying an object does. -/
theorem Indexes.modify_spec {V : Type} {ix ix' : Indexes V} {id : ObjectId} {obj : V}
    (h : (Script.edit (.modify id obj) .done).eval ix = some ix') :
    ix'.objects id = some obj ∧ (∀ id', id' ≠ id → ix'.objects id' = ix.objects id') ∧
      ix'.nextId = ix.nextId := by
  obtain ⟨ix₁, h₁, hdone⟩ := Option.bind_eq_some_iff.1 h
  obtain rfl := Option.some_inj.1 hdone
  simp only [Edit.eval, Indexes.modify] at h₁
  split_ifs at h₁
  obtain rfl := Option.some_inj.1 h₁
  exact ⟨Function.update_self _ _ _, fun id' hid ↦ Function.update_of_ne hid _ _, rfl⟩

theorem setTime_spec (h : (TransactionRules.setTime b).eval ix = some ix') :
    ix'.headBlockTime = b.timestamp ∧ ix'.headBlockNum = ix.headBlockNum ∧
      ix'.transactions = ix.transactions := by
  obtain ⟨htime, hobjects, hnext⟩ := Indexes.modify_spec h
  refine ⟨?_, headBlockNum_congr (hobjects _ (by decide)),
    transactions_congr (fun inst ↦ hobjects _ (timeId_ne inst).symm) (by rw [hnext])⟩
  simp only [Indexes.headBlockTime, htime]

/-- The dynamic global properties change. -/
theorem modifyDgp_spec {dgp : DynamicGlobalProperties T.types}
    (h : (Script.edit (.modify dgpId (.dynamicGlobalProperties dgp)) .done).eval ix = some ix') :
    ix'.headBlockTime = ix.headBlockTime ∧ ix'.headBlockNum = dgp.headBlockNumber ∧
      ix'.transactions = ix.transactions := by
  obtain ⟨-, hobjects, hnext⟩ := Indexes.modify_spec h
  refine ⟨headBlockTime_congr (hobjects _ (by decide)), ?_,
    transactions_congr (fun inst ↦ hobjects _ (dgpId_ne inst).symm) (by rw [hnext])⟩
  simp [Indexes.headBlockNum, dgp?_of_modify h]

/-- `update_last_irreversible_block` leaves the head block and the duplicate index alone. -/
theorem updateLastIrreversible_forgets
    (h : (R.protocol.updateLastIrreversible ix).eval ix = some ix') : Forgets ix ix' := by
  rw [Protocol.updateLastIrreversible] at h
  cases hdgp : ix.dgp? with
  | none =>
    rw [hdgp] at h
    cases h
  | some dgp =>
    rw [hdgp] at h
    dsimp only at h
    split_ifs at h
    · obtain ⟨htime, hnum, htransactions⟩ := modifyDgp_spec h
      refine ⟨htime, ?_, fun id hid ↦ Or.inl ?_⟩
      · rw [hnum]
        simp [Indexes.headBlockNum, hdgp]
      · rwa [Indexes.Knows, htransactions]
    · obtain rfl := Option.some_inj.1 h
      exact .refl ix

/-- The head block changes. -/
theorem updateHead_spec (h : (R.protocol.updateHead ix b).eval ix = some ix') :
    ix'.headBlockTime = ix.headBlockTime ∧ ix'.headBlockNum = b.blockNum ∧
      ix'.transactions = ix.transactions := by
  rw [Protocol.updateHead] at h
  cases hdgp : ix.dgp? with
  | none =>
    rw [hdgp] at h
    cases h
  | some dgp =>
    rw [hdgp] at h
    exact modifyDgp_spec h

/-! ## The steps of a block -/

/-- **What a block does until the head block is set**: it comes after the head block, and its
transactions are applied, blocks that were missed counted, and the time and the head block set. -/
theorem applyUntilHead_inv (h : R.protocol.applyUntilHead ix b = some ix') :
    ix.headBlockTime < b.timestamp ∧ ∃ ix₁ ix₂ ix₃,
      b.transactions.foldlM R.protocol.applyTransaction ix = some ix₁ ∧
      (R.countMissed ix₁ b).1.eval ix₁ = some ix₂ ∧
      (TransactionRules.setTime b).eval ix₂ = some ix₃ ∧
      (R.protocol.updateHead ix₃ b).eval ix₃ = some ix' := by
  rw [Protocol.applyUntilHead] at h
  split_ifs at h with hchecks
  obtain ⟨ix₁, htxs, h⟩ := Option.bind_eq_some_iff.1 h
  obtain ⟨ix₃, hmissed, hhead⟩ := Option.bind_eq_some_iff.1 h
  have heval : ((R.countMissed ix₁ b).1.append (TransactionRules.setTime b)).eval ix₁ = some ix₃ :=
    hmissed
  rw [Script.eval_append] at heval
  obtain ⟨ix₂, hcount, htime⟩ := Option.bind_eq_some_iff.1 heval
  have hheader : (decide (ix.headBlockTime < b.timestamp) && R.validateWitness ix b) = true :=
    hchecks.2.2
  exact ⟨of_decide_eq_true (Bool.and_eq_true_iff.1 hheader).1, ix₁, ix₂, ix₃, htxs, hcount, htime,
    hhead⟩

/-- **What a block does from then on**: the witness and the last irreversible block are updated,
maintenance is done, and transactions that have expired are cleared. -/
theorem applyFromHead_inv (h : R.protocol.applyFromHead ix b = some ix') :
    ∃ ix₁ ix₂ ix₃ ix₄, (R.updateSigningWitness ix b).1.eval ix = some ix₁ ∧
      (R.protocol.updateLastIrreversible ix₁).eval ix₁ = some ix₂ ∧
      (R.maintain ix₂ b).1.eval ix₂ = some ix₃ ∧
      (TransactionRules.clearExpiredTransactions ix₃).eval ix₃ = some ix₄ ∧
      (R.finish ix₄ b).1.eval ix₄ = some ix' := by
  rw [Protocol.applyFromHead] at h
  split_ifs at h
  obtain ⟨ix₁, hwitness, h⟩ := Option.bind_eq_some_iff.1 h
  obtain ⟨ix₂, hlast, hfinish⟩ := Option.bind_eq_some_iff.1 h
  have heval : (R.finishBlock ix₂ b).eval ix₂ = some ix' := hfinish
  rw [TransactionRules.finishBlock, Script.eval_andThen] at heval
  obtain ⟨ix₃, hmaintain, heval⟩ := Option.bind_eq_some_iff.1 heval
  rw [Script.eval_andThen] at heval
  obtain ⟨ix₄, hclear, hend⟩ := Option.bind_eq_some_iff.1 heval
  exact ⟨ix₁, ix₂, ix₃, ix₄, hwitness, hlast, hmaintain, hclear, hend⟩

/-- The end of a block. -/
theorem applyFromHead_forgets (hnum : 0 < ix.headBlockNum)
    (h : R.protocol.applyFromHead ix b = some ix') : Forgets ix ix' := by
  obtain ⟨ix₁, ix₂, ix₃, ix₄, hwitness, hlast, hmaintain, hclear, hend⟩ := applyFromHead_inv h
  have hforgets₁ : Forgets ix ix₁ := .sparing (R.updateSigningWitness ix b) hwitness
  have hforgets₂ : Forgets ix ix₂ := hforgets₁.trans (updateLastIrreversible_forgets hlast)
  have hforgets₃ : Forgets ix ix₃ := hforgets₂.trans (.sparing (R.maintain ix₂ b) hmaintain)
  have hforgets₄ : Forgets ix ix₄ :=
    hforgets₃.trans (clearExpiredTransactions_forgets (hforgets₃.num_eq ▸ hnum) hclear)
  exact hforgets₄.trans (.sparing (R.finish ix₄ b) hend)

/-! ## What has been applied -/

/-- A transaction with the id of `tx` is rejected from now on. -/
def Remembers (ix : ChainState T.types) (tx : T.Tx) : Prop :=
  ix.Knows (T.trxId tx) ∨ 0 < ix.headBlockNum ∧ T.expiration tx < ix.headBlockTime

theorem Remembers.forgets (h : Remembers ix tx) (hforgets : Forgets ix ix') :
    Remembers ix' tx := by
  rw [Remembers, hforgets.time_eq, hforgets.num_eq]
  rcases h with hknows | hexpired
  · refine (hforgets.knows _ hknows).imp_right ?_
    rintro ⟨hnum, tx', hid, hlt⟩
    exact ⟨hnum, T.expiration_eq tx' tx hid ▸ hlt⟩
  · exact Or.inr hexpired

/-- The head block moves on. -/
theorem Remembers.advance (h : Remembers ix tx) (htransactions : ix'.transactions = ix.transactions)
    (htime : ix.headBlockTime ≤ ix'.headBlockTime) (hnum : 0 < ix'.headBlockNum) :
    Remembers ix' tx := by
  rw [Remembers, Indexes.Knows, htransactions]
  exact h.imp_right fun hexpired ↦ ⟨hnum, hexpired.2.trans_le htime⟩

/-- What `_apply_transaction` has checked, and done. -/
theorem applyTransaction_spec (h : R.protocol.applyTransaction ix tx = some ix') :
    ¬ Remembers ix tx ∧ Forgets ix ix' ∧ ix'.Knows (T.trxId tx) := by
  have heval : (R.evaluate ix tx).eval ix = some ix' := h
  rw [TransactionRules.evaluate] at heval
  split at heval
  case isFalse => cases heval
  case isTrue hchecks =>
    obtain ⟨-, hunknown, -, htimely⟩ := hchecks
    rw [Script.eval_andThen] at heval
    obtain ⟨ix₁, hinsert, hoperations⟩ := Option.bind_eq_some_iff.1 heval
    obtain ⟨hforgets, hknows⟩ := insertTransaction_spec hinsert
    have hagrees := (R.operations ix₁ tx).2.1.agrees hoperations
    refine ⟨?_, hforgets.trans (.of_agrees hagrees), ?_⟩
    · rintro (hknown | ⟨hnum, hlt⟩)
      · exact hunknown hknown
      · exact absurd (htimely hnum).2.2 (Nat.not_le.2 hlt)
    · rw [Indexes.Knows, hagrees.transactions_eq]
      exact hknows

/-- A transaction with the id of one that is remembered is rejected. -/
theorem Remembers.rejects (h : Remembers ix tx) (hid : T.trxId tx' = T.trxId tx) :
    R.protocol.applyTransaction ix tx' = none := by
  by_contra hne
  obtain ⟨ix', happly⟩ := Option.ne_none_iff_exists'.1 hne
  refine (applyTransaction_spec happly).1 ?_
  rwa [Remembers, hid, T.expiration_eq tx' tx hid]

/-- The transactions `txs` have been applied, none twice. -/
structure AppliedOnce (ix : ChainState T.types) (txs : List T.Tx) : Prop where
  /-- No two have the same id. -/
  nodup : (txs.map T.trxId).Nodup
  /-- None can be applied again. -/
  remembers : ∀ tx ∈ txs, Remembers ix tx

namespace AppliedOnce

theorem forgets (h : AppliedOnce ix txs) (hforgets : Forgets ix ix') : AppliedOnce ix' txs :=
  ⟨h.nodup, fun tx htx ↦ (h.remembers tx htx).forgets hforgets⟩

/-- **One more transaction.** -/
theorem transaction (h : AppliedOnce ix txs)
    (happly : R.protocol.applyTransaction ix tx = some ix') :
    AppliedOnce ix' (tx :: txs) := by
  obtain ⟨hnew, hforgets, hknows⟩ := applyTransaction_spec happly
  refine ⟨List.nodup_cons.2 ⟨fun hmem ↦ ?_, h.nodup⟩, List.forall_mem_cons.2 ⟨Or.inl hknows, ?_⟩⟩
  · obtain ⟨tx', htx', hid⟩ := List.mem_map.1 hmem
    rw [(h.remembers tx' htx').rejects hid.symm] at happly
    cases happly
  · exact fun tx' htx' ↦ (h.remembers tx' htx').forgets hforgets

/-- The transactions of a block. -/
theorem transactions {new : List T.Tx} (h : AppliedOnce ix txs)
    (happly : new.foldlM R.protocol.applyTransaction ix = some ix') :
    AppliedOnce ix' (new ++ txs) ∧ ix'.headBlockTime = ix.headBlockTime := by
  induction new generalizing ix txs with
  | nil =>
    obtain rfl := Option.some_inj.1 happly
    exact ⟨h, rfl⟩
  | cons tx new ih =>
    rw [List.foldlM_cons] at happly
    obtain ⟨ix₁, h₁, hrest⟩ := Option.bind_eq_some_iff.1 happly
    obtain ⟨honce, htime⟩ := ih (h.transaction h₁) hrest
    have hperm : (new ++ tx :: txs).Perm (tx :: new ++ txs) := List.perm_middle
    refine ⟨⟨(hperm.map T.trxId).nodup_iff.1 honce.nodup, fun tx' htx' ↦ ?_⟩,
      htime.trans (applyTransaction_spec h₁).2.1.time_eq⟩
    exact honce.remembers tx' (hperm.mem_iff.2 htx')

/-- **One more block.** -/
theorem block (h : AppliedOnce ix txs) (happly : R.protocol.applyBlock ix b = some ix') :
    AppliedOnce ix' (b.transactions ++ txs) := by
  obtain ⟨ix₄, huntil, hfrom⟩ := Option.bind_eq_some_iff.1 happly
  obtain ⟨hlt, ix₁, ix₂, ix₃, htxs, hcount, htime, hhead⟩ := applyUntilHead_inv huntil
  obtain ⟨honce₁, htime₁⟩ := h.transactions htxs
  have hforgets : Forgets ix₁ ix₂ := .sparing (R.countMissed ix₁ b) hcount
  have honce₂ := honce₁.forgets hforgets
  obtain ⟨htime₃, -, htransactions₃⟩ := setTime_spec htime
  obtain ⟨htime₄, hnum₄, htransactions₄⟩ := updateHead_spec hhead
  -- the timestamp of the block is later than the head block time
  have hlater : ix₂.headBlockTime ≤ ix₄.headBlockTime := by
    rw [htime₄, htime₃, hforgets.time_eq, htime₁]
    exact hlt.le
  have hpos : 0 < ix₄.headBlockNum := by
    rw [hnum₄]
    exact Nat.succ_pos _
  have honce₄ : AppliedOnce ix₄ (b.transactions ++ txs) :=
    ⟨honce₂.nodup, fun tx htx ↦ (honce₂.remembers tx htx).advance
      (htransactions₄.trans htransactions₃) hlater hpos⟩
  exact honce₄.forgets (applyFromHead_forgets hpos hfrom)

end AppliedOnce

/-- The transactions of a chain of blocks. -/
def chainTransactions (chain : List (SignedBlock T.types)) : List T.Tx :=
  chain.flatMap SignedBlock.transactions

/-- **On every chain of blocks** no transaction has been applied twice. -/
theorem stateAt_appliedOnce {g : ChainState T.types} {chain : List (SignedBlock T.types)}
    (h : R.protocol.stateAt g chain = some ix) : AppliedOnce ix (chainTransactions chain) := by
  induction chain generalizing ix with
  | nil => exact ⟨List.nodup_nil, fun _ htx ↦ absurd htx List.not_mem_nil⟩
  | cons b bs ih =>
    obtain ⟨ix₁, h₁, happly⟩ := Option.bind_eq_some_iff.1 h
    exact (ih h₁).block happly

/-- **No transaction is applied twice.**  Whatever blocks are pushed onto a node, popped from it and
switched between, the node is at the end of a chain on which no two transactions have the same id,
and none of them can be applied again. -/
theorem no_transaction_twice {g : ChainState T.types} (hg : Base g)
    {Ok : Database T.types → Call T.types → Prop} {d₀ d : Database T.types}
    (h₀ : d₀.Opened R.protocol g 1) (h : Run R.protocol Ok d₀ d) :
    (∃ chain, R.protocol.stateAt g chain = some d.headState) ∧
    ∀ chain, R.protocol.stateAt g chain = some d.headState →
      ((chainTransactions chain).map T.trxId).Nodup ∧
      ∀ tx ∈ chainTransactions chain, ∀ tx', T.trxId tx' = T.trxId tx →
        R.protocol.applyTransaction d.headState tx' = none := by
  constructor
  · obtain ⟨chain, hrest⟩ := h.atRest hg R.nests (Protocol.lags_one hg) h₀
    exact ⟨chain, hrest.state_eq⟩
  · intro chain hchain
    have honce := stateAt_appliedOnce hchain
    exact ⟨honce.nodup, fun tx htx tx' hid ↦ (honce.remembers tx htx).rejects hid⟩

namespace Testnet

/-- The transactions of the small chain, all of which expire at 100. -/
def expiring : TransactionTypes where
  Digest := Digest
  decDigest := inferInstance
  zeroDigest := .zero
  Signing := Unit
  Tx := Tx
  TxId := Tx
  decTxId := inferInstance
  Obj := Unit
  trxId := id
  expiration _ := 100
  expiration_eq _ _ _ := rfl

/-- A part of the protocol that does nothing. -/
def sparing : SparingScript expiring := ⟨.done, trivial, Nat.zero_le 1⟩

/-- Transactions that are applied have no other effect. -/
def expiringRules : TransactionRules expiring where
  hash h := .header h.previous.num h.previous.digest h.transactionMerkleRoot h.content.timestamp
  hash_injective := by
    rintro ⟨⟨num, digest⟩, root, ⟨time, _⟩⟩ ⟨⟨num', digest'⟩, root', ⟨time', _⟩⟩ h
    obtain ⟨rfl, rfl, rfl, rfl⟩ := Digest.header.inj h
    rfl
  calculateMerkleRoot := .root
  calculateMerkleRoot_injective _ _ h := Digest.root.inj h
  validate _ := true
  verifyAuthority _ _ := true
  tapos _ _ := true
  maximumTimeUntilExpiration _ := 1000
  operations _ _ := sparing
  validateWitness _ _ := true
  countMissed _ _ := sparing
  updateSigningWitness _ _ := sparing
  confirmations _ := []
  confirmations_le _ _ _ _ h := absurd h List.not_mem_nil
  maintain _ _ := sparing
  finish _ _ := sparing

/-- The genesis state, at time 0. -/
def expiringGenesis : ChainState expiring.types where
  objects id :=
    if id = dgpId then
      some (.dynamicGlobalProperties ⟨0, BlockId.zero expiring.types, 0⟩)
    else if id = timeId then some (.other (.time 0))
    else none
  nextId index := if index = dgpId.index then 2 else 0

/-- A node that was opened on it. -/
def expiringNode : Database expiring.types where
  objects := { indexes := expiringGenesis, undoDb := { maxSize := minUndoHistory } }

/-- Push a block on the head block, with the given timestamp and transactions. -/
def pushNext (d : Database expiring.types) (timestamp : ℕ) (txs : List Tx) :
    Database expiring.types :=
  (Call.pushBlock ⟨fun _ ↦ false, fun _ _ ↦ false⟩
    ⟨⟨d.headState.headBlockId, .root txs, ⟨timestamp, ()⟩⟩, txs⟩).exec expiringRules.protocol d

theorem run_pushNext {d : Database expiring.types}
    (h : Run expiringRules.protocol (fun _ _ ↦ True) expiringNode d) (timestamp : ℕ)
    (txs : List Tx) :
    Run expiringRules.protocol (fun _ _ ↦ True) expiringNode (pushNext d timestamp txs) :=
  h.call _ trivial

/-- A transaction is applied, pushed again, forgotten when it has expired, and pushed once more. -/
def payThrice : Database expiring.types :=
  pushNext (pushNext (pushNext (pushNext expiringNode 5 [.pay]) 10 [.pay]) 200 []) 205 [.pay]

theorem expiringGenesis_base : Base expiringGenesis := ⟨⟨_, rfl⟩, rfl, le_rfl⟩

theorem expiringNode_opened : expiringNode.Opened expiringRules.protocol expiringGenesis 1 where
  indexes_eq := rfl
  fresh := by
    intro id hid
    simp only [expiringGenesis] at hid ⊢
    split_ifs at hid with hdgp htime
    · subst hdgp
      decide
    · subst htime
      decide
    · cases hid
  undoDb := ⟨rfl, rfl, rfl⟩
  room := by decide
  pending := ⟨rfl, rfl⟩
  forkDb := ⟨ForkDatabase.wf_empty, rfl⟩
  stored := Or.inl rfl

/-- Of the three times the first has counted. -/
theorem payThrice_appliedOnce :
    payThrice.headState.headBlockNum = 2 ∧ payThrice.headState.transactions = [] ∧
    ∀ chain, expiringRules.protocol.stateAt expiringGenesis chain = some payThrice.headState →
      ((chainTransactions chain).map expiring.trxId).Nodup := by
  have hrun : Run expiringRules.protocol (fun _ _ ↦ True) expiringNode payThrice :=
    run_pushNext (run_pushNext (run_pushNext (run_pushNext .refl _ _) _ _) _ _) _ _
  refine ⟨by decide +kernel, by decide +kernel, fun chain hchain ↦ ?_⟩
  exact ((no_transaction_twice expiringGenesis_base expiringNode_opened hrun).2 chain hchain).1

end Testnet

end Graphene
