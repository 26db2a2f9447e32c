import Graphene.Chain.AppliedOnce

/-!
# What is left in the duplicate index

At the end of a block the transactions that have expired are removed from the duplicate index, the
one that expires last first, until one is found that has not expired.

* `clearExpiredTransactions_spec` — either all are removed, or none.
* `applyBlock_transactions` — the index after a block.
* `AllOrNone` — when that is what has expired, and nothing else.
* `duplicate_index_exact_iff` — the index after a block, and after a chain of blocks.
-/

set_option autoImplicit false

namespace Graphene

variable {T : TransactionTypes} {R : TransactionRules T} {ix ix' ix₁ ix₂ : ChainState T.types}
  {tx : T.Tx} {b : SignedBlock T.types}

/-! ## Clearing the index -/

/-- Where all that is to be removed has expired, it is removed. -/
theorem clearExpired_all {entries : List (ℕ × T.Tx)} {headBlockTime : ℕ}
    (hall : ∀ e ∈ entries, T.expiration e.2 < headBlockTime)
    (h : (TransactionRules.clearExpired headBlockTime entries).eval ix = some ix') :
    (∀ e ∈ entries, ix'.transactionAt e.1 = none) ∧
      ∀ inst t, ix'.transactionAt inst = some t → ix.transactionAt inst = some t := by
  induction entries generalizing ix with
  | nil =>
    obtain rfl := Option.some_inj.1 h
    exact ⟨fun _ he ↦ absurd he List.not_mem_nil, fun _ _ ht ↦ ht⟩
  | cons entry rest ih =>
    obtain ⟨inst', tx'⟩ := entry
    rw [TransactionRules.clearExpired, if_pos (hall _ List.mem_cons_self)] at h
    obtain ⟨ix₁, h₁, hrest⟩ := Option.bind_eq_some_iff.1 h
    simp only [Edit.eval, Indexes.remove] at h₁
    split_ifs at h₁
    obtain rfl := Option.some_inj.1 h₁
    obtain ⟨hgone, hkept⟩ := ih (fun e he ↦ hall e (List.mem_cons_of_mem _ he)) hrest
    have hremoved : ∀ inst t, Indexes.transactionAt (T := T)
        { ix with objects := Function.update ix.objects ⟨transactionIndex, inst'⟩ none } inst =
          some t → inst ≠ inst' ∧ ix.transactionAt inst = some t := by
      intro inst t ht
      rcases eq_or_ne inst inst' with rfl | hne
      · simp [Indexes.transactionAt] at ht
      · refine ⟨hne, ?_⟩
        rw [← ht]
        simp only [Indexes.transactionAt]
        rw [Function.update_of_ne]
        simpa using hne
    refine ⟨fun e he ↦ ?_, fun inst t ht ↦ (hremoved inst t (hkept inst t ht)).2⟩
    rcases List.mem_cons.1 he with rfl | he
    · refine Option.eq_none_iff_forall_ne_some.2 fun t ht ↦ ?_
      exact (hremoved inst' t (hkept inst' t ht)).1 rfl
    · exact hgone e he

/-- **Clearing the index** removes everything, if everything has expired, and nothing if not. -/
theorem clearExpiredTransactions_spec
    (h : (TransactionRules.clearExpiredTransactions ix).eval ix = some ix') :
    ix'.headBlockTime = ix.headBlockTime ∧
      (((∀ e ∈ ix.transactions, T.expiration e.2 < ix.headBlockTime) ∧ ix'.transactions = []) ∨
        (∃ e ∈ ix.transactions, ix.headBlockTime ≤ T.expiration e.2) ∧
          ix'.transactions = ix.transactions) := by
  let later (x y : ℕ × T.Tx) : Prop := T.expiration x.2 ≥ T.expiration y.2
  have hperm := List.perm_insertionSort later ix.transactions
  have hspec := clearExpired_spec h
  refine ⟨headBlockTime_congr (hspec.1 _ (by decide)), ?_⟩
  by_cases hall : ∀ e ∈ ix.transactions, T.expiration e.2 < ix.headBlockTime
  · refine .inl ⟨hall, List.eq_nil_iff_forall_not_mem.2 fun e he ↦ ?_⟩
    obtain ⟨hgone, hkept⟩ := clearExpired_all (fun e he ↦ hall e (hperm.mem_iff.1 he)) h
    obtain ⟨hlt, hat⟩ := mem_transactions.1 he
    have hbefore := mem_transactions.2 ⟨hspec.2.1 ▸ hlt, hkept _ _ hat⟩
    cases hat.symm.trans (hgone e (hperm.mem_iff.2 hbefore))
  · simp only [not_forall, not_lt] at hall
    obtain ⟨e, he, hlive⟩ := hall
    refine .inr ⟨⟨e, he, hlive⟩, ?_⟩
    have htotal : Std.Total later := ⟨fun x y ↦ by show _ ≥ _ ∨ _ ≥ _; omega⟩
    have htrans : IsTrans _ later := ⟨fun x y z hxy hyz ↦ le_trans hyz hxy⟩
    have hsorted := List.pairwise_insertionSort later ix.transactions
    have hmem := hperm.mem_iff.2 he
    rw [TransactionRules.clearExpiredTransactions] at h
    -- The first has not expired either, and nothing is removed.
    change (TransactionRules.clearExpired _ (ix.transactions.insertionSort later)).eval ix = _ at h
    generalize ix.transactions.insertionSort later = entries at *
    cases entries with
    | nil => cases hmem
    | cons first rest =>
      have hfirst : ¬ ix.headBlockTime > T.expiration first.2 := by
        rcases List.mem_cons.1 hmem with rfl | hmem
        · exact not_lt.2 hlive
        · exact not_lt.2 (hlive.trans ((List.pairwise_cons.1 hsorted).1 e hmem))
      rw [TransactionRules.clearExpired, if_neg hfirst] at h
      obtain rfl := Option.some_inj.1 h
      rfl

/-! ## A block -/

/-- The transactions in the index. -/
def Indexes.recorded (ix : ChainState T.types) : List T.Tx := ix.transactions.map Prod.snd

theorem insertTransaction_transactions
    (h : (TransactionRules.insertTransaction tx).eval ix = some ix') :
    ix'.recorded = ix.recorded ++ [tx] := by
  obtain ⟨ix₁, h₁, hdone⟩ := Option.bind_eq_some_iff.1 h
  obtain rfl := Option.some_inj.1 hdone
  obtain ⟨-, hnew, hobjects, hnext⟩ := Indexes.create_spec h₁
  have hold : ∀ inst ∈ List.range (ix.nextId transactionIndex),
      (ix₁.transactionAt inst).map (inst, ·) = (ix.transactionAt inst).map (inst, ·) := by
    intro inst hinst
    have hne : (⟨transactionIndex, inst⟩ : ObjectId) ≠
        ⟨transactionIndex, ix.nextId transactionIndex⟩ := by
      simpa using (List.mem_range.1 hinst).ne
    simp only [Indexes.transactionAt, hobjects _ hne]
  have hlast : ix₁.transactionAt (ix.nextId transactionIndex) = some tx := by
    simp only [Indexes.transactionAt, hnew]
  rw [Indexes.recorded, Indexes.recorded, Indexes.transactions, Indexes.transactions, hnext,
    List.range_succ, List.filterMap_append, List.map_append, List.filterMap_congr hold]
  simp [hlast]

theorem applyTransaction_recorded (h : R.protocol.applyTransaction ix tx = some ix') :
    ix'.recorded = ix.recorded ++ [tx] := by
  have heval : (R.evaluate ix tx).eval ix = some ix' := h
  rw [TransactionRules.evaluate] at heval
  split at heval
  case isFalse => cases heval
  case isTrue =>
    rw [Script.eval_andThen] at heval
    obtain ⟨ix₁, hinsert, hoperations⟩ := Option.bind_eq_some_iff.1 heval
    have hagrees := (R.operations ix₁ tx).2.1.agrees hoperations
    rw [Indexes.recorded, hagrees.transactions_eq]
    exact insertTransaction_transactions hinsert

theorem applyTransactions_recorded {txs : List T.Tx}
    (h : txs.foldlM R.protocol.applyTransaction ix = some ix') :
    ix'.recorded = ix.recorded ++ txs := by
  induction txs generalizing ix with
  | nil =>
    obtain rfl := Option.some_inj.1 h
    rw [List.append_nil]
  | cons tx txs ih =>
    rw [List.foldlM_cons] at h
    obtain ⟨ix₁, h₁, hrest⟩ := Option.bind_eq_some_iff.1 h
    rw [ih hrest, applyTransaction_recorded h₁, List.append_assoc]
    rfl

theorem updateLastIrreversible_transactions
    (h : (R.protocol.updateLastIrreversible ix).eval ix = some ix') :
    ix'.headBlockTime = ix.headBlockTime ∧ ix'.transactions = ix.transactions := by
  rw [Protocol.updateLastIrreversible] at h
  cases hdgp : ix.dgp? with
  | none =>
    rw [hdgp] at h
    cases h
  | some dgp =>
    rw [hdgp] at h
    dsimp only at h
    split_ifs at h
    · obtain ⟨htime, -, htransactions⟩ := modifyDgp_spec h
      exact ⟨htime, htransactions⟩
    · obtain rfl := Option.some_inj.1 h
      exact ⟨rfl, rfl⟩

theorem Script.sparing_transactions (s : SparingScript T) (h : s.1.eval ix = some ix') :
    ix'.headBlockTime = ix.headBlockTime ∧ ix'.transactions = ix.transactions := by
  have hagrees := s.2.1.agrees h
  exact ⟨headBlockTime_congr (hagrees.objects _ (Or.inl rfl)), hagrees.transactions_eq⟩

/-- What a list of transactions is cleared to at a time: nothing, if all have expired, and nothing
less if not. -/
def clearedTo (now : ℕ) (txs : List T.Tx) : List T.Tx :=
  if ∀ tx ∈ txs, T.expiration tx < now then [] else txs

theorem clearedTo_spec (h : (TransactionRules.clearExpiredTransactions ix).eval ix = some ix') :
    ix'.recorded = clearedTo ix.headBlockTime ix.recorded := by
  have hmem : (∀ tx ∈ ix.recorded, T.expiration tx < ix.headBlockTime) ↔
      ∀ e ∈ ix.transactions, T.expiration e.2 < ix.headBlockTime := by
    simp only [Indexes.recorded, List.forall_mem_map]
  rw [clearedTo]
  rcases (clearExpiredTransactions_spec h).2 with ⟨hall, hnil⟩ | ⟨⟨e, he, hlive⟩, hsame⟩
  · rw [if_pos (hmem.2 hall), Indexes.recorded, hnil]
    rfl
  · rw [if_neg fun hall ↦ absurd (hmem.1 hall e he) (not_lt.2 hlive), Indexes.recorded, hsame]
    rfl

/-- **The index after a block** has the transactions that it had and those of the block, or none of
them, if all have expired by the time of the block. -/
theorem applyBlock_recorded (h : R.protocol.applyBlock ix b = some ix') :
    ix'.headBlockTime = b.timestamp ∧
      ix'.recorded = clearedTo b.timestamp (ix.recorded ++ b.transactions) := by
  obtain ⟨ix₄, huntil, hfrom⟩ := Option.bind_eq_some_iff.1 h
  obtain ⟨-, ix₁, ix₂, ix₃, htxs, hcount, htime, hhead⟩ := applyUntilHead_inv huntil
  obtain ⟨ix₅, ix₆, ix₇, ix₈, hwitness, hlast, hmaintain, hclear, hend⟩ := applyFromHead_inv hfrom
  obtain ⟨-, htransactions₂⟩ := Script.sparing_transactions (R.countMissed ix₁ b) hcount
  obtain ⟨htime₃, -, htransactions₃⟩ := setTime_spec htime
  obtain ⟨htime₄, -, htransactions₄⟩ := updateHead_spec hhead
  obtain ⟨htime₅, htransactions₅⟩ :=
    Script.sparing_transactions (R.updateSigningWitness ix₄ b) hwitness
  obtain ⟨htime₆, htransactions₆⟩ := updateLastIrreversible_transactions hlast
  obtain ⟨htime₇, htransactions₇⟩ := Script.sparing_transactions (R.maintain ix₆ b) hmaintain
  obtain ⟨htime', htransactions'⟩ := Script.sparing_transactions (R.finish ix₈ b) hend
  have hnow : ix₇.headBlockTime = b.timestamp :=
    htime₇.trans (htime₆.trans (htime₅.trans (htime₄.trans htime₃)))
  have hrecorded : ix₇.recorded = ix.recorded ++ b.transactions := by
    rw [Indexes.recorded, htransactions₇, htransactions₆, htransactions₅, htransactions₄,
      htransactions₃, htransactions₂]
    exact applyTransactions_recorded htxs
  constructor
  · rw [htime', (clearExpiredTransactions_spec hclear).1, hnow]
  · rw [Indexes.recorded, htransactions', ← Indexes.recorded, clearedTo_spec hclear, hnow,
      hrecorded]

/-! ## What should be left -/

/-- What is left of a list of transactions at a time is what has not expired. -/
structure ExpiredGone (now : ℕ) (before after : List T.Tx) : Prop where
  /-- Nothing is left that has expired. -/
  gone : ∀ tx ∈ after, now ≤ T.expiration tx
  /-- What has not expired is left. -/
  kept : ∀ tx ∈ before, now ≤ T.expiration tx → tx ∈ after

/-- All of the transactions have expired at a time, or none of them has. -/
def AllOrNone (now : ℕ) (txs : List T.Tx) : Prop :=
  (∀ tx ∈ txs, T.expiration tx < now) ∨ ∀ tx ∈ txs, now ≤ T.expiration tx

theorem expiredGone_clearedTo_iff {now : ℕ} {txs : List T.Tx} :
    ExpiredGone now txs (clearedTo now txs) ↔ AllOrNone now txs := by
  rw [clearedTo]
  split_ifs with hall
  · refine iff_of_true ⟨fun _ h ↦ absurd h List.not_mem_nil, fun tx htx hlive ↦ ?_⟩ (.inl hall)
    exact absurd (hall tx htx) (not_lt.2 hlive)
  · constructor
    · exact fun h ↦ .inr h.gone
    · rintro (h | h)
      · exact absurd h hall
      · exact ⟨h, fun _ htx _ ↦ htx⟩

/-- The blocks of a chain clear the index at a time when all that is in it has expired, or nothing
has. -/
def ClearsAligned (R : TransactionRules T) (g : ChainState T.types)
    (chain : List (SignedBlock T.types)) : Prop :=
  ∀ b bs ix, b :: bs <:+ chain → R.protocol.stateAt g bs = some ix →
    AllOrNone b.timestamp (ix.recorded ++ b.transactions)

theorem headBlockTime_lt_of_applyBlock (h : R.protocol.applyBlock ix b = some ix') :
    ix.headBlockTime < b.timestamp := by
  obtain ⟨ix₁, huntil, -⟩ := Option.bind_eq_some_iff.1 h
  exact (applyUntilHead_inv huntil).1

/-- **On a chain whose blocks are aligned** the index has the transactions of the chain that have
not expired. -/
theorem recorded_of_aligned {g : ChainState T.types} (hg : g.transactions = [])
    {chain : List (SignedBlock T.types)} (haligned : ClearsAligned R g chain)
    (h : R.protocol.stateAt g chain = some ix) (tx : T.Tx) :
    tx ∈ ix.recorded ↔ tx ∈ chainTransactions chain ∧ ix.headBlockTime ≤ T.expiration tx := by
  induction chain generalizing ix with
  | nil =>
    obtain rfl := Option.some_inj.1 h
    rw [Indexes.recorded, hg]
    simp [chainTransactions]
  | cons b bs ih =>
    obtain ⟨ix₁, h₁, happly⟩ := Option.bind_eq_some_iff.1 h
    have hrest : ClearsAligned R g bs := fun b' bs' ix' hsuffix ↦
      haligned b' bs' ix' (hsuffix.trans (List.suffix_cons b bs))
    obtain ⟨htime, hrecorded⟩ := applyBlock_recorded happly
    have hlt := headBlockTime_lt_of_applyBlock happly
    have hexact := expiredGone_clearedTo_iff.2 (haligned b bs ix₁ (List.suffix_refl _) h₁)
    rw [← hrecorded] at hexact
    have hchain : tx ∈ chainTransactions (b :: bs) ↔
        tx ∈ b.transactions ∨ tx ∈ chainTransactions bs := by
      rw [chainTransactions, List.flatMap_cons, List.mem_append]
      rfl
    rw [htime, hchain]
    constructor
    · intro htx
      refine ⟨?_, hexact.gone tx htx⟩
      rw [hrecorded, clearedTo] at htx
      split_ifs at htx
      · cases htx
      · rcases List.mem_append.1 htx with hold | hnew
        · exact .inr ((ih hrest h₁).1 hold).1
        · exact .inl hnew
    · rintro ⟨hnew | hold, hlive⟩
      · exact hexact.kept tx (List.mem_append_right _ hnew) hlive
      · refine hexact.kept tx (List.mem_append_left _ ?_) hlive
        exact (ih hrest h₁).2 ⟨hold, hlt.le.trans hlive⟩

/-- **What is left in the duplicate index.**  At whatever state, the index after a block has exactly
what has not expired if and only if all that it had and got has expired, or none of it.  A node that
has come to the end of a chain all of whose blocks are like that, by whatever calls, has in its
index exactly the transactions of the chain that have not expired. -/
theorem duplicate_index_exact_iff {g : ChainState T.types} (hg : Base g)
    (hempty : g.transactions = []) {Ok : Database T.types → Call T.types → Prop}
    {d₀ d : Database T.types} (h₀ : d₀.Opened R.protocol g 1) (h : Run R.protocol Ok d₀ d) :
    (∀ ix b ix', R.protocol.applyBlock ix b = some ix' →
      (ExpiredGone ix'.headBlockTime (ix.recorded ++ b.transactions) ix'.recorded ↔
        AllOrNone b.timestamp (ix.recorded ++ b.transactions))) ∧
      ∃ chain, R.protocol.stateAt g chain = some d.headState ∧
        (ClearsAligned R g chain → ∀ tx, tx ∈ d.headState.recorded ↔
          tx ∈ chainTransactions chain ∧ d.headState.headBlockTime ≤ T.expiration tx) := by
  constructor
  · intro ix b ix' happly
    obtain ⟨htime, hrecorded⟩ := applyBlock_recorded happly
    rw [htime, hrecorded]
    exact expiredGone_clearedTo_iff
  · obtain ⟨chain, hrest⟩ := h.atRest hg R.nests (Protocol.lags_one hg) h₀
    exact ⟨chain, hrest.state_eq, fun haligned ↦ recorded_of_aligned hempty haligned
      hrest.state_eq⟩

namespace Testnet

/-- Where all transactions expire at one time, the index is exact. -/
theorem duplicate_index_exact_thrice :
    ∃ chain, expiringRules.protocol.stateAt expiringGenesis chain = some payThrice.headState ∧
      ∀ tx, tx ∈ payThrice.headState.recorded ↔
        tx ∈ chainTransactions chain ∧ payThrice.headState.headBlockTime ≤ 100 := by
  have hrun : Run expiringRules.protocol (fun _ _ ↦ True) expiringNode payThrice :=
    run_pushNext (run_pushNext (run_pushNext (run_pushNext .refl _ _) _ _) _ _) _ _
  obtain ⟨chain, hchain, hexact⟩ :=
    (duplicate_index_exact_iff expiringGenesis_base rfl expiringNode_opened hrun).2
  refine ⟨chain, hchain, hexact fun b _ _ _ _ ↦ ?_⟩
  rcases lt_or_ge 100 b.timestamp with hlate | hearly
  · exact .inl fun _ _ ↦ hlate
  · exact .inr fun _ _ ↦ hearly

/-! ## A transaction that is kept back -/

/-- The transactions of a small chain, of which payments expire at 20 and the others at 1000. -/
def staggered : TransactionTypes :=
  { expiring with
    expiration := fun tx : Tx ↦ if tx = .pay then 20 else 1000
    expiration_eq := fun _ _ h ↦ congrArg (fun tx : Tx ↦ if tx = .pay then 20 else 1000) h }

/-- A part of the protocol that does nothing. -/
def idle : SparingScript staggered := ⟨.done, trivial, Nat.zero_le 1⟩

/-- Transactions that are applied have no other effect. -/
def staggeredRules : TransactionRules staggered where
  hash h := .header h.previous.num h.previous.digest h.transactionMerkleRoot h.content.timestamp
  hash_injective := by
    rintro ⟨⟨num, digest⟩, root, ⟨time, _⟩⟩ ⟨⟨num', digest'⟩, root', ⟨time', _⟩⟩ h
    obtain ⟨rfl, rfl, rfl, rfl⟩ := Digest.header.inj h
    rfl
  calculateMerkleRoot := .root
  calculateMerkleRoot_injective _ _ h := Digest.root.inj h
  validate _ := true
  verifyAuthority _ _ := true
  tapos _ _ := true
  maximumTimeUntilExpiration _ := 1000
  operations _ _ := idle
  validateWitness _ _ := true
  countMissed _ _ := idle
  updateSigningWitness _ _ := idle
  confirmations _ := []
  confirmations_le _ _ _ _ h := absurd h List.not_mem_nil
  maintain _ _ := idle
  finish _ _ := idle

/-- The genesis state, at time 0. -/
def staggeredGenesis : ChainState staggered.types where
  objects id :=
    if id = dgpId then
      some (.dynamicGlobalProperties ⟨0, BlockId.zero staggered.types, 0⟩)
    else if id = timeId then some (.other (.time 0))
    else none
  nextId index := if index = dgpId.index then 2 else 0

/-- A block at a time, on the head block of a state. -/
def nextBlock (ix : ChainState staggered.types) (timestamp : ℕ) (txs : List Tx) :
    SignedBlock staggered.types :=
  ⟨⟨ix.headBlockId, .root txs, ⟨timestamp, ()⟩⟩, txs⟩

/-- A block at 5 with a payment and a transaction that lives long. -/
def longLived : SignedBlock staggered.types := nextBlock staggeredGenesis 5 [.pay, .fail]

/-- An empty block at 50, on that one. -/
def afterPayment : SignedBlock staggered.types :=
  ⟨⟨staggeredRules.protocol.blockId longLived, .root [], ⟨50, ()⟩⟩, []⟩

/-- The payment that has expired at 20 is still in the index at 50. -/
theorem expired_transaction_kept :
    ((staggeredRules.protocol.stateAt staggeredGenesis [afterPayment, longLived]).map fun ix ↦
      ((ix.headBlockTime, ix.recorded) : ℕ × List Tx)) = some (50, [.pay, .fail]) ∧
    staggered.expiration Tx.pay < 50 := by
  decide +kernel

end Testnet

end Graphene
