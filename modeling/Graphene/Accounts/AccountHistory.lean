import Graphene.Accounts.Impacted
import Graphene.Db.IndexKinds
import Graphene.Db.ObjectDatabase
import Graphene.Lib.LinkedList
import Graphene.Lib.Transitions

/-!
# The account history

After each block the plugin goes through the operations that were applied in it, and links an entry
for each into the list of every account it impacts, by way of two fields of the account's
statistics.  It runs inside the block: when it throws, the block is not applied.

* `updateAccountHistories` — the plugin, with the accounts it has been told to track, or with none,
  which stands for all.
* `Faithful` — the lists say which operations impacted the accounts.
* `Basic`, `Records` — what is kept in order however the chain goes, and what the lists are as long
  as all accounts are tracked; `InOrder.addOperation` — what one operation does to them.
* `account_history_iff` — when the history is faithful after every block.
* `history_stops_chain` — when the plugin makes a block fail.
-/

set_option autoImplicit false

namespace Graphene

open Transitions

/-! ## The objects -/

/-- `operation_result`. -/
inductive OperationResult where
  /-- `void_result`. -/
  | void
  /-- `object_id_type`. -/
  | objectId (id : ObjectId)
  /-- `asset`. -/
  | asset (amount : ℤ) (assetId : ℕ)

/-- `operation_history_object`, less its id. -/
structure OperationHistory (K : Type) where
  /-- `op`. -/
  op : ChainOperation K
  /-- `result`. -/
  result : OperationResult
  /-- `block_num`. -/
  blockNum : ℕ := 0
  /-- `trx_in_block`. -/
  trxInBlock : ℕ := 0
  /-- `op_in_trx`. -/
  opInTrx : ℕ := 0
  /-- `virtual_op`. -/
  virtualOp : ℕ := 0

/-- `account_transaction_history_object`, less its id. -/
structure AccountTransactionHistory where
  /-- `account`. -/
  account : AccountId := 0
  /-- `operation_id`. -/
  operationId : ℕ := 0
  /-- `sequence`. -/
  sequence : ℕ := 0
  /-- `next`. -/
  next : ℕ := 0
deriving DecidableEq, Inhabited

/-- The secondary keys of `account_transaction_history_multi_index_type`: `by_seq` and `by_op`. -/
def AccountTransactionHistory.sharesKey (e e' : AccountTransactionHistory) : Bool :=
  e.account = e'.account ∧ (e.sequence = e'.sequence ∨ e.operationId = e'.operationId)

/-- The fields of `account_statistics_object` that the plugin uses. -/
structure HistoryStatistics where
  /-- `most_recent_op`. -/
  mostRecentOp : ℕ := 0
  /-- `total_ops`. -/
  totalOps : ℕ := 0

/-- The objects the plugin uses. -/
structure HistoryState (K : Type) where
  /-- The statistics of the accounts there are. -/
  statistics : AccountId → Option HistoryStatistics
  /-- The operation history. -/
  operationHistory : ℕ → Option (OperationHistory K) := fun _ ↦ none
  /-- Its next id. -/
  nextOperationId : ℕ := 0
  /-- `account_transaction_history_index`. -/
  accountHistory : List (Obj AccountTransactionHistory) := []
  /-- Its next id. -/
  nextAccountHistoryId : ℕ := 0

variable {K : Type}

/-! ## The plugin -/

/-- The accounts the plugin lists an operation for. -/
def OperationHistory.impacted [LinearOrder K] (h : OperationHistory K) :
    Option (Finset AccountId) := do
  let required := ChainOperation.getRequired h.op
  let impacted := required.active ∪ required.owner
  let impacted ←
    match h.op with
    | .other (.accountCreate ..) =>
      match h.result with
      | .objectId id => some (insert id.inst impacted)
      | _ => none
    | op => some (impacted ∪ ChainOperation.getImpacted op)
  return impacted ∪ addAuthoritiesAccounts required.other

namespace HistoryState

variable (s : HistoryState K)

/-- `db.create<account_transaction_history_object>`. -/
def createEntry (entry : AccountTransactionHistory) : Option (ℕ × HistoryState K) :=
  let x := (genericIndex AccountTransactionHistory.sharesKey).create s.nextAccountHistoryId
    (fun _ ↦ ⟨entry, false⟩) s.accountHistory
  if x.threw then none
  else some (s.nextAccountHistoryId, { s with
    accountHistory := x.value
    nextAccountHistoryId := s.nextAccountHistoryId + 1 })

/-- The history is extended while all accounts are tracked. -/
def addHistory (operationId : ℕ) (s : HistoryState K) (account : AccountId) :
    Option (HistoryState K) := do
  let stats ← s.statistics account
  let sequence := (stats.totalOps + 1) % 2 ^ 32
  let (id, s) ← s.createEntry { account, operationId, sequence, next := stats.mostRecentOp }
  let stats : HistoryStatistics := { mostRecentOp := id, totalOps := sequence }
  return { s with statistics := Function.update s.statistics account (some stats) }

/-- The history is extended when accounts have been picked. -/
def addTrackedHistory (operationId : ℕ) (s : HistoryState K) (account : AccountId) :
    Option (HistoryState K) := do
  let stats ← s.statistics account
  let (id, s) ← s.createEntry { operationId, next := stats.mostRecentOp }
  let stats : HistoryStatistics := { stats with mostRecentOp := id }
  return { s with statistics := Function.update s.statistics account (some stats) }

/-- The body of the loop of `update_account_histories`. -/
def addOperation [LinearOrder K] (trackedAccounts : Finset AccountId) (s : HistoryState K) :
    Option (OperationHistory K) → Option (HistoryState K)
  | none => some { s with nextOperationId := s.nextOperationId + 1 }
  | some h => do
    let operationId := s.nextOperationId
    let s := { s with
      operationHistory := Function.update s.operationHistory operationId (some h)
      nextOperationId := operationId + 1 }
    let impacted ← h.impacted
    if trackedAccounts = ∅ then (impacted.sort (· ≤ ·)).foldlM (addHistory operationId) s
    else
      ((trackedAccounts.sort (· ≤ ·)).filter (· ∈ impacted)).foldlM
        (addTrackedHistory operationId) s

/-- `update_account_histories`, on the operations `get_applied_operations` returns. -/
def updateAccountHistories [LinearOrder K] (trackedAccounts : Finset AccountId)
    (s : HistoryState K) (hist : List (Option (OperationHistory K))) : Option (HistoryState K) :=
  hist.foldlM (addOperation trackedAccounts) s

end HistoryState

/-- What a block does, as far as the plugin is concerned. -/
structure AppliedBlock (K : Type) where
  /-- The accounts it creates. -/
  created : Finset AccountId
  /-- `_applied_ops`, at the end. -/
  applied : List (Option (OperationHistory K))

namespace HistoryState

/-- New accounts come with new statistics. -/
def createAccounts (s : HistoryState K) (created : Finset AccountId) : HistoryState K :=
  { s with statistics := fun a ↦
      match s.statistics a with
      | some stats => some stats
      | none => if a ∈ created then some {} else none }

/-- The end of `_apply_block`. -/
def applyBlock [LinearOrder K] (trackedAccounts : Finset AccountId) (s : HistoryState K)
    (b : AppliedBlock K) : Option (HistoryState K) :=
  (s.createAccounts b.created).updateAccountHistories trackedAccounts b.applied

/-- The plugin starts with the accounts of the genesis state, and no history. -/
def start (accounts : Finset AccountId) : HistoryState K where
  statistics a := if a ∈ accounts then some {} else none

end HistoryState

/-! ## What it is for -/

/-- Whether an operation that was applied, unless it has been taken back, impacted an account. -/
def Impacts [LinearOrder K] (a : AccountId) (o : Option (OperationHistory K)) : Bool :=
  (o.bind OperationHistory.impacted).any fun impacted ↦ a ∈ impacted

/-- Which of the operations `ops` impacted an account: their numbers, in order. -/
def impactingIds [LinearOrder K] (a : AccountId) (ops : List (Option (OperationHistory K))) :
    List ℕ :=
  ops.findIdxs (Impacts a)

/-- An account is tracked: it has been picked, or none has. -/
def Tracks (trackedAccounts : Finset AccountId) (a : AccountId) : Prop :=
  trackedAccounts = ∅ ∨ a ∈ trackedAccounts

namespace HistoryState

/-- An entry of the index. -/
def entry (s : HistoryState K) (i : ℕ) : Option AccountTransactionHistory :=
  ((genericIndex AccountTransactionHistory.sharesKey).find s.accountHistory i).map Obj.value

/-- The entries that are visited from `most_recent_op` on, `total_ops` of them. -/
def visited (s : HistoryState K) (stats : HistoryStatistics) :
    Option (List AccountTransactionHistory) :=
  LinkedList.follow s.entry AccountTransactionHistory.next stats.totalOps stats.mostRecentOp

/-- The list of an account is that of the operations `ids`. -/
structure Lists (s : HistoryState K) (a : AccountId) (stats : HistoryStatistics) (ids : List ℕ)
    (entries : List AccountTransactionHistory) : Prop where
  /-- What is visited. -/
  visited_eq : s.visited stats = some entries
  /-- The numbers go down to 1. -/
  sequence_eq : entries.map AccountTransactionHistory.sequence =
    (List.range' 1 stats.totalOps).reverse
  /-- All are the account's own. -/
  account_eq : ∀ e ∈ entries, e.account = a
  /-- The operations, newest first. -/
  operationId_eq : entries.map AccountTransactionHistory.operationId = ids.reverse

/-- The history after the operations `ops` is what it should be. -/
structure Faithful [LinearOrder K] (trackedAccounts : Finset AccountId) (s : HistoryState K)
    (ops : List (Option (OperationHistory K))) : Prop where
  /-- The numbers of the operations are those of the objects. -/
  operations : ∀ i, s.operationHistory i = ops[i]?.join
  /-- The lists of the tracked accounts. -/
  lists : ∀ a stats, Tracks trackedAccounts a → s.statistics a = some stats →
    ∃ entries, s.Lists a stats (impactingIds a ops) entries

/-! ## Entries -/

variable {s s' : HistoryState K}

/-- Creating an entry touches nothing else. -/
theorem createEntry_inv {e : AccountTransactionHistory} {id : ℕ}
    (h : s.createEntry e = some (id, s')) :
    s'.statistics = s.statistics ∧ s'.operationHistory = s.operationHistory ∧
      s'.nextOperationId = s.nextOperationId := by
  rw [createEntry] at h
  split_ifs at h
  obtain ⟨-, rfl⟩ := Prod.mk.inj (Option.some_inj.1 h)
  exact ⟨rfl, rfl, rfl⟩

/-- The container, with the entry `e` under the next id. -/
def added (s : HistoryState K) (e : AccountTransactionHistory) : HistoryState K :=
  { s with
    accountHistory :=
      (emplace AccountTransactionHistory.sharesKey ⟨s.nextAccountHistoryId, e⟩
        s.accountHistory).value
    nextAccountHistoryId := s.nextAccountHistoryId + 1 }

/-- What creating an entry does, when no other has one of its keys. -/
theorem createEntry_spec (hvisits : Visits s.accountHistory s.entry)
    (hfresh : ∀ i e, s.entry i = some e → i < s.nextAccountHistoryId)
    {e : AccountTransactionHistory}
    (hkeys : ∀ i e', s.entry i = some e' → e'.sharesKey e = false) :
    s.createEntry e = some (s.nextAccountHistoryId, s.added e) ∧
      (s.added e).entry = Function.update s.entry s.nextAccountHistoryId (some e) ∧
      Visits (s.added e).accountHistory (s.added e).entry := by
  have hfree : s.entry s.nextAccountHistoryId = none := by
    cases hentry : s.entry s.nextAccountHistoryId with
    | none => rfl
    | some e' => exact absurd (hfresh _ e' hentry) (lt_irrefl _)
  have hthrew : (emplace AccountTransactionHistory.sharesKey ⟨s.nextAccountHistoryId, e⟩
      s.accountHistory).threw = false := by
    rw [← Bool.not_eq_true, threw_emplace]
    rintro ⟨⟨i, e'⟩, hmem, hid | hkey⟩
    · have hlt := hfresh i e' ((hvisits.2 i e').1 hmem)
      have hid' : i = s.nextAccountHistoryId := hid
      omega
    · rw [hkeys i e' ((hvisits.2 i e').1 hmem)] at hkey
      cases hkey
  have hvisits' : Visits (emplace AccountTransactionHistory.sharesKey
      ⟨s.nextAccountHistoryId, e⟩ s.accountHistory).value _ := hvisits.emplace hfree e
  rw [hthrew, cond_false] at hvisits'
  have hentry : (s.added e).entry = Function.update s.entry s.nextAccountHistoryId (some e) := by
    funext i
    change ((s.added e).accountHistory.find? (·.id = i)).map Obj.value = _
    rw [added, hvisits'.find, Option.map_map]
    cases Function.update s.entry s.nextAccountHistoryId (some e) i <;> rfl
  refine ⟨?_, hentry, hentry ▸ hvisits'⟩
  rw [createEntry]
  exact if_neg (ne_true_of_eq_false hthrew)

/-! ## What every operation keeps in order -/

/-- The operations, and which accounts there are, are the same. -/
structure SameAccounts (s s' : HistoryState K) : Prop where
  /-- The operations. -/
  operationHistory_eq : s'.operationHistory = s.operationHistory
  /-- Their next number. -/
  nextOperationId_eq : s'.nextOperationId = s.nextOperationId
  /-- The accounts. -/
  isSome_eq : ∀ a, (s'.statistics a).isSome = (s.statistics a).isSome

theorem SameAccounts.refl (s : HistoryState K) : SameAccounts s s := ⟨rfl, rfl, fun _ ↦ rfl⟩

theorem SameAccounts.trans {s₁ s₂ s₃ : HistoryState K} (h : SameAccounts s₁ s₂)
    (h' : SameAccounts s₂ s₃) : SameAccounts s₁ s₃ :=
  ⟨h'.1.trans h.1, h'.2.trans h.2, fun a ↦ (h'.3 a).trans (h.3 a)⟩

/-- New statistics for an account that is there. -/
theorem sameAccounts_update {s₁ : HistoryState K} {a : AccountId} {stats stats' : HistoryStatistics}
    (hstats : s.statistics a = some stats) (hsame : s₁.statistics = s.statistics ∧
      s₁.operationHistory = s.operationHistory ∧ s₁.nextOperationId = s.nextOperationId) :
    SameAccounts s { s₁ with statistics := Function.update s₁.statistics a (some stats') } := by
  obtain ⟨hstatistics, hoperations, hnext⟩ := hsame
  refine ⟨hoperations, hnext, fun b ↦ ?_⟩
  change (Function.update s₁.statistics a (some stats') b).isSome = _
  rw [hstatistics]
  by_cases hb : b = a
  · rw [hb, Function.update_self, hstats]
    rfl
  · rw [Function.update_of_ne hb]

/-- `total_ops` is a `uint32_t`, and nothing but zero while accounts have been picked. -/
def Bounded (trackedAccounts : Finset AccountId) (s : HistoryState K) : Prop :=
  ∀ a stats, s.statistics a = some stats →
    stats.totalOps < 2 ^ 32 ∧ (trackedAccounts ≠ ∅ → stats.totalOps = 0)

theorem Bounded.update {trackedAccounts : Finset AccountId} {s₁ : HistoryState K} {a : AccountId}
    {stats' : HistoryStatistics} (h : Bounded trackedAccounts s)
    (hsame : s₁.statistics = s.statistics)
    (hstats' : stats'.totalOps < 2 ^ 32 ∧ (trackedAccounts ≠ ∅ → stats'.totalOps = 0)) :
    Bounded trackedAccounts
      { s₁ with statistics := Function.update s₁.statistics a (some stats') } := by
  intro b stats hb
  change Function.update s₁.statistics a (some stats') b = some stats at hb
  by_cases hba : b = a
  · rw [hba, Function.update_self] at hb
    exact Option.some_inj.1 hb ▸ hstats'
  · rw [Function.update_of_ne hba, hsame] at hb
    exact h b stats hb

/-- What listing an operation for an account needs, and keeps. -/
theorem addHistory_inv {k : ℕ} {a : AccountId} (h : addHistory k s a = some s') :
    (s.statistics a).isSome ∧ SameAccounts s s' ∧ (Bounded ∅ s → Bounded ∅ s') := by
  obtain ⟨stats, hstats, h⟩ := Option.bind_eq_some_iff.1 h
  obtain ⟨⟨id, s₁⟩, hentry, h⟩ := Option.bind_eq_some_iff.1 h
  obtain rfl := Option.some_inj.1 h
  have hsame := createEntry_inv hentry
  refine ⟨by rw [hstats]; rfl, sameAccounts_update hstats hsame, fun hbounded ↦ ?_⟩
  exact hbounded.update hsame.1 ⟨Nat.mod_lt _ (by decide), fun hne ↦ absurd rfl hne⟩

theorem addTrackedHistory_inv {trackedAccounts : Finset AccountId} {k : ℕ} {a : AccountId}
    (h : addTrackedHistory k s a = some s') :
    (s.statistics a).isSome ∧ SameAccounts s s' ∧
      (Bounded trackedAccounts s → Bounded trackedAccounts s') := by
  obtain ⟨stats, hstats, h⟩ := Option.bind_eq_some_iff.1 h
  obtain ⟨⟨id, s₁⟩, hentry, h⟩ := Option.bind_eq_some_iff.1 h
  obtain rfl := Option.some_inj.1 h
  have hsame := createEntry_inv hentry
  refine ⟨by rw [hstats]; rfl, sameAccounts_update hstats hsame, fun hbounded ↦ ?_⟩
  exact hbounded.update hsame.1 (hbounded a stats hstats)

/-- The same of one account after the other. -/
theorem foldlM_inv {trackedAccounts : Finset AccountId}
    {step : HistoryState K → AccountId → Option (HistoryState K)}
    (hstep : ∀ {s a s'}, step s a = some s' → (s.statistics a).isSome ∧ SameAccounts s s' ∧
      (Bounded trackedAccounts s → Bounded trackedAccounts s'))
    {l : List AccountId} (h : l.foldlM step s = some s') :
    (∀ a ∈ l, (s.statistics a).isSome) ∧ SameAccounts s s' ∧
      (Bounded trackedAccounts s → Bounded trackedAccounts s') := by
  induction l generalizing s with
  | nil =>
    obtain rfl := Option.some_inj.1 h
    exact ⟨fun _ ha ↦ absurd ha List.not_mem_nil, .refl s, id⟩
  | cons a l ih =>
    rw [List.foldlM_cons] at h
    obtain ⟨s₁, h₁, hrest⟩ := Option.bind_eq_some_iff.1 h
    obtain ⟨hsome, hsame, hbounded⟩ := hstep h₁
    obtain ⟨hsome', hsame', hbounded'⟩ := ih hrest
    exact ⟨List.forall_mem_cons.2 ⟨hsome, fun b hb ↦ hsame.isSome_eq b ▸ hsome' b hb⟩,
      hsame.trans hsame', hbounded' ∘ hbounded⟩

/-- What is true after the operations `ops` of any chain on which the accounts `existing` are, as
long as the plugin has not thrown. -/
structure Basic [LinearOrder K] (trackedAccounts existing : Finset AccountId) (s : HistoryState K)
    (ops : List (Option (OperationHistory K))) : Prop where
  /-- The operations are there, under their numbers. -/
  operations : ∀ i, s.operationHistory i = ops[i]?.join
  /-- The next number. -/
  nextOperationId_eq : s.nextOperationId = ops.length
  /-- The accounts. -/
  isSome_iff : ∀ a, (s.statistics a).isSome ↔ a ∈ existing
  /-- The numbers of operations. -/
  bounded : Bounded trackedAccounts s
  /-- The tracked accounts among those that were impacted. -/
  covered : ∀ h, some h ∈ ops → ∃ impacted, h.impacted = some impacted ∧
    ∀ a ∈ impacted, Tracks trackedAccounts a → a ∈ existing

section

variable [LinearOrder K] {trackedAccounts existing : Finset AccountId}
  {ops : List (Option (OperationHistory K))}

theorem basic_start (accounts : Finset AccountId) :
    Basic trackedAccounts accounts (start (K := K) accounts) [] where
  operations _ := rfl
  nextOperationId_eq := rfl
  isSome_iff a := by
    simp only [start]
    split_ifs with ha
    · exact iff_of_true rfl ha
    · exact iff_of_false Bool.false_ne_true ha
  bounded := by
    intro a stats h
    simp only [start] at h
    split_ifs at h
    obtain rfl := Option.some_inj.1 h
    exact ⟨by decide, fun _ ↦ rfl⟩
  covered h hmem := absurd hmem List.not_mem_nil

theorem Basic.createAccounts (h : Basic trackedAccounts existing s ops)
    (created : Finset AccountId) :
    Basic trackedAccounts (existing ∪ created) (s.createAccounts created) ops where
  operations := h.operations
  nextOperationId_eq := h.nextOperationId_eq
  isSome_iff a := by
    have ha := h.isSome_iff a
    simp only [Finset.mem_union, ← ha, HistoryState.createAccounts]
    cases hstats : s.statistics a with
    | some stats => simp
    | none => by_cases hcreated : a ∈ created <;> simp [hcreated]
  bounded := by
    intro a stats hstats
    rw [HistoryState.createAccounts] at hstats
    dsimp only at hstats
    split at hstats
    case h_1 stats' hs =>
      obtain rfl := Option.some_inj.1 hstats
      exact h.bounded a stats' hs
    case h_2 =>
      split_ifs at hstats
      obtain rfl := Option.some_inj.1 hstats
      exact ⟨by decide, fun _ ↦ rfl⟩
  covered op hop := by
    obtain ⟨impacted, himpacted, hall⟩ := h.covered op hop
    exact ⟨impacted, himpacted, fun a ha htracks ↦ Finset.mem_union_left _ (hall a ha htracks)⟩

/-- The state in which the accounts of an operation are gone through. -/
def recorded (s : HistoryState K) (h : OperationHistory K) : HistoryState K :=
  { s with
    operationHistory := Function.update s.operationHistory s.nextOperationId (some h)
    nextOperationId := s.nextOperationId + 1 }

theorem addOperation_some {h : OperationHistory K} :
    s.addOperation trackedAccounts (some h) = h.impacted.bind fun impacted ↦
      if trackedAccounts = ∅ then
        (impacted.sort (· ≤ ·)).foldlM (addHistory s.nextOperationId) (s.recorded h)
      else ((trackedAccounts.sort (· ≤ ·)).filter (· ∈ impacted)).foldlM
        (addTrackedHistory s.nextOperationId) (s.recorded h) := rfl

omit [LinearOrder K] in
/-- The numbers of the operations, when there is one more. -/
theorem getElem?_join_append (o : Option (OperationHistory K)) (i : ℕ) :
    (ops ++ [o])[i]?.join = if i = ops.length then o else ops[i]?.join := by
  split_ifs with hi
  · rw [hi, List.getElem?_concat_length]
    rfl
  · by_cases hlt : i < ops.length
    · rw [List.getElem?_append_left hlt]
    · rw [List.getElem?_eq_none (by rw [List.length_append]; simp; omega),
        List.getElem?_eq_none (by omega)]

/-- **What one operation keeps in order**, if the plugin does not throw. -/
theorem Basic.addOperation (h : Basic trackedAccounts existing s ops)
    {o : Option (OperationHistory K)} (hadd : s.addOperation trackedAccounts o = some s') :
    Basic trackedAccounts existing s' (ops ++ [o]) := by
  cases o with
  | none =>
    obtain rfl := Option.some_inj.1 hadd
    refine ⟨fun i ↦ ?_, ?_, h.isSome_iff, h.bounded, fun op hop ↦ h.covered op ?_⟩
    · rw [getElem?_join_append]
      split_ifs with hi
      · exact (h.operations i).trans (by rw [hi, List.getElem?_eq_none le_rfl]; rfl)
      · exact h.operations i
    · change s.nextOperationId + 1 = _
      rw [h.nextOperationId_eq, List.length_append]
      rfl
    · rcases List.mem_append.1 hop with hop | hop
      · exact hop
      · cases List.mem_singleton.1 hop
  | some op =>
    rw [addOperation_some] at hadd
    obtain ⟨impacted, himpacted, hfold⟩ := Option.bind_eq_some_iff.1 hadd
    -- whichever branch is taken, the impacted accounts that are tracked exist
    obtain ⟨hexist, hsame, hbounded⟩ : (∀ a ∈ impacted, Tracks trackedAccounts a →
        ((s.recorded op).statistics a).isSome) ∧ SameAccounts (s.recorded op) s' ∧
        (Bounded trackedAccounts (s.recorded op) → Bounded trackedAccounts s') := by
      split_ifs at hfold with hall
      · subst hall
        obtain ⟨hexist, hrest⟩ := foldlM_inv addHistory_inv hfold
        exact ⟨fun a ha _ ↦ hexist a ((Finset.mem_sort _).2 ha), hrest⟩
      · obtain ⟨hexist, hrest⟩ := foldlM_inv addTrackedHistory_inv hfold
        refine ⟨fun a ha htracks ↦ hexist a (List.mem_filter.2 ⟨(Finset.mem_sort _).2 ?_, ?_⟩),
          hrest⟩
        · exact htracks.resolve_left hall
        · exact decide_eq_true ha
    refine ⟨fun i ↦ ?_, ?_, fun a ↦ ?_, hbounded h.bounded, fun op' hop ↦ ?_⟩
    · rw [getElem?_join_append, hsame.operationHistory_eq, recorded]
      dsimp only
      rw [Function.update_apply, h.nextOperationId_eq, h.operations]
    · rw [hsame.nextOperationId_eq, List.length_append, ← h.nextOperationId_eq]
      rfl
    · rw [hsame.isSome_eq]
      exact h.isSome_iff a
    · rcases List.mem_append.1 hop with hop | hop
      · exact h.covered op' hop
      · obtain rfl := Option.some_inj.1 (List.mem_singleton.1 hop)
        exact ⟨impacted, himpacted, fun a ha htracks ↦ (h.isSome_iff a).1 (hexist a ha htracks)⟩

theorem Basic.updateAccountHistories (h : Basic trackedAccounts existing s ops)
    {hist : List (Option (OperationHistory K))}
    (hupdate : s.updateAccountHistories trackedAccounts hist = some s') :
    Basic trackedAccounts existing s' (ops ++ hist) := by
  induction hist generalizing s ops with
  | nil =>
    obtain rfl := Option.some_inj.1 hupdate
    rwa [List.append_nil]
  | cons o hist ih =>
    rw [HistoryState.updateAccountHistories, List.foldlM_cons] at hupdate
    obtain ⟨s₁, h₁, hrest⟩ := Option.bind_eq_some_iff.1 hupdate
    have hbasic := ih (h.addOperation h₁) hrest
    rwa [List.append_assoc] at hbasic

end

/-! ## The lists of all accounts -/

/-- The lists are those of the operations `ids` of each account. -/
structure Records (s : HistoryState K) (ids : AccountId → List ℕ) : Prop where
  /-- The container has each entry once. -/
  visits : Visits s.accountHistory s.entry
  /-- The next id is free. -/
  fresh : ∀ i e, s.entry i = some e → i < s.nextAccountHistoryId
  /-- Which keys there are. -/
  keys : ∀ i e, s.entry i = some e →
    e.operationId ∈ ids e.account ∧ e.sequence ≤ (ids e.account).length
  /-- The lists. -/
  lists : ∀ a stats, s.statistics a = some stats →
    stats.totalOps = (ids a).length ∧ ∃ entries, s.Lists a stats (ids a) entries

/-- A list can still be read when there are more entries. -/
theorem Lists.mono {a : AccountId} {stats : HistoryStatistics} {ids : List ℕ}
    {entries : List AccountTransactionHistory} (h : s.Lists a stats ids entries)
    (hentry : ∀ i e, s.entry i = some e → s'.entry i = some e) : s'.Lists a stats ids entries :=
  ⟨LinkedList.follow_mono hentry h.visited_eq, h.sequence_eq, h.account_eq, h.operationId_eq⟩

/-- The lists have nothing to do with the operations themselves. -/
theorem Records.congr {ids : AccountId → List ℕ} (h : Records s ids)
    (hstatistics : s'.statistics = s.statistics) (hhistory : s'.accountHistory = s.accountHistory)
    (hnext : s'.nextAccountHistoryId = s.nextAccountHistoryId) : Records s' ids := by
  have hentry : s'.entry = s.entry := by
    funext i
    rw [entry, hhistory]
    rfl
  refine ⟨by rw [hhistory, hentry]; exact h.visits, by rw [hentry, hnext]; exact h.fresh,
    by rw [hentry]; exact h.keys, fun a stats hstats ↦ ?_⟩
  obtain ⟨htotal, entries, hlists⟩ := h.lists a stats (hstatistics ▸ hstats)
  exact ⟨htotal, entries, hlists.mono fun i e hi ↦ hentry ▸ hi⟩

/-- **An operation is listed for an account**, on top of its list. -/
theorem Records.addHistory {ids : AccountId → List ℕ} (h : Records s ids) {k : ℕ} {a : AccountId}
    (ha : (s.statistics a).isSome) (hnew : k ∉ ids a) (hlt : (ids a).length + 1 < 2 ^ 32) :
    ∃ s', addHistory k s a = some s' ∧ Records s' (Function.update ids a (ids a ++ [k])) := by
  obtain ⟨stats, hstats⟩ := Option.isSome_iff_exists.1 ha
  obtain ⟨htotal, entries, hlists⟩ := h.lists a stats hstats
  have hsequence : (stats.totalOps + 1) % 2 ^ 32 = stats.totalOps + 1 :=
    Nat.mod_eq_of_lt (htotal ▸ hlt)
  set e : AccountTransactionHistory :=
    { account := a, operationId := k, sequence := stats.totalOps + 1,
      next := stats.mostRecentOp } with he
  obtain ⟨hcreate, hentry, hvisits⟩ := createEntry_spec (e := e) h.visits h.fresh (by
    intro i e' hi
    obtain ⟨hop, hseq⟩ := h.keys i e' hi
    refine decide_eq_false ?_
    rintro ⟨haccount, hkey⟩
    change e'.account = a at haccount
    rw [haccount] at hop hseq
    rcases hkey with hkey | hkey
    · change e'.sequence = stats.totalOps + 1 at hkey
      omega
    · change e'.operationId = k at hkey
      exact hnew (hkey ▸ hop))
  set stats' : HistoryStatistics :=
    { mostRecentOp := s.nextAccountHistoryId, totalOps := stats.totalOps + 1 } with hstats'
  have hadd : HistoryState.addHistory k s a = some { s.added e with
      statistics := Function.update (s.added e).statistics a (some stats') } := by
    rw [HistoryState.addHistory, hstats, Option.bind_eq_bind, Option.bind_some, hsequence]
    change (s.createEntry e).bind _ = _
    rw [hcreate]
    rfl
  have hmono : ∀ i e', s.entry i = some e' → (s.added e).entry i = some e' := by
    intro i e' hi
    rw [hentry, Function.update_of_ne (h.fresh i e' hi).ne]
    exact hi
  refine ⟨_, hadd, hvisits, fun i e' hi ↦ ?_, fun i e' hi ↦ ?_, fun b statsb hb ↦ ?_⟩
  · change (s.added e).entry i = some e' at hi
    change i < s.nextAccountHistoryId + 1
    rw [hentry, Function.update_apply] at hi
    split_ifs at hi with hnext
    · omega
    · exact (h.fresh i e' hi).trans (Nat.lt_succ_self _)
  · change (s.added e).entry i = some e' at hi
    rw [hentry, Function.update_apply] at hi
    split_ifs at hi with hnext
    · obtain rfl := Option.some_inj.1 hi
      rw [Function.update_self, List.length_append]
      exact ⟨List.mem_append_right _ (List.mem_singleton_self k), Nat.succ_le_succ htotal.le⟩
    · obtain ⟨hop, hseq⟩ := h.keys i e' hi
      rw [Function.update_apply]
      split_ifs with haccount
      · rw [haccount] at hop hseq
        rw [List.length_append]
        exact ⟨List.mem_append_left _ hop, hseq.trans (Nat.le_add_right _ _)⟩
      · exact ⟨hop, hseq⟩
  · change Function.update s.statistics a (some stats') b = some statsb at hb
    rw [Function.update_apply] at hb
    split_ifs at hb with hba
    · obtain rfl := Option.some_inj.1 hb
      subst hba
      rw [Function.update_self]
      refine ⟨by rw [List.length_append, ← htotal]; rfl, e :: entries, ?_, ?_, ?_, ?_⟩
      · exact LinkedList.follow_push hmono (by rw [hentry, Function.update_self])
          hlists.visited_eq
      · change _ = (List.range' 1 (stats.totalOps + 1)).reverse
        rw [List.map_cons, hlists.sequence_eq, List.range'_concat, List.reverse_append,
          Nat.one_mul, Nat.add_comm 1]
        rfl
      · exact List.forall_mem_cons.2 ⟨rfl, hlists.account_eq⟩
      · rw [List.map_cons, hlists.operationId_eq, List.reverse_append]
        rfl
    · rw [Function.update_of_ne hba]
      obtain ⟨htotalb, entriesb, hlistsb⟩ := h.lists b statsb hb
      exact ⟨htotalb, entriesb, hlistsb.mono hmono⟩

/-- The operation is listed for one account after the other. -/
theorem Records.addHistories {ids : AccountId → List ℕ} (h : Records s ids) {k : ℕ}
    {l : List AccountId} (hl : l.Nodup) (hexist : ∀ a ∈ l, (s.statistics a).isSome)
    (hnew : ∀ a ∈ l, k ∉ ids a) (hlt : ∀ a ∈ l, (ids a).length + 1 < 2 ^ 32) :
    ∃ s', l.foldlM (HistoryState.addHistory k) s = some s' ∧
      Records s' fun a ↦ if a ∈ l then ids a ++ [k] else ids a := by
  induction l generalizing s ids with
  | nil => exact ⟨s, rfl, by simpa using h⟩
  | cons a l ih =>
    obtain ⟨hmem, hl⟩ := List.nodup_cons.1 hl
    obtain ⟨s₁, hadd, h₁⟩ := h.addHistory (hexist a List.mem_cons_self)
      (hnew a List.mem_cons_self) (hlt a List.mem_cons_self)
    have hids : ∀ b ∈ l, Function.update ids a (ids a ++ [k]) b = ids b := by
      intro b hb
      refine Function.update_of_ne ?_ _ _
      rintro rfl
      exact hmem hb
    obtain ⟨-, hsame, -⟩ := addHistory_inv hadd
    obtain ⟨s', hfold, h'⟩ := ih h₁ hl
      (fun b hb ↦ (hsame.isSome_eq b).trans (hexist b (List.mem_cons_of_mem _ hb)))
      (fun b hb ↦ (hids b hb).symm ▸ hnew b (List.mem_cons_of_mem _ hb))
      (fun b hb ↦ (hids b hb).symm ▸ hlt b (List.mem_cons_of_mem _ hb))
    refine ⟨s', ?_, ?_⟩
    · rw [List.foldlM_cons, hadd]
      exact hfold
    · convert h' using 2 with b
      by_cases hba : b = a
      · subst hba
        rw [if_pos List.mem_cons_self, if_neg hmem, Function.update_self]
      · simp [hba]

section

variable [LinearOrder K] {trackedAccounts existing : Finset AccountId}
  {ops : List (Option (OperationHistory K))}

/-- One more operation. -/
theorem impactingIds_append (a : AccountId) (o : Option (OperationHistory K)) :
    impactingIds a (ops ++ [o]) =
      if Impacts a o then impactingIds a ops ++ [ops.length] else impactingIds a ops := by
  rw [impactingIds, List.findIdxs_append, List.findIdxs_singleton, Nat.zero_add]
  split_ifs
  · rfl
  · exact List.append_nil _

theorem impacts_some {h : OperationHistory K} {impacted : Finset AccountId}
    (himpacted : h.impacted = some impacted) (a : AccountId) :
    Impacts a (some h) = true ↔ a ∈ impacted := by
  rw [Impacts, Option.bind_some, himpacted]
  exact decide_eq_true_iff

/-- There is no more than 32 bits can count. -/
theorem length_impactingIds_le (a : AccountId) (ops more : List (Option (OperationHistory K))) :
    (impactingIds a ops).length ≤ (impactingIds a (ops ++ more)).length := by
  rw [impactingIds, impactingIds, List.length_findIdxs, List.length_findIdxs, List.countP_append]
  exact Nat.le_add_right _ _

/-- Nothing is listed for an account that is not there yet. -/
theorem Basic.impactingIds_eq_nil (h : Basic trackedAccounts existing s ops) {a : AccountId}
    (htracks : Tracks trackedAccounts a) (ha : s.statistics a = none) :
    impactingIds a ops = [] := by
  refine List.findIdxs_eq_nil_iff.2 fun o ho ↦ ?_
  cases o with
  | none => rfl
  | some op =>
    obtain ⟨impacted, himpacted, hcovered⟩ := h.covered op ho
    rw [← Bool.not_eq_true, impacts_some himpacted]
    intro hmem
    have hsome := (h.isSome_iff a).2 (hcovered a hmem htracks)
    rw [ha] at hsome
    cases hsome

/-- What the plugin needs of an operation, on a chain with the accounts `existing`: that the
accounts it impacts can be told, and exist; or, if accounts have been picked, that none of them is
among those. -/
def OpOk (trackedAccounts existing : Finset AccountId) (h : OperationHistory K) : Prop :=
  ∃ impacted, h.impacted = some impacted ∧
    if trackedAccounts = ∅ then impacted ⊆ existing else Disjoint impacted trackedAccounts

/-- The history is in order. -/
structure InOrder (trackedAccounts existing : Finset AccountId) (s : HistoryState K)
    (ops : List (Option (OperationHistory K))) : Prop
    extends Basic trackedAccounts existing s ops where
  /-- The lists of all accounts. -/
  records : trackedAccounts = ∅ → Records s fun a ↦ impactingIds a ops
  /-- The accounts that have been picked have not been impacted. -/
  untouched : ∀ a ∈ trackedAccounts, impactingIds a ops = []

theorem InOrder.faithful (h : InOrder trackedAccounts existing s ops) :
    Faithful trackedAccounts s ops where
  operations := h.operations
  lists a stats htracks hstats := by
    by_cases hall : trackedAccounts = ∅
    · exact ((h.records hall).lists a stats hstats).2
    · have htotal := (h.bounded a stats hstats).2 hall
      refine ⟨[], ?_, ?_, fun e he ↦ absurd he List.not_mem_nil, ?_⟩
      · rw [visited, htotal]
        rfl
      · rw [htotal]
        rfl
      · rw [h.untouched a (htracks.resolve_left hall)]
        rfl

/-- **What one operation does to a history that is in order.** -/
theorem InOrder.addOperation (h : InOrder trackedAccounts existing s ops)
    {o : Option (OperationHistory K)} (hok : ∀ op, o = some op → OpOk trackedAccounts existing op)
    (hlt : trackedAccounts = ∅ → ∀ a, (impactingIds a (ops ++ [o])).length < 2 ^ 32) :
    ∃ s', s.addOperation trackedAccounts o = some s' ∧
      InOrder trackedAccounts existing s' (ops ++ [o]) := by
  cases o with
  | none =>
    have hadd : s.addOperation trackedAccounts none =
        some { s with nextOperationId := s.nextOperationId + 1 } := rfl
    refine ⟨_, hadd, h.toBasic.addOperation hadd, fun hall ↦ ?_, fun a ha ↦ ?_⟩
    · have hids : (fun a ↦ impactingIds a (ops ++ [none])) = fun a ↦ impactingIds a ops :=
        funext fun a ↦ impactingIds_append a none
      rw [hids]
      exact (h.records hall).congr rfl rfl rfl
    · rw [impactingIds_append]
      exact h.untouched a ha
  | some op =>
    obtain ⟨impacted, himpacted, hok⟩ := hok op rfl
    have himpacts := impacts_some himpacted
    by_cases hall : trackedAccounts = ∅
    · rw [if_pos hall] at hok
      have hrecords : Records (s.recorded op) fun a ↦ impactingIds a ops :=
        (h.records hall).congr rfl rfl rfl
      obtain ⟨s', hfold, hrecords'⟩ := hrecords.addHistories (k := s.nextOperationId)
        (Finset.sort_nodup impacted (· ≤ ·))
        (fun a ha ↦ (h.isSome_iff a).2 (hok ((Finset.mem_sort _).1 ha)))
        (fun a _ hmem ↦ by
          have hlt := List.lt_add_of_mem_findIdxs _ hmem
          rw [h.nextOperationId_eq, Nat.add_zero] at hlt
          exact lt_irrefl _ hlt)
        (fun a ha ↦ by
          have hlength := hlt hall a
          rw [impactingIds_append, if_pos ((himpacts a).2 ((Finset.mem_sort _).1 ha)),
            List.length_append] at hlength
          exact hlength)
      have hadd : s.addOperation trackedAccounts (some op) = some s' := by
        rw [addOperation_some, himpacted, Option.bind_some, if_pos hall]
        exact hfold
      refine ⟨s', hadd, h.toBasic.addOperation hadd, fun _ ↦ ?_, fun a ha ↦ ?_⟩
      · convert hrecords' using 2 with a
        rw [impactingIds_append, h.nextOperationId_eq]
        simp only [himpacts, Finset.mem_sort]
      · rw [hall] at ha
        exact absurd ha (Finset.notMem_empty a)
    · rw [if_neg hall] at hok
      have hnone : (trackedAccounts.sort (· ≤ ·)).filter (· ∈ impacted) = [] := by
        refine List.filter_eq_nil_iff.2 fun a ha hmem ↦ ?_
        exact Finset.disjoint_left.1 hok (of_decide_eq_true hmem) ((Finset.mem_sort _).1 ha)
      have hadd : s.addOperation trackedAccounts (some op) = some (s.recorded op) := by
        rw [addOperation_some, himpacted, Option.bind_some, if_neg hall, hnone]
        rfl
      refine ⟨_, hadd, h.toBasic.addOperation hadd, fun h' ↦ absurd h' hall, fun a ha ↦ ?_⟩
      rw [impactingIds_append, if_neg]
      · exact h.untouched a ha
      · rw [himpacts]
        exact fun hmem ↦ Finset.disjoint_left.1 hok hmem ha

theorem InOrder.createAccounts (h : InOrder trackedAccounts existing s ops)
    (created : Finset AccountId) :
    InOrder trackedAccounts (existing ∪ created) (s.createAccounts created) ops where
  toBasic := h.toBasic.createAccounts created
  records hall := by
    have hrecords := h.records hall
    refine ⟨hrecords.visits, hrecords.fresh, hrecords.keys, fun a stats hstats ↦ ?_⟩
    simp only [HistoryState.createAccounts] at hstats
    split at hstats
    case h_1 stats' hs =>
      obtain rfl := Option.some_inj.1 hstats
      obtain ⟨htotal, entries, hlists⟩ := hrecords.lists a stats' hs
      exact ⟨htotal, entries, hlists.mono fun _ _ hi ↦ hi⟩
    case h_2 hs =>
      split_ifs at hstats
      obtain rfl := Option.some_inj.1 hstats
      rw [h.impactingIds_eq_nil (Or.inl hall) hs]
      exact ⟨rfl, [], ⟨rfl, rfl, fun e he ↦ absurd he List.not_mem_nil, rfl⟩⟩
  untouched := h.untouched

theorem InOrder.updateAccountHistories (h : InOrder trackedAccounts existing s ops)
    {hist : List (Option (OperationHistory K))}
    (hok : ∀ op, some op ∈ hist → OpOk trackedAccounts existing op)
    (hlt : trackedAccounts = ∅ → ∀ a, (impactingIds a (ops ++ hist)).length < 2 ^ 32) :
    ∃ s', s.updateAccountHistories trackedAccounts hist = some s' ∧
      InOrder trackedAccounts existing s' (ops ++ hist) := by
  induction hist generalizing s ops with
  | nil => exact ⟨s, rfl, by rwa [List.append_nil]⟩
  | cons o hist ih =>
    have happend : ops ++ o :: hist = ops ++ [o] ++ hist := by rw [List.append_assoc]; rfl
    rw [happend] at hlt ⊢
    obtain ⟨s₁, hadd, h₁⟩ := h.addOperation
      (fun op hop ↦ hok op (hop ▸ List.mem_cons_self))
      (fun hall a ↦ (length_impactingIds_le a _ hist).trans_lt (hlt hall a))
    obtain ⟨s', hrest, h'⟩ := ih h₁ (fun op hop ↦ hok op (List.mem_cons_of_mem _ hop)) hlt
    refine ⟨s', ?_, h'⟩
    rw [HistoryState.updateAccountHistories, List.foldlM_cons, hadd]
    exact hrest

/-! ## Chains -/

/-- The operations that are applied in blocks. -/
def opsOf (blocks : List (AppliedBlock K)) : List (Option (OperationHistory K)) :=
  blocks.flatMap AppliedBlock.applied

/-- The accounts there are after blocks, beginning with `accounts`. -/
def existingAfter (accounts : Finset AccountId) (blocks : List (AppliedBlock K)) :
    Finset AccountId :=
  blocks.foldl (fun existing b ↦ existing ∪ b.created) accounts

/-- The plugin makes none of the blocks fail, and after each of them the history is what it should
be. -/
def HistoryHolds (trackedAccounts accounts : Finset AccountId) (blocks : List (AppliedBlock K)) :
    Prop :=
  ∀ bs, bs <+: blocks → ∃ s, applied (applyBlock trackedAccounts) (start accounts) bs = some s ∧
    Faithful trackedAccounts s (opsOf bs)

/-- What the plugin needs of blocks: that every operation is one it can list for accounts that exist
when it runs, and no account is impacted by more operations than 32 bits can count; or, if accounts
have been picked, that none of them is impacted. -/
structure HistoryOk (trackedAccounts accounts : Finset AccountId)
    (blocks : List (AppliedBlock K)) : Prop where
  /-- The operations. -/
  ops : ∀ before b after, blocks = before ++ b :: after → ∀ op, some op ∈ b.applied →
    OpOk trackedAccounts (existingAfter accounts (before ++ [b])) op
  /-- Their number. -/
  count : trackedAccounts = ∅ → ∀ a, (impactingIds a (opsOf blocks)).length < 2 ^ 32

variable {accounts : Finset AccountId} {blocks : List (AppliedBlock K)}

theorem applied_concat (b : AppliedBlock K) :
    applied (applyBlock trackedAccounts) s (blocks ++ [b]) =
      (applied (applyBlock trackedAccounts) s blocks).bind (applyBlock trackedAccounts · b) := by
  rw [applied, List.foldlM_append]
  exact congrArg _ (funext fun _ ↦ Option.bind_fun_some _)

omit [LinearOrder K] in
theorem existingAfter_concat (b : AppliedBlock K) :
    existingAfter accounts (blocks ++ [b]) = existingAfter accounts blocks ∪ b.created := by
  rw [existingAfter, List.foldl_append]
  rfl

omit [LinearOrder K] in
theorem opsOf_concat (b : AppliedBlock K) : opsOf (blocks ++ [b]) = opsOf blocks ++ b.applied := by
  rw [opsOf, List.flatMap_append, List.flatMap_singleton]
  rfl

/-- What is true after any blocks that have been applied. -/
theorem basic_of_applied
    (h : applied (applyBlock trackedAccounts) (start accounts) blocks = some s) :
    Basic trackedAccounts (existingAfter accounts blocks) s (opsOf blocks) := by
  induction blocks using List.reverseRecOn generalizing s with
  | nil =>
    obtain rfl := Option.some_inj.1 h
    exact basic_start accounts
  | append_singleton bs b ih =>
    rw [applied_concat] at h
    obtain ⟨s₁, h₁, hblock⟩ := Option.bind_eq_some_iff.1 h
    rw [existingAfter_concat, opsOf_concat]
    exact ((ih h₁).createAccounts b.created).updateAccountHistories hblock

theorem HistoryOk.of_append {more : List (AppliedBlock K)}
    (h : HistoryOk trackedAccounts accounts (blocks ++ more)) :
    HistoryOk trackedAccounts accounts blocks where
  ops := by
    rintro before b after rfl
    exact h.ops before b (after ++ more) (by rw [List.append_assoc]; rfl)
  count hall a := by
    refine (length_impactingIds_le a (opsOf blocks) (opsOf more)).trans_lt ?_
    rw [opsOf, opsOf, ← List.flatMap_append]
    exact h.count hall a

/-- **Blocks that are such as the plugin needs them** keep the history in order. -/
theorem HistoryOk.inOrder (h : HistoryOk trackedAccounts accounts blocks) :
    ∃ s, applied (applyBlock trackedAccounts) (start accounts) blocks = some s ∧
      InOrder trackedAccounts (existingAfter accounts blocks) s (opsOf blocks) := by
  induction blocks using List.reverseRecOn with
  | nil =>
    refine ⟨start accounts, rfl, basic_start accounts, fun _ ↦ ?_, fun _ _ ↦ rfl⟩
    refine ⟨⟨List.nodup_nil, fun i e ↦ ?_⟩, fun i e he ↦ ?_, fun i e he ↦ ?_,
      fun a stats hstats ↦ ?_⟩
    · exact iff_of_false List.not_mem_nil (by rintro ⟨⟩)
    · cases he
    · cases he
    · simp only [start] at hstats
      split_ifs at hstats
      obtain rfl := Option.some_inj.1 hstats
      exact ⟨rfl, [], ⟨rfl, rfl, fun e he ↦ absurd he List.not_mem_nil, rfl⟩⟩
  | append_singleton bs b ih =>
    obtain ⟨s₁, h₁, horder⟩ := ih h.of_append
    have hops := h.ops bs b [] rfl
    have hcount := h.count
    rw [existingAfter_concat] at hops
    rw [opsOf_concat] at hcount
    obtain ⟨s', hupdate, horder'⟩ :=
      (horder.createAccounts b.created).updateAccountHistories hops hcount
    refine ⟨s', ?_, ?_⟩
    · rw [applied_concat, h₁]
      exact hupdate
    · rw [existingAfter_concat, opsOf_concat]
      exact horder'

/-- As many operations impacted a tracked account as its statistics say. -/
theorem Faithful.length_eq (h : Faithful trackedAccounts s ops) {a : AccountId}
    {stats : HistoryStatistics} (htracks : Tracks trackedAccounts a)
    (hstats : s.statistics a = some stats) : (impactingIds a ops).length = stats.totalOps := by
  obtain ⟨entries, hlists⟩ := h.lists a stats htracks hstats
  have hids := congrArg List.length hlists.operationId_eq
  rw [List.length_map, List.length_reverse, LinkedList.length_of_follow hlists.visited_eq] at hids
  exact hids.symm

/-- **Accounts that have been picked are not impacted**, if the history is what it should be: their
statistics say so. -/
theorem Basic.not_impacted (h : Basic trackedAccounts existing s ops)
    (hfaithful : Faithful trackedAccounts s ops) (hall : trackedAccounts ≠ ∅)
    {op : OperationHistory K} (hop : some op ∈ ops) {impacted : Finset AccountId}
    (himpacted : op.impacted = some impacted) : Disjoint impacted trackedAccounts := by
  refine Finset.disjoint_left.2 fun a ha htracked ↦ ?_
  obtain ⟨impacted', himpacted', hcovered⟩ := h.covered op hop
  obtain rfl := Option.some_inj.1 (himpacted.symm.trans himpacted')
  have htracks : Tracks trackedAccounts a := Or.inr htracked
  obtain ⟨stats, hstats⟩ := Option.isSome_iff_exists.1 ((h.isSome_iff a).2 (hcovered a ha htracks))
  have hlength := hfaithful.length_eq htracks hstats
  rw [(h.bounded a stats hstats).2 hall] at hlength
  have himpacts := List.findIdxs_eq_nil_iff.1 (List.length_eq_zero_iff.1 hlength) _ hop
  rw [(impacts_some himpacted a).2 ha] at himpacts
  cases himpacts

/-- **The account history is faithful exactly if** every operation that is applied impacts accounts
that exist, fewer than `2 ^ 32` for each account; and, where accounts have been picked, only as long
as none of them is impacted by anything. -/
theorem account_history_iff (trackedAccounts accounts : Finset AccountId)
    (blocks : List (AppliedBlock K)) :
    HistoryHolds trackedAccounts accounts blocks ↔ HistoryOk trackedAccounts accounts blocks := by
  constructor
  · intro h
    refine ⟨fun before b after hblocks op hop ↦ ?_, fun hall a ↦ ?_⟩
    · obtain ⟨s, happlied, hfaithful⟩ := h (before ++ [b]) ⟨after, by rw [hblocks]; simp⟩
      have hbasic := basic_of_applied happlied
      have hmem : some op ∈ opsOf (before ++ [b]) := by
        rw [opsOf_concat]
        exact List.mem_append_right _ hop
      obtain ⟨impacted, himpacted, hcovered⟩ := hbasic.covered op hmem
      refine ⟨impacted, himpacted, ?_⟩
      split_ifs with hall
      · exact fun a ha ↦ hcovered a ha (Or.inl hall)
      · exact hbasic.not_impacted hfaithful hall hmem himpacted
    · obtain ⟨s, happlied, hfaithful⟩ := h blocks (List.prefix_refl _)
      have hbasic := basic_of_applied happlied
      cases hstats : s.statistics a with
      | none =>
        rw [hbasic.impactingIds_eq_nil (Or.inl hall) hstats]
        decide
      | some stats =>
        rw [hfaithful.length_eq (Or.inl hall) hstats]
        exact (hbasic.bounded a stats hstats).1
  · rintro h bs ⟨more, rfl⟩
    obtain ⟨s, happlied, horder⟩ := h.of_append.inOrder
    exact ⟨s, happlied, horder.faithful⟩

end

/-! ## Where it is not -/

/-- An account proposes a transfer from an account there is not. -/
def proposal : AppliedBlock ℕ where
  created := ∅
  applied := [some ⟨.proposalCreate 7 0 100 none [.other (.transfer 1000 7)],
    .objectId ⟨⟨1, 10⟩, 0⟩, 1, 0, 0, 0⟩]

/-- Both accounts are impacted. -/
theorem proposal_impacted (h : OperationHistory ℕ) (hop : some h ∈ proposal.applied) :
    h.impacted = some {1000, 7} := by
  obtain rfl := Option.some_inj.1 (List.mem_singleton.1 hop)
  decide +kernel

/-- An account that is tracked makes two transfers. -/
def transfers : AppliedBlock ℕ where
  created := ∅
  applied := [some ⟨.other (.transfer 7 8), .void, 1, 0, 0, 0⟩,
    some ⟨.other (.transfer 7 9), .void, 1, 1, 0, 1⟩]

/-- **The plugin makes a block fail**: one with a proposal that names an account there is not; and,
for an account that has been picked, one with two operations, whose entries have the same keys. -/
theorem history_stops_chain :
    ¬ HistoryHolds ∅ (Finset.range 10) [proposal] ∧
      ¬ HistoryHolds {7} (Finset.range 10) [transfers] := by
  constructor
  · intro h
    obtain ⟨s, happlied, -⟩ := h [proposal] (List.prefix_refl _)
    obtain ⟨impacted, himpacted, hcovered⟩ :=
      (basic_of_applied happlied).covered _ (List.mem_singleton_self _)
    obtain rfl : {1000, 7} = impacted := Option.some_inj.1
      ((proposal_impacted _ (List.mem_singleton_self _)).symm.trans himpacted)
    have hmissing : (1000 : AccountId) ∉ existingAfter (Finset.range 10) [proposal] := by
      decide +kernel
    exact hmissing (hcovered 1000 (by decide) (Or.inl rfl))
  · intro h
    obtain ⟨s, happlied, -⟩ := h [transfers] (List.prefix_refl _)
    have hnone : (applied (applyBlock {7}) (start (Finset.range 10)) [transfers]).isNone =
        true := by
      decide +kernel
    rw [happlied] at hnone
    cases hnone

end HistoryState

end Graphene
