import Graphene.Accounts.AccountHistory
import Mathlib.Data.List.Sort
import Mathlib.Data.Prod.Lex

/-!
# Asking for the history of an account

The history of an account can be asked for by the numbers of the operations, which follows its list,
or by its own numbering, which walks the index of all entries backwards.  The wallet asks for one
page after the other.

The index has the entries of one account behind those of another, so the walk can leave the account
that was asked for; and the list loses its oldest entries to a limit, while the numbering does not
begin anew.  What the calls return is therefore described by the part of the history that is served.

* `getAccountHistory`, `getRelativeAccountHistory` — the two calls.
* `walletHistory` — the loop of the wallet.
* `Chained` — what the lists look like from one entry to the next; `Chained.addHistory` — how it is
  kept.
* `served` — what of an account's history can be asked for.
* `account_history_served`, `relative_history_served` — what the calls return.
* `wallet_history_repeats` — when the wallet shows an operation twice.
-/

set_option autoImplicit false

namespace Graphene

open Transitions

namespace HistoryState

variable {K : Type} (s : HistoryState K)

/-! ## The calls -/

/-- The loop of `get_account_history`, from an entry on. -/
def walk (stop limit start : ℕ) :
    ℕ → ℕ → List (ℕ × OperationHistory K) → Option (List (ℕ × OperationHistory K))
  | 0, _, _ => none
  | fuel + 1, node, result => do
    let e ← s.entry node
    if stop < e.operationId ∧ result.length < limit then
      let result ←
        if e.operationId ≤ start then
          (s.operationHistory e.operationId).map fun o ↦ result ++ [(e.operationId, o)]
        else some result
      if e.next = 0 then some result else walk stop limit start fuel e.next result
    else some result

/-- `get_account_history`. -/
def getAccountHistory (fuel : ℕ) (a : AccountId) (stop limit start : ℕ) :
    Option (List (ℕ × OperationHistory K)) := do
  guard (limit ≤ 100)
  let stats ← s.statistics a
  if stats.mostRecentOp = 0 then some []
  else
    let node ← s.entry stats.mostRecentOp
    let start := if start = 0 then node.operationId else start
    s.walk stop limit start fuel stats.mostRecentOp []

/-- The key of `by_seq`. -/
def seqKey (e : AccountTransactionHistory) : AccountId ×ₗ ℕ := toLex (e.account, e.sequence)

/-- The index `by_seq`. -/
def bySeq : List AccountTransactionHistory :=
  (s.accountHistory.map Obj.value).insertionSort fun e e' ↦ seqKey e ≤ seqKey e'

/-- The loop of `get_relative_account_history`, from a position of the index on.  Going back from
the first is not defined. -/
def walkBack (itrStop limit : ℕ) :
    ℕ → List (ℕ × OperationHistory K) → Option (List (ℕ × OperationHistory K))
  | itr, result =>
    if itr ≠ itrStop ∧ result.length < limit then do
      let e ← s.bySeq[itr]?
      let o ← s.operationHistory e.operationId
      match itr with
      | 0 => none
      | itr + 1 => walkBack itrStop limit itr (result ++ [(e.operationId, o)])
    else some result

/-- `get_relative_account_history`. -/
def getRelativeAccountHistory (a : AccountId) (stop limit start : ℕ) :
    Option (List (ℕ × OperationHistory K)) := do
  guard (limit ≤ 100)
  let stats ← s.statistics a
  let start := if start = 0 then stats.totalOps else min stats.totalOps start
  let upperBound := s.bySeq.findIdx fun e ↦ toLex (a, start) < seqKey e
  let lowerBound := s.bySeq.findIdx fun e ↦ toLex (a, stop) ≤ seqKey e
  match upperBound with
  | 0 => none
  | itr + 1 => s.walkBack lowerBound limit itr []

/-- The loop of the wallet's `get_account_history`. -/
def walletPages (fuel : ℕ) (a : AccountId) :
    ℕ → ℤ → List (ℕ × OperationHistory K) → Option (List (ℕ × OperationHistory K))
  | 0, _, _ => none
  | n + 1, limit, result =>
    if 0 < limit then do
      let start := match result.getLast? with
        | some x => x.1 + 1
        | none => 0
      let current ← s.getAccountHistory fuel a 0 (min 100 limit).toNat start
      if current.length < (min 100 limit).toNat then some (result ++ current)
      else walletPages fuel a n (limit - current.length) (result ++ current)
    else some result

/-- `get_account_history` of the wallet. -/
def walletHistory (fuel : ℕ) (a : AccountId) (limit : ℤ) : Option (List (ℕ × OperationHistory K)) :=
  s.walletPages fuel a fuel limit []

variable {s} {s' : HistoryState K} {ids : AccountId → List ℕ}

/-! ## The entries -/

/-- An entry has been created. -/
theorem createEntry_ok (hvisits : Visits s.accountHistory s.entry)
    (hfresh : ∀ i e, s.entry i = some e → i < s.nextAccountHistoryId)
    {e : AccountTransactionHistory} {id : ℕ} (h : s.createEntry e = some (id, s')) :
    id = s.nextAccountHistoryId ∧ s' = s.added e ∧
      s'.entry = Function.update s.entry s.nextAccountHistoryId (some e) ∧
      ∀ i e', s.entry i = some e' → e'.sharesKey e = false := by
  have hkeys : ∀ i e', s.entry i = some e' → e'.sharesKey e = false := by
    intro i e' hi
    rw [← Bool.not_eq_true]
    intro hshares
    rw [createEntry, if_pos] at h
    · cases h
    · exact threw_emplace.2 ⟨⟨i, e'⟩, (hvisits.2 i e').2 hi, .inr hshares⟩
  obtain ⟨hcreate, hentry, -⟩ := createEntry_spec hvisits hfresh hkeys
  obtain ⟨rfl, rfl⟩ := Prod.mk.inj (Option.some.inj (hcreate.symm.trans h))
  exact ⟨rfl, rfl, hentry, hkeys⟩

/-- What the lists of the operations `ids` look like, from one entry to the next. -/
structure Chained (s : HistoryState K) (ids : AccountId → List ℕ) : Prop
    extends Records s ids where
  /-- No two entries of an account have the same number. -/
  unique : ∀ i j e e', s.entry i = some e → s.entry j = some e' → e.account = e'.account →
    e.sequence = e'.sequence → i = j
  /-- The numbers begin with one. -/
  pos : ∀ i e, s.entry i = some e → 0 < e.sequence
  /-- Nothing comes before the first entry of an account. -/
  first_next : ∀ i e, s.entry i = some e → e.sequence = 1 → e.next = 0
  /-- The first entry of all is the first of its account. -/
  zero_first : ∀ e, s.entry 0 = some e → e.sequence = 1
  /-- There are no lists before there is an entry. -/
  new : s.nextAccountHistoryId = 0 → ∀ a stats, s.statistics a = some stats → stats.totalOps = 0
  /-- An account without operations has no entry. -/
  no_recent : ∀ a stats, s.statistics a = some stats → stats.totalOps = 0 → stats.mostRecentOp = 0

theorem Chained.congr (h : Chained s ids) (hstatistics : s'.statistics = s.statistics)
    (hhistory : s'.accountHistory = s.accountHistory)
    (hnext : s'.nextAccountHistoryId = s.nextAccountHistoryId) : Chained s' ids := by
  have hentry : s'.entry = s.entry := by
    funext i
    rw [entry, hhistory]
    rfl
  refine ⟨h.toRecords.congr hstatistics hhistory hnext, ?_, ?_, ?_, ?_, ?_, ?_⟩
  · rw [hentry]
    exact h.unique
  · rw [hentry]
    exact h.pos
  · rw [hentry]
    exact h.first_next
  · rw [hentry]
    exact h.zero_first
  · rw [hstatistics, hnext]
    exact h.new
  · rw [hstatistics]
    exact h.no_recent

/-- **An operation is listed for an account**. -/
theorem Chained.addHistory (h : Chained s ids) {k : ℕ} {a : AccountId}
    (ha : (s.statistics a).isSome) (hnew : k ∉ ids a) (hlt : (ids a).length + 1 < 2 ^ 32) :
    ∃ s', HistoryState.addHistory k s a = some s' ∧
      Chained s' (Function.update ids a (ids a ++ [k])) := by
  obtain ⟨s', hadd, hrecords⟩ := h.toRecords.addHistory ha hnew hlt
  obtain ⟨stats, hstats, hrest⟩ := Option.bind_eq_some_iff.1 hadd
  obtain ⟨⟨id, s₁⟩, hcreate, hs'⟩ := Option.bind_eq_some_iff.1 hrest
  obtain rfl := Option.some.inj hs'
  obtain ⟨rfl, rfl, hentry, hkeys⟩ := createEntry_ok h.visits h.fresh hcreate
  obtain ⟨htotal, -⟩ := h.lists a stats hstats
  have hsequence : (stats.totalOps + 1) % 2 ^ 32 = stats.totalOps + 1 :=
    Nat.mod_eq_of_lt (htotal ▸ hlt)
  rw [hsequence] at hadd hrecords hentry hkeys
  set e : AccountTransactionHistory :=
    { account := a, operationId := k, sequence := stats.totalOps + 1,
      next := stats.mostRecentOp } with he
  -- an entry is the new one, or was there before
  have hcases : ∀ i e', (s.added e).entry i = some e' →
      i = s.nextAccountHistoryId ∧ e' = e ∨ i ≠ s.nextAccountHistoryId ∧ s.entry i = some e' := by
    intro i e' hi
    rw [hentry, Function.update_apply] at hi
    split_ifs at hi with hid
    · exact .inl ⟨hid, (Option.some.inj hi).symm⟩
    · exact .inr ⟨hid, hi⟩
  refine ⟨_, hadd, hrecords, ?_, ?_, ?_, ?_, ?_, ?_⟩
  · intro i j x y hi hj haccount hnumber
    have hnot : ∀ i x, s.entry i = some x → x.account = a → x.sequence ≠ stats.totalOps + 1 := by
      intro i x hx haccount hnumber
      have := hkeys i x hx
      rw [AccountTransactionHistory.sharesKey, decide_eq_false_iff_not] at this
      exact this ⟨haccount, .inl hnumber⟩
    rcases hcases i x hi with ⟨rfl, rfl⟩ | ⟨-, hi'⟩ <;>
      rcases hcases j y hj with ⟨rfl, rfl⟩ | ⟨-, hj'⟩
    · rfl
    · exact absurd hnumber.symm (hnot j y hj' haccount.symm)
    · exact absurd hnumber (hnot i x hi' haccount)
    · exact h.unique i j x y hi' hj' haccount hnumber
  · intro i x hi
    rcases hcases i x hi with ⟨-, rfl⟩ | ⟨-, hi'⟩
    · exact Nat.succ_pos _
    · exact h.pos i x hi'
  · intro i x hi hone
    rcases hcases i x hi with ⟨-, rfl⟩ | ⟨-, hi'⟩
    · exact h.no_recent a stats hstats (Nat.succ.inj hone)
    · exact h.first_next i x hi' hone
  · intro x hx
    rcases hcases 0 x hx with ⟨hzero, rfl⟩ | ⟨-, hx'⟩
    · exact congrArg Nat.succ (h.new hzero.symm a stats hstats)
    · exact h.zero_first x hx'
  · exact fun hzero ↦ absurd hzero (Nat.succ_ne_zero _)
  · intro b statsb hb
    change Function.update s.statistics a _ b = some statsb at hb
    rw [Function.update_apply] at hb
    split_ifs at hb with hba
    · obtain rfl := Option.some.inj hb
      exact fun hzero ↦ absurd hzero (Nat.succ_ne_zero _)
    · exact h.no_recent b statsb hb

/-- The operation is listed for one account after the other. -/
theorem Chained.addHistories (h : Chained s ids) {k : ℕ} {l : List AccountId} (hl : l.Nodup)
    (hexist : ∀ a ∈ l, (s.statistics a).isSome) (hnew : ∀ a ∈ l, k ∉ ids a)
    (hlt : ∀ a ∈ l, (ids a).length + 1 < 2 ^ 32) :
    ∃ s', l.foldlM (HistoryState.addHistory k) s = some s' ∧
      Chained s' fun a ↦ if a ∈ l then ids a ++ [k] else ids a := by
  induction l generalizing s ids with
  | nil => exact ⟨s, rfl, by simpa using h⟩
  | cons a l ih =>
    obtain ⟨hmem, hl⟩ := List.nodup_cons.1 hl
    obtain ⟨s₁, hadd, h₁⟩ := h.addHistory (hexist a List.mem_cons_self)
      (hnew a List.mem_cons_self) (hlt a List.mem_cons_self)
    have hids : ∀ b ∈ l, Function.update ids a (ids a ++ [k]) b = ids b := by
      intro b hb
      refine Function.update_of_ne ?_ _ _
      rintro rfl
      exact hmem hb
    obtain ⟨-, hsame, -⟩ := addHistory_inv hadd
    obtain ⟨s', hfold, h'⟩ := ih h₁ hl
      (fun b hb ↦ (hsame.isSome_eq b).trans (hexist b (List.mem_cons_of_mem _ hb)))
      (fun b hb ↦ (hids b hb).symm ▸ hnew b (List.mem_cons_of_mem _ hb))
      (fun b hb ↦ (hids b hb).symm ▸ hlt b (List.mem_cons_of_mem _ hb))
    refine ⟨s', ?_, ?_⟩
    · rw [List.foldlM_cons, hadd]
      exact hfold
    · convert h' using 2 with b
      by_cases hba : b = a
      · subst hba
        rw [if_pos List.mem_cons_self, if_neg hmem, Function.update_self]
      · simp [hba]

section

variable [LinearOrder K] {existing accounts : Finset AccountId}
  {ops : List (Option (OperationHistory K))} {blocks : List (AppliedBlock K)}

/-- **One operation.** -/
theorem Chained.addOperation (h : Chained s fun a ↦ impactingIds a ops)
    (hbasic : Basic ∅ existing s ops) {o : Option (OperationHistory K)}
    (hok : ∀ op, o = some op → OpOk ∅ existing op)
    (hlt : ∀ a, (impactingIds a (ops ++ [o])).length < 2 ^ 32)
    (hadd : s.addOperation ∅ o = some s') : Chained s' fun a ↦ impactingIds a (ops ++ [o]) := by
  cases o with
  | none =>
    obtain rfl := Option.some.inj hadd
    have hids : (fun a ↦ impactingIds a (ops ++ [none])) = fun a ↦ impactingIds a ops :=
      funext fun a ↦ impactingIds_append a none
    rw [hids]
    exact h.congr rfl rfl rfl
  | some op =>
    obtain ⟨impacted, himpacted, hsubset⟩ := hok op rfl
    rw [if_pos rfl] at hsubset
    have himpacts := impacts_some himpacted
    have hrecorded : Chained (s.recorded op) fun a ↦ impactingIds a ops := h.congr rfl rfl rfl
    obtain ⟨s₁, hfold, hchained⟩ := hrecorded.addHistories (k := s.nextOperationId)
      (Finset.sort_nodup impacted (· ≤ ·))
      (fun a ha ↦ (hbasic.isSome_iff a).2 (hsubset ((Finset.mem_sort _).1 ha)))
      (fun a _ hmem ↦ by
        have hlt := List.lt_add_of_mem_findIdxs _ hmem
        rw [hbasic.nextOperationId_eq, Nat.add_zero] at hlt
        exact lt_irrefl _ hlt)
      (fun a ha ↦ by
        have hlength := hlt a
        rw [impactingIds_append, if_pos ((himpacts a).2 ((Finset.mem_sort _).1 ha)),
          List.length_append] at hlength
        exact hlength)
    rw [addOperation_some, himpacted, Option.bind_some, if_pos rfl] at hadd
    obtain rfl := Option.some.inj (hfold.symm.trans hadd)
    convert hchained using 2 with a
    rw [impactingIds_append, hbasic.nextOperationId_eq]
    simp only [himpacts, Finset.mem_sort]

theorem Chained.updateAccountHistories (h : Chained s fun a ↦ impactingIds a ops)
    (horder : InOrder ∅ existing s ops) {hist : List (Option (OperationHistory K))}
    (hok : ∀ op, some op ∈ hist → OpOk ∅ existing op)
    (hlt : ∀ a, (impactingIds a (ops ++ hist)).length < 2 ^ 32)
    (hupdate : s.updateAccountHistories ∅ hist = some s') :
    Chained s' fun a ↦ impactingIds a (ops ++ hist) := by
  induction hist generalizing s ops with
  | nil =>
    obtain rfl := Option.some.inj hupdate
    simpa using h
  | cons o hist ih =>
    have happend : ops ++ o :: hist = ops ++ [o] ++ hist := by simp
    rw [happend] at hlt ⊢
    rw [HistoryState.updateAccountHistories, List.foldlM_cons] at hupdate
    obtain ⟨s₁, hadd, hrest⟩ := Option.bind_eq_some_iff.1 hupdate
    have hok' : ∀ op, o = some op → OpOk ∅ existing op := fun op hop ↦
      hok op (hop ▸ List.mem_cons_self)
    have hlt' : ∀ a, (impactingIds a (ops ++ [o])).length < 2 ^ 32 := fun a ↦
      (length_impactingIds_le a _ hist).trans_lt (hlt a)
    obtain ⟨s₂, hadd₂, horder₂⟩ := horder.addOperation hok' fun _ ↦ hlt'
    obtain rfl := Option.some.inj (hadd₂.symm.trans hadd)
    exact ih (h.addOperation horder.toBasic hok' hlt' hadd) horder₂
      (fun op hop ↦ hok op (List.mem_cons_of_mem _ hop)) hlt hrest

theorem Chained.createAccounts (h : Chained s fun a ↦ impactingIds a ops)
    (horder : InOrder ∅ existing s ops) (created : Finset AccountId) :
    Chained (s.createAccounts created) fun a ↦ impactingIds a ops := by
  have hstats : ∀ a stats, (s.createAccounts created).statistics a = some stats →
      s.statistics a = some stats ∨ stats = {} := by
    intro a stats hstats
    simp only [HistoryState.createAccounts] at hstats
    split at hstats
    case h_1 stats' hs => exact .inl (hs.trans hstats)
    case h_2 hs =>
      split_ifs at hstats
      exact .inr (Option.some.inj hstats).symm
  refine ⟨(horder.createAccounts created).records rfl, h.unique, h.pos, h.first_next, h.zero_first,
    fun hzero a stats ha ↦ ?_, fun a stats ha ↦ ?_⟩
  · rcases hstats a stats ha with hold | rfl
    · exact h.new hzero a stats hold
    · rfl
  · rcases hstats a stats ha with hold | rfl
    · exact h.no_recent a stats hold
    · exact fun _ ↦ rfl

/-- **The lists after any blocks** that the plugin can follow. -/
theorem HistoryOk.chained (h : HistoryOk ∅ accounts blocks)
    (happlied : applied (applyBlock ∅) (start accounts) blocks = some s) :
    InOrder ∅ (existingAfter accounts blocks) s (opsOf blocks) ∧
      Chained s fun a ↦ impactingIds a (opsOf blocks) := by
  induction blocks using List.reverseRecOn generalizing s with
  | nil =>
    obtain ⟨t, ht, horder⟩ := h.inOrder
    obtain rfl := Option.some.inj (ht.symm.trans happlied)
    obtain rfl := Option.some.inj happlied
    have hstats : ∀ a stats, (start (K := K) accounts).statistics a = some stats → stats = {} := by
      intro a stats ha
      simp only [start] at ha
      split_ifs at ha
      exact (Option.some.inj ha).symm
    have hnone : ∀ i, (start (K := K) accounts).entry i = none := fun _ ↦ rfl
    refine ⟨horder, horder.records rfl, by simp [hnone], by simp [hnone], by simp [hnone],
      by simp [hnone], fun _ a stats ha ↦ ?_, fun a stats ha _ ↦ ?_⟩
    · rw [hstats a stats ha]
    · rw [hstats a stats ha]
  | append_singleton bs b ih =>
    obtain ⟨t, ht, horder⟩ := h.inOrder
    obtain rfl := Option.some.inj (ht.symm.trans happlied)
    refine ⟨horder, ?_⟩
    rw [applied_concat] at happlied
    obtain ⟨s₁, h₁, hblock⟩ := Option.bind_eq_some_iff.1 happlied
    obtain ⟨horder₁, hchained₁⟩ := ih h.of_append h₁
    have hops := h.ops bs b [] rfl
    have hcount := h.count rfl
    rw [existingAfter_concat] at hops
    rw [opsOf_concat] at hcount ⊢
    exact (hchained₁.createAccounts horder₁ b.created).updateAccountHistories
      (horder₁.createAccounts b.created) hops hcount hblock

end

/-- Blocks whose operations all impact accounts of the genesis state, and are few. -/
theorem historyOk_of [LinearOrder K] {accounts : Finset AccountId} {b : AppliedBlock K}
    (hops : ∀ op, some op ∈ b.applied → ∃ impacted, op.impacted = some impacted ∧
      impacted ⊆ accounts) (hcount : b.applied.length < 2 ^ 32) : HistoryOk ∅ accounts [b] where
  ops := by
    intro before b' after hblocks op hop
    obtain ⟨rfl, rfl, rfl⟩ : before = [] ∧ b = b' ∧ after = [] := by
      cases before with
      | nil => simpa using hblocks
      | cons x before => simp at hblocks
    obtain ⟨impacted, himpacted, hsubset⟩ := hops op hop
    refine ⟨impacted, himpacted, ?_⟩
    rw [if_pos rfl]
    exact hsubset.trans Finset.subset_union_left
  count _ a := by
    rw [impactingIds, List.length_findIdxs]
    exact (List.countP_le_length.trans_eq (by simp [opsOf])).trans_lt hcount

/-- An account places so many orders. -/
def orders (n : ℕ) : AppliedBlock ℕ where
  created := ∅
  applied := List.replicate n (some ⟨.other (.limitOrderCreate 7), .void, 1, 0, 0, 0⟩)

theorem orders_ok {n : ℕ} (hn : n < 2 ^ 32) :
    HistoryOk ∅ (Finset.range 10) [orders n] := by
  refine historyOk_of (fun op hop ↦ ⟨{7}, ?_, by decide⟩) (by simpa [orders] using hn)
  obtain rfl := Option.some.inj (List.eq_of_mem_replicate hop)
  decide +kernel

/-! ## By the numbers of the operations -/

/-- The entries from a node on, up to one that has no next. -/
inductive Path (s : HistoryState K) : ℕ → List AccountTransactionHistory → Prop where
  /-- There is no next. -/
  | last {node : ℕ} {e : AccountTransactionHistory} (entry : s.entry node = some e)
    (next : e.next = 0) : Path s node [e]
  /-- There is one. -/
  | next {node : ℕ} {e : AccountTransactionHistory} {es : List AccountTransactionHistory}
    (entry : s.entry node = some e) (next : e.next ≠ 0) (rest : Path s e.next es) :
    Path s node (e :: es)

/-- What the loop returns of the entries `es` that are ahead. -/
structure Returns (s : HistoryState K) (stop limit start : ℕ) (es : List AccountTransactionHistory)
    (r : List (ℕ × OperationHistory K)) : Prop where
  /-- The operations, newest first. -/
  ids : r.map Prod.fst = ((es.map AccountTransactionHistory.operationId).filter
    fun k ↦ stop < k ∧ k ≤ start).take limit
  /-- They come as they are in the history. -/
  objects : ∀ x ∈ r, s.operationHistory x.1 = some x.2

/-- **The loop** returns what is between the bounds. -/
theorem Path.walk_eq {node : ℕ} {es : List AccountTransactionHistory} (h : Path s node es)
    (stop limit start fuel : ℕ) (result : List (ℕ × OperationHistory K))
    (hsorted : (es.map AccountTransactionHistory.operationId).Pairwise (· > ·))
    (hops : ∀ e ∈ es, (s.operationHistory e.operationId).isSome) (hfuel : es.length ≤ fuel) :
    ∃ r, s.walk stop limit start fuel node result = some (result ++ r) ∧
      Returns s stop (limit - result.length) start es r := by
  -- one step, whatever comes of the rest
  have hone {node fuel : ℕ} {e : AccountTransactionHistory} {rest : List AccountTransactionHistory}
      {result : List (ℕ × OperationHistory K)} (hentry : s.entry node = some e)
      (hsorted : ((e :: rest).map AccountTransactionHistory.operationId).Pairwise (· > ·))
      (hop : (s.operationHistory e.operationId).isSome)
      (hrest : ∀ result : List (ℕ × OperationHistory K), ∃ r,
        (if e.next = 0 then some result else s.walk stop limit start fuel e.next result) =
          some (result ++ r) ∧ Returns s stop (limit - result.length) start rest r) :
      ∃ r, s.walk stop limit start (fuel + 1) node result = some (result ++ r) ∧
        Returns s stop (limit - result.length) start (e :: rest) r := by
    obtain ⟨o, ho⟩ := Option.isSome_iff_exists.1 hop
    rw [walk, hentry, Option.bind_eq_bind, Option.bind_some]
    by_cases hgoes : stop < e.operationId ∧ result.length < limit
    · rw [if_pos hgoes]
      by_cases hstart : e.operationId ≤ start
      · obtain ⟨r, hwalk, hreturns⟩ := hrest (result ++ [(e.operationId, o)])
        refine ⟨(e.operationId, o) :: r, ?_, ?_, ?_⟩
        · rw [if_pos hstart, ho]
          simpa using hwalk
        · have hlength : limit - result.length =
              limit - (result ++ [(e.operationId, o)]).length + 1 := by
            simp
            omega
          simp [hgoes.1, hstart, hlength, hreturns.ids]
        · exact List.forall_mem_cons.2 ⟨ho, hreturns.objects⟩
      · obtain ⟨r, hwalk, hreturns⟩ := hrest result
        refine ⟨r, ?_, ?_, hreturns.objects⟩
        · rw [if_neg hstart]
          exact hwalk
        · simp [hstart, hreturns.ids]
    · rw [if_neg hgoes]
      refine ⟨[], by simp, ?_, by simp⟩
      rcases not_and_or.1 hgoes with hstop | hlimit
      · have hnone : ((e :: rest).map AccountTransactionHistory.operationId).filter
            (fun k ↦ stop < k ∧ k ≤ start) = [] := by
          refine List.filter_eq_nil_iff.2 fun k hk ↦ ?_
          have hle : k ≤ e.operationId := by
            rcases List.mem_cons.1 hk with rfl | hk
            · exact le_rfl
            · exact ((List.pairwise_cons.1 hsorted).1 k hk).le
          have : ¬ stop < k := fun hlt ↦ hstop (hlt.trans_le hle)
          simp [this]
        rw [hnone]
        simp
      · simp [Nat.sub_eq_zero_of_le (not_lt.1 hlimit)]
  induction h generalizing fuel result with
  | @last node e hentry hnext =>
    obtain ⟨fuel, rfl⟩ := Nat.exists_eq_add_of_le' hfuel
    refine hone hentry hsorted (hops e (by simp)) fun result ↦ ⟨[], by simp [hnext], ?_, by simp⟩
    simp
  | @next node e es hentry hnext _ ih =>
    obtain ⟨fuel, rfl⟩ : ∃ m, fuel = m + 1 := ⟨fuel - 1, by simp at hfuel; omega⟩
    refine hone hentry hsorted (hops e (by simp)) fun result ↦ ?_
    rw [if_neg hnext]
    exact ih fuel result (List.pairwise_cons.1 hsorted).2
      (fun e' he' ↦ hops e' (List.mem_cons_of_mem _ he')) (by simpa using hfuel)

/-- The first entry of all is the account's. -/
def HoldsFirst (s : HistoryState K) (a : AccountId) : Prop :=
  (s.entry 0).any (fun e ↦ e.account = a) = true

instance (s : HistoryState K) (a : AccountId) : Decidable (HoldsFirst s a) :=
  inferInstanceAs (Decidable (_ = true))

theorem holdsFirst_iff {a : AccountId} :
    HoldsFirst s a ↔ ∃ e, s.entry 0 = some e ∧ e.account = a := by
  simp [HoldsFirst, Option.any_eq_true]

/-- The operations of an account, `ids`, that can be asked for by their numbers: the first entry of
all is taken for none. -/
def served (s : HistoryState K) (a : AccountId) (ids : List ℕ) : List ℕ :=
  if HoldsFirst s a then ids.tail else ids

/-- **The path along a list** is the whole of it, less the first entry of all. -/
theorem Chained.path (h : Chained s ids) {a : AccountId} {n node : ℕ}
    {entries : List AccountTransactionHistory} (hnode : node ≠ 0) (hn : n ≠ 0)
    (hfollow : LinkedList.follow s.entry AccountTransactionHistory.next n node = some entries)
    (hnumbers : entries.map AccountTransactionHistory.sequence = (List.range' 1 n).reverse)
    (haccount : ∀ e ∈ entries, e.account = a) :
    Path s node (if HoldsFirst s a then entries.dropLast else entries) := by
  induction n generalizing node entries with
  | zero => exact absurd rfl hn
  | succ n ih =>
    obtain ⟨e, rest, he, hrest, rfl⟩ := LinkedList.follow_succ_eq_some.1 hfollow
    rw [List.range'_concat, List.reverse_append] at hnumbers
    obtain ⟨hnumber, hnumbers⟩ := List.cons_eq_cons.1 hnumbers
    obtain ⟨hown, haccounts⟩ := List.forall_mem_cons.1 haccount
    cases n with
    | zero =>
      obtain rfl := Option.some.inj hrest
      have hnot : ¬ HoldsFirst s a := by
        intro hfirst
        obtain ⟨e₀, he₀, ha₀⟩ := holdsFirst_iff.1 hfirst
        refine hnode (h.unique node 0 e e₀ he he₀ (hown.trans ha₀.symm) ?_)
        rw [h.zero_first e₀ he₀]
        exact hnumber
      rw [if_neg hnot]
      exact .last he (h.first_next node e he hnumber)
    | succ n =>
      obtain ⟨e', rest', he', hrest', rfl⟩ := LinkedList.follow_succ_eq_some.1 hrest
      by_cases hnext : e.next = 0
      · -- the entry that comes next is the first of all
        rw [hnext] at he'
        have hone := h.zero_first e' he'
        have hlast : 1 + n = e'.sequence := by
          rw [List.range'_concat, List.reverse_append] at hnumbers
          simpa using (List.cons_eq_cons.1 hnumbers).1.symm
        obtain rfl : n = 0 := by omega
        obtain rfl := Option.some.inj hrest'
        rw [if_pos (holdsFirst_iff.2 ⟨e', he', haccounts e' List.mem_cons_self⟩)]
        exact .last he hnext
      · have hpath := ih hnext (Nat.succ_ne_zero n) hrest hnumbers haccounts
        split_ifs at hpath ⊢
        · exact .next he hnext hpath
        · exact .next he hnext hpath

section

variable [LinearOrder K] {accounts : Finset AccountId} {blocks : List (AppliedBlock K)}
  {a : AccountId} {stats : HistoryStatistics}

/-- What is returned comes from the blocks. -/
def FromBlocks (blocks : List (AppliedBlock K)) (r : List (ℕ × OperationHistory K)) : Prop :=
  ∀ x ∈ r, (opsOf blocks)[x.1]? = some (some x.2)

omit [LinearOrder K] in
theorem fromBlocks_of {ops : List (Option (OperationHistory K))}
    (h : ∀ i, s.operationHistory i = ops[i]?.join) {k : ℕ} {o : OperationHistory K}
    (ho : s.operationHistory k = some o) : ops[k]? = some (some o) :=
  Option.join_eq_some_iff.1 ((h k).symm.trans ho)

/-- The operations that impacted an account are in the history. -/
theorem isSome_operationHistory {ops : List (Option (OperationHistory K))}
    (h : ∀ i, s.operationHistory i = ops[i]?.join) {k : ℕ} (hk : k ∈ impactingIds a ops) :
    (s.operationHistory k).isSome := by
  obtain ⟨hlt, himpacts⟩ := List.mem_findIdxs_iff_exists_getElem_pos.1 hk
  rw [h, List.getElem?_eq_getElem hlt, Option.join_some]
  cases hop : ops[k] with
  | none => simp [hop, Impacts] at himpacts
  | some o => rfl

/-- What the call returns where the lists are in order. -/
theorem getAccountHistory_eq {existing : Finset AccountId}
    (horder : InOrder ∅ existing s (opsOf blocks))
    (hchained : Chained s fun a ↦ impactingIds a (opsOf blocks))
    (hstats : s.statistics a = some stats) {fuel : ℕ} (hfuel : stats.totalOps ≤ fuel)
    (stop start : ℕ) {limit : ℕ} (hlimit : limit ≤ 100) :
    ∃ r, s.getAccountHistory fuel a stop limit start = some r ∧ FromBlocks blocks r ∧
      r.map Prod.fst = ((served s a (impactingIds a (opsOf blocks))).reverse.filter
        fun k ↦ stop < k ∧ (start = 0 ∨ k ≤ start)).take limit := by
  obtain ⟨htotal, entries, hlists⟩ := hchained.lists a stats hstats
  have hops : ∀ e ∈ entries, (s.operationHistory e.operationId).isSome := by
    intro e he
    refine isSome_operationHistory horder.operations (a := a) ?_
    rw [← List.mem_reverse, ← hlists.operationId_eq]
    exact List.mem_map_of_mem he
  have hcall : s.getAccountHistory fuel a stop limit start =
      if stats.mostRecentOp = 0 then some []
      else (s.entry stats.mostRecentOp).bind fun node ↦
        s.walk stop limit (if start = 0 then node.operationId else start) fuel
          stats.mostRecentOp [] := by
    simp [getAccountHistory, hlimit, hstats]
  rw [hcall]
  by_cases hrecent : stats.mostRecentOp = 0
  · have hnone : served s a (impactingIds a (opsOf blocks)) = [] := by
      cases hn : stats.totalOps with
      | zero =>
        rw [hn] at htotal
        simp [served, List.eq_nil_of_length_eq_zero htotal.symm]
      | succ n =>
        -- the newest entry is the first of all, and so the account's only one
        have hvisited := hlists.visited_eq
        have hnumbers := hlists.sequence_eq
        rw [visited, hn, hrecent] at hvisited
        obtain ⟨e, rest, he, -, rfl⟩ := LinkedList.follow_succ_eq_some.1 hvisited
        rw [hn, List.range'_concat, List.reverse_append] at hnumbers
        have hnumber : e.sequence = 1 + 1 * n := (List.cons_eq_cons.1 hnumbers).1
        have hone := hchained.zero_first e he
        have hlength : (impactingIds a (opsOf blocks)).length = 1 := by omega
        rw [served, if_pos (holdsFirst_iff.2 ⟨e, he, hlists.account_eq e List.mem_cons_self⟩)]
        exact List.eq_nil_of_length_eq_zero (by simp [hlength])
    rw [if_pos hrecent, hnone]
    exact ⟨[], rfl, by simp [FromBlocks], by simp⟩
  · have hne : stats.totalOps ≠ 0 := fun hzero ↦
      hrecent (hchained.no_recent a stats hstats hzero)
    have hvisited := hlists.visited_eq
    have hlength := LinkedList.length_of_follow hvisited
    have hpath := hchained.path hrecent hne hvisited hlists.sequence_eq hlists.account_eq
    have hids : (if HoldsFirst s a then entries.dropLast else entries).map
        AccountTransactionHistory.operationId =
          (served s a (impactingIds a (opsOf blocks))).reverse := by
      rw [served]
      split_ifs
      · rw [List.map_dropLast, hlists.operationId_eq, List.dropLast_reverse]
      · exact hlists.operationId_eq
    have hsublist : (if HoldsFirst s a then entries.dropLast else entries).Sublist entries := by
      split_ifs
      · exact List.dropLast_sublist _
      · exact .refl _
    have hsorted : (entries.map AccountTransactionHistory.operationId).Pairwise (· > ·) := by
      rw [hlists.operationId_eq]
      exact List.pairwise_reverse.2 List.pairwise_findIdxs
    obtain ⟨n, hn⟩ := Nat.exists_eq_succ_of_ne_zero hne
    rw [visited, hn] at hvisited
    obtain ⟨newest, rest, hnewest, -, hentries⟩ := LinkedList.follow_succ_eq_some.1 hvisited
    rw [if_neg hrecent, hnewest, Option.bind_some]
    obtain ⟨r, hwalk, hreturns⟩ := hpath.walk_eq stop limit
      (if start = 0 then newest.operationId else start) fuel []
      (hsorted.sublist (hsublist.map _)) (fun e he ↦ hops e (hsublist.subset he))
      (hsublist.length_le.trans (hlength.trans_le hfuel))
    refine ⟨r, hwalk, fun x hx ↦ fromBlocks_of horder.operations (hreturns.objects x hx), ?_⟩
    rw [hreturns.ids, hids, List.length_nil, Nat.sub_zero]
    congr 1
    refine List.filter_congr fun k hk ↦ ?_
    rw [← hids] at hk
    have hle : k ≤ newest.operationId := by
      have hmem := (hsublist.map AccountTransactionHistory.operationId).subset hk
      rw [← hentries] at hsorted hmem
      rcases List.mem_cons.1 hmem with rfl | hmem
      · exact le_rfl
      · exact ((List.pairwise_cons.1 hsorted).1 k hmem).le
    split_ifs with hstart <;> simp [hstart, hle]

/-- **What can be asked for by the numbers of operations**: with lower bound `stop`, and with upper
bound `start` unless that is zero, the newest operations that impacted the account, newest first;
but for the very first entry of the history. -/
theorem account_history_served (accounts : Finset AccountId) (blocks : List (AppliedBlock K))
    (s : HistoryState K) (a : AccountId) (stats : HistoryStatistics)
    (fuel stop limit start : ℕ) (h : HistoryOk ∅ accounts blocks)
    (happlied : applied (applyBlock ∅) (HistoryState.start accounts) blocks = some s)
    (hstats : s.statistics a = some stats) (hfuel : stats.totalOps ≤ fuel) (hlimit : limit ≤ 100) :
    ∃ r, s.getAccountHistory fuel a stop limit start = some r ∧ FromBlocks blocks r ∧
      r.map Prod.fst = ((served s a (impactingIds a (opsOf blocks))).reverse.filter
        fun k ↦ stop < k ∧ (start = 0 ∨ k ≤ start)).take limit := by
  obtain ⟨horder, hchained⟩ := h.chained happlied
  exact getAccountHistory_eq horder hchained hstats hfuel stop start hlimit

/-- The second of two orders is returned; the first is the first of all. -/
theorem account_history_served_orders :
    ∃ s, applied (applyBlock ∅) (HistoryState.start (Finset.range 10)) [orders 2] = some s ∧
      ∃ r, s.getAccountHistory 2 7 0 100 0 = some r ∧ FromBlocks [orders 2] r ∧
        r.map Prod.fst = [1] := by
  have hs : ((applied (applyBlock ∅) (HistoryState.start (Finset.range 10)) [orders 2]).bind
      fun s ↦ (s.statistics 7).map fun stats ↦
        (stats.totalOps, served s 7 (impactingIds 7 (opsOf [orders 2])))) = some (2, [1]) := by
    decide +kernel
  obtain ⟨s, happlied, hs⟩ := Option.bind_eq_some_iff.1 hs
  obtain ⟨stats, hstats, hs⟩ := Option.map_eq_some_iff.1 hs
  obtain ⟨htotal, hserved⟩ := Prod.mk.inj hs
  obtain ⟨r, hr, hblocks, hids⟩ := account_history_served (Finset.range 10) [orders 2] s 7 stats
    2 0 100 0 (orders_ok (by decide)) happlied hstats htotal.le (by decide)
  rw [hserved] at hids
  exact ⟨s, happlied, r, hr, hblocks, hids⟩

/-! ## The wallet -/

/-- The operations that the wallet is served, page by page. -/
def Pages (s : HistoryState K) (blocks : List (AppliedBlock K)) (fuel : ℕ) (a : AccountId)
    (l : List ℕ) : Prop :=
  ∀ size start, size ≤ 100 → ∃ current, s.getAccountHistory fuel a 0 size start = some current ∧
    FromBlocks blocks current ∧
    current.map Prod.fst = (l.filter fun k ↦ start = 0 ∨ k ≤ start).take size

variable {fuel : ℕ} {l : List ℕ}

omit [LinearOrder K] in
theorem walletPages_succ {n size start : ℕ} {limit : ℤ}
    {result current : List (ℕ × OperationHistory K)} (hlimit : 0 < limit)
    (hsize : (min 100 limit).toNat = size)
    (hstart : (match result.getLast? with | some x => x.1 + 1 | none => 0) = start)
    (hcurrent : s.getAccountHistory fuel a 0 size start = some current) :
    s.walletPages fuel a (n + 1) limit result =
      if current.length < size then some (result ++ current)
      else s.walletPages fuel a n (limit - current.length) (result ++ current) := by
  rw [walletPages, if_pos hlimit, hsize]
  simp only [hstart, hcurrent, Option.bind_eq_bind, Option.bind_some]

omit [LinearOrder K] in
/-- **The loop ends**, and what it adds begins with a page. -/
theorem Pages.walletPages (h : Pages s blocks fuel a l) (n : ℕ) (limit : ℤ)
    (hn : limit.toNat < n) (result : List (ℕ × OperationHistory K)) :
    ∃ r, s.walletPages fuel a n limit result = some (result ++ r) ∧ FromBlocks blocks r ∧
      (0 < limit → ∀ x ∈ result.getLast?,
        (l.filter (· ≤ x.1 + 1)).take (min 100 limit).toNat <+: r.map Prod.fst) := by
  induction n generalizing limit result with
  | zero => omega
  | succ n ih =>
    by_cases hlimit : 0 < limit
    · obtain ⟨start, hstart⟩ : ∃ start,
          (match result.getLast? with | some x => x.1 + 1 | none => 0) = start := ⟨_, rfl⟩
      obtain ⟨current, hcurrent, hblocks, hids⟩ := h (min 100 limit).toNat start (by omega)
      have hbegins : ∀ x ∈ result.getLast?,
          (l.filter (· ≤ x.1 + 1)).take (min 100 limit).toNat = current.map Prod.fst := by
        intro x hx
        rw [Option.mem_def.1 hx] at hstart
        obtain rfl : x.1 + 1 = start := hstart
        rw [hids]
        simp
      rw [walletPages_succ hlimit rfl hstart hcurrent]
      split_ifs with hshort
      · exact ⟨current, rfl, hblocks, fun _ x hx ↦ by rw [hbegins x hx]⟩
      · obtain ⟨r, hr, hblocks', -⟩ := ih (limit - current.length) (by omega) (result ++ current)
        refine ⟨current ++ r, by rw [hr, List.append_assoc], ?_, fun _ x hx ↦ ?_⟩
        · exact List.forall_mem_append.2 ⟨hblocks, hblocks'⟩
        · rw [hbegins x hx, List.map_append]
          exact List.prefix_append _ _
    · refine ⟨[], ?_, by simp [FromBlocks], fun h' ↦ absurd h' hlimit⟩
      rw [HistoryState.walletPages, if_neg hlimit, List.append_nil]

/-- A page that goes on from the last one repeats something of it. -/
theorem exists_repeated (hsorted : l.Pairwise (· > ·)) (n size : ℕ) (hn : n < l.length)
    (hsize : 0 < size) : ∃ y ∈ l.take (n + 1), y ∈ (l.filter (· ≤ l[n] + 1)).take size := by
  have hlast : l[n] ∈ l.filter (· ≤ l[n] + 1) := by simp
  have hfiltered := hsorted.sublist (List.filter_sublist (p := (· ≤ l[n] + 1)))
  cases hpage : l.filter (· ≤ l[n] + 1) with
  | nil => simp [hpage] at hlast
  | cons y rest =>
    obtain ⟨size, rfl⟩ := Nat.exists_eq_add_of_le' hsize
    have hy : y ∈ l := List.mem_of_mem_filter (hpage ▸ List.mem_cons_self)
    have hle : l[n] ≤ y := by
      rw [hpage] at hlast hfiltered
      rcases List.mem_cons.1 hlast with heq | hmem
      · exact heq.le
      · exact ((List.pairwise_cons.1 hfiltered).1 _ hmem).le
    refine ⟨y, ?_, by simp⟩
    by_contra hnot
    rw [← List.take_append_drop (n + 1) l] at hy hsorted
    have hdrop := (List.mem_append.1 hy).resolve_left hnot
    have hmem : l[n] ∈ l.take (n + 1) := List.mem_take_iff_getElem.2 ⟨n, by omega, rfl⟩
    have hlt := (List.pairwise_append.1 hsorted).2.2 _ hmem _ hdrop
    omega

omit [LinearOrder K] in
/-- **What the wallet shows**: what it should, or some operation twice. -/
theorem Pages.walletHistory (h : Pages s blocks fuel a l) (hsorted : l.Pairwise (· > ·))
    {limit : ℤ} (hfuel : limit.toNat < fuel) :
    ∃ r, s.walletHistory fuel a limit = some r ∧ FromBlocks blocks r ∧
      if limit ≤ 100 ∨ l.length < 100 then r.map Prod.fst = l.take limit.toNat
      else ¬ (r.map Prod.fst).Nodup := by
  obtain ⟨m, rfl⟩ : ∃ m, fuel = m + 1 := ⟨fuel - 1, by omega⟩
  rw [HistoryState.walletHistory]
  by_cases hpos : 0 < limit
  · obtain ⟨size, hsize⟩ : ∃ size, (min 100 limit).toNat = size := ⟨_, rfl⟩
    obtain ⟨current, hcurrent, hblocks, hpage⟩ := h size 0 (by omega)
    have hids : current.map Prod.fst = l.take size := by simpa using hpage
    have hlength : current.length = min size l.length := by
      simpa using congrArg List.length hids
    rw [walletPages_succ hpos hsize rfl hcurrent, List.nil_append]
    by_cases hshort : current.length < size
    · refine ⟨current, if_pos hshort, hblocks, ?_⟩
      rw [if_pos (by omega), hids, List.take_of_length_le (by omega),
        List.take_of_length_le (by omega)]
    · rw [if_neg hshort]
      by_cases hlimit : limit ≤ 100
      · obtain ⟨m, rfl⟩ : ∃ m', m = m' + 1 := ⟨m - 1, by omega⟩
        refine ⟨current, ?_, hblocks, ?_⟩
        · rw [HistoryState.walletPages, if_neg (by omega)]
        · rw [if_pos (.inl hlimit), hids, ← hsize, min_eq_right hlimit]
      · obtain rfl : size = 100 := by omega
        obtain ⟨r, hr, hblocks', hbegins⟩ :=
          h.walletPages m (limit - current.length) (by omega) current
        refine ⟨current ++ r, hr, List.forall_mem_append.2 ⟨hblocks, hblocks'⟩, ?_⟩
        rw [if_neg (by omega), List.map_append]
        intro hnodup
        have hlong : 99 < l.length := by omega
        have hlast : ∃ x ∈ current.getLast?, x.1 = l[99] := by
          have hsome := congrArg List.getLast? hids
          rw [List.getLast?_map, List.getLast?_take, if_neg (by decide),
            List.getElem?_eq_getElem (by omega), Option.some_or] at hsome
          exact Option.map_eq_some_iff.1 hsome
        obtain ⟨x, hx, hx'⟩ := hlast
        obtain ⟨y, hy, hy'⟩ := exists_repeated hsorted 99
          (min 100 (limit - current.length)).toNat (by omega) (by omega)
        have hmem := (hbegins (by omega) x hx).subset (hx' ▸ hy')
        exact List.disjoint_of_nodup_append hnodup (hids ▸ hy) hmem
  · refine ⟨[], by rw [HistoryState.walletPages, if_neg hpos], by simp [FromBlocks], ?_⟩
    rw [if_pos (.inl (by omega)), Int.toNat_of_nonpos (by omega)]
    simp

theorem pairwise_served (s : HistoryState K) (a : AccountId)
    (ops : List (Option (OperationHistory K))) :
    ((served s a (impactingIds a ops)).reverse.filter (0 < ·)).Pairwise (· > ·) := by
  have hsublist : (served s a (impactingIds a ops)).Sublist (impactingIds a ops) := by
    rw [served]
    split_ifs
    · exact List.tail_sublist _
    · exact .refl _
  refine (List.pairwise_reverse.2 ?_).sublist List.filter_sublist
  exact List.pairwise_findIdxs.sublist hsublist

/-- **What the wallet shows**, if it asks for `limit` operations: where there are a hundred or more,
and more than a hundred are asked for, it shows some operation twice; only otherwise does it show
the newest ones. -/
theorem wallet_history_repeats (accounts : Finset AccountId) (blocks : List (AppliedBlock K))
    (s : HistoryState K) (a : AccountId) (stats : HistoryStatistics) (fuel : ℕ) (limit : ℤ)
    (h : HistoryOk ∅ accounts blocks)
    (happlied : applied (applyBlock ∅) (HistoryState.start accounts) blocks = some s)
    (hstats : s.statistics a = some stats) (hfuel : stats.totalOps ≤ fuel)
    (hlimit : limit.toNat < fuel) :
    ∃ r, s.walletHistory fuel a limit = some r ∧ FromBlocks blocks r ∧
      if limit ≤ 100 ∨
          ((served s a (impactingIds a (opsOf blocks))).filter (0 < ·)).length < 100 then
        r.map Prod.fst =
          ((served s a (impactingIds a (opsOf blocks))).reverse.filter (0 < ·)).take limit.toNat
      else ¬ (r.map Prod.fst).Nodup := by
  obtain ⟨horder, hchained⟩ := h.chained happlied
  have hpages : Pages s blocks fuel a
      ((served s a (impactingIds a (opsOf blocks))).reverse.filter (0 < ·)) := by
    intro size start hsize
    obtain ⟨r, hr, hblocks, hids⟩ :=
      getAccountHistory_eq horder hchained hstats hfuel 0 start hsize
    refine ⟨r, hr, hblocks, hids.trans ?_⟩
    rw [List.filter_filter]
    congr 1
    exact List.filter_congr fun k _ ↦ by simp [and_comm]
  have hwallet := hpages.walletHistory (pairwise_served s a _) hlimit
  rwa [List.filter_reverse, List.length_reverse, ← List.filter_reverse] at hwallet

/-- It shows some of a hundred orders twice. -/
theorem wallet_history_repeats_orders :
    ∃ s, applied (applyBlock ∅) (HistoryState.start (Finset.range 10)) [orders 102] = some s ∧
      ∃ r, s.walletHistory 200 7 150 = some r ∧ ¬ (r.map Prod.fst).Nodup := by
  have hs : ((applied (applyBlock ∅) (HistoryState.start (Finset.range 10)) [orders 102]).bind
      fun s ↦ (s.statistics 7).map fun stats ↦
        (stats.totalOps, ((served s 7 (impactingIds 7 (opsOf [orders 102]))).filter
          (0 < ·)).length)) = some (102, 101) := by
    decide +kernel
  obtain ⟨s, happlied, hs⟩ := Option.bind_eq_some_iff.1 hs
  obtain ⟨stats, hstats, hs⟩ := Option.map_eq_some_iff.1 hs
  obtain ⟨htotal, hserved⟩ := Prod.mk.inj hs
  obtain ⟨r, hr, -, hrepeats⟩ := wallet_history_repeats (Finset.range 10) [orders 102] s 7 stats
    200 150 (orders_ok (by decide)) happlied hstats (htotal.trans_le (by decide)) (by decide)
  rw [hserved, if_neg (by decide)] at hrepeats
  exact ⟨s, happlied, r, hr, hrepeats⟩

/-! ## By the account's own numbering -/

omit [LinearOrder K] in
theorem walkBack_step {itrStop limit itr : ℕ} {result : List (ℕ × OperationHistory K)}
    (hgoes : itr + 1 ≠ itrStop) (hlimit : result.length < limit) {e : AccountTransactionHistory}
    (he : s.bySeq[itr + 1]? = some e) {o : OperationHistory K}
    (ho : s.operationHistory e.operationId = some o) :
    s.walkBack itrStop limit (itr + 1) result =
      s.walkBack itrStop limit itr (result ++ [(e.operationId, o)]) := by
  rw [walkBack, if_pos ⟨hgoes, hlimit⟩, he]
  simp [ho]

omit [LinearOrder K] in
theorem walkBack_over {itrStop limit itr : ℕ} {result : List (ℕ × OperationHistory K)}
    (h : itr = itrStop ∨ limit ≤ result.length) :
    s.walkBack itrStop limit itr result = some result := by
  rw [walkBack.eq_def]
  exact if_neg (by omega)

omit [LinearOrder K] in
/-- **The loop** returns what is between two positions. -/
theorem walkBack_eq (hops : ∀ e ∈ s.bySeq, (s.operationHistory e.operationId).isSome)
    (limit : ℕ) {itrStop itr : ℕ} (hle : itrStop ≤ itr) (hlt : itr < s.bySeq.length)
    (result : List (ℕ × OperationHistory K)) :
    ∃ r, s.walkBack itrStop limit itr result = some (result ++ r) ∧
      r.map Prod.fst = ((((s.bySeq.take (itr + 1)).drop (itrStop + 1)).map
        AccountTransactionHistory.operationId).reverse).take (limit - result.length) ∧
      ∀ x ∈ r, s.operationHistory x.1 = some x.2 := by
  induction itr generalizing result with
  | zero =>
    rw [walkBack_over (.inl (by omega))]
    exact ⟨[], by simp, by simp [List.drop_eq_nil_of_le], by simp⟩
  | succ itr ih =>
    by_cases hover : itr + 1 = itrStop ∨ limit ≤ result.length
    · rw [walkBack_over hover]
      refine ⟨[], by simp, ?_, by simp⟩
      rcases hover with hstop | hfull
      · rw [List.drop_eq_nil_of_le (by simp; omega)]
        simp
      · simp [Nat.sub_eq_zero_of_le hfull]
    · obtain ⟨hstop, hlimit⟩ := not_or.1 hover
      obtain ⟨o, ho⟩ := Option.isSome_iff_exists.1 (hops _ (List.getElem_mem hlt))
      obtain ⟨r, hr, hids, hobjects⟩ := ih (by omega) (by omega)
        (result ++ [(s.bySeq[itr + 1].operationId, o)])
      rw [walkBack_step hstop (by omega) (List.getElem?_eq_getElem hlt) ho, hr]
      refine ⟨(s.bySeq[itr + 1].operationId, o) :: r, by simp, ?_,
        List.forall_mem_cons.2 ⟨ho, hobjects⟩⟩
      have hlength : limit - result.length =
          limit - (result ++ [(s.bySeq[itr + 1].operationId, o)]).length + 1 := by
        simp
        omega
      rw [List.take_add_one, List.getElem?_eq_getElem hlt, List.drop_append_of_le_length (by
        simp
        omega), List.map_append, List.reverse_append, List.map_cons, hids, hlength]
      rfl

omit [LinearOrder K] in
theorem seqKey_lt {e e' : AccountTransactionHistory} : seqKey e < seqKey e' ↔
    e.account < e'.account ∨ e.account = e'.account ∧ e.sequence < e'.sequence :=
  Prod.Lex.toLex_lt_toLex

omit [LinearOrder K] in
/-- The index has the entries there are, in order. -/
theorem Chained.bySeq (h : Chained s ids) :
    (∀ e, e ∈ s.bySeq ↔ ∃ i, s.entry i = some e) ∧
      s.bySeq.Pairwise fun e e' ↦ seqKey e < seqKey e' := by
  have hmem : ∀ e, e ∈ s.bySeq ↔ ∃ i, s.entry i = some e := by
    intro e
    rw [HistoryState.bySeq, List.mem_insertionSort, List.mem_map]
    constructor
    · rintro ⟨⟨i, e⟩, hobj, rfl⟩
      exact ⟨i, (h.visits.2 i e).1 hobj⟩
    · rintro ⟨i, hi⟩
      exact ⟨⟨i, e⟩, (h.visits.2 i e).2 hi, rfl⟩
  have hkeys : ∀ e ∈ s.bySeq, ∀ e' ∈ s.bySeq, seqKey e = seqKey e' → e = e' := by
    intro e he e' he' heq
    obtain ⟨i, hi⟩ := (hmem e).1 he
    obtain ⟨j, hj⟩ := (hmem e').1 he'
    obtain ⟨haccount, hnumber⟩ := Prod.mk.inj (toLex.injective heq)
    obtain rfl := h.unique i j e e' hi hj haccount hnumber
    exact Option.some.inj (hi.symm.trans hj)
  have hnodup : s.bySeq.Nodup := by
    rw [HistoryState.bySeq, (List.perm_insertionSort _ _).nodup_iff]
    refine (List.Nodup.of_map _ h.visits.1).map_on ?_
    rintro ⟨i, e⟩ hi ⟨j, e'⟩ hj heq
    obtain rfl : e = e' := heq
    have hij := h.unique i j e e ((h.visits.2 i e).1 hi) ((h.visits.2 j e).1 hj) rfl rfl
    rw [hij]
  have hsorted : s.bySeq.Pairwise fun e e' ↦ seqKey e ≤ seqKey e' := by
    have : Std.Total fun e e' : AccountTransactionHistory ↦ seqKey e ≤ seqKey e' :=
      ⟨fun e e' ↦ le_total _ _⟩
    have : IsTrans AccountTransactionHistory fun e e' ↦ seqKey e ≤ seqKey e' :=
      ⟨fun _ _ _ ↦ le_trans⟩
    exact List.pairwise_insertionSort _ _
  refine ⟨hmem, (hsorted.and hnodup).imp_of_mem fun {e e'} he he' hboth ↦ ?_⟩
  exact lt_of_le_of_ne hboth.1 fun heq ↦ hboth.2 (hkeys e he e' he' heq)

omit [LinearOrder K] in
/-- The list of an account, oldest first, is a part of the index. -/
theorem Chained.exists_parts (h : Chained s ids) {entries : List AccountTransactionHistory}
    (hstats : s.statistics a = some stats) (hlists : s.Lists a stats (ids a) entries) :
    ∃ before after, s.bySeq = before ++ (entries.reverse ++ after) ∧
      (∀ e ∈ before, e.account < a) ∧ ∀ e ∈ after, a < e.account := by
  obtain ⟨hmem, hsorted⟩ := h.bySeq
  have hnumbers : entries.reverse.map AccountTransactionHistory.sequence =
      List.range' 1 stats.totalOps := by
    rw [List.map_reverse, hlists.sequence_eq, List.reverse_reverse]
  have hown : ∀ e, e ∈ entries.reverse ↔ e ∈ s.bySeq ∧ e.account = a := by
    intro e
    rw [hmem]
    constructor
    · intro he
      rw [List.mem_reverse] at he
      exact ⟨LinkedList.exists_of_mem_follow hlists.visited_eq he, hlists.account_eq e he⟩
    · rintro ⟨⟨i, hi⟩, rfl⟩
      obtain ⟨-, hle⟩ := h.keys i e hi
      have hpos := h.pos i e hi
      rw [← (h.lists _ _ hstats).1] at hle
      have hrange : e.sequence ∈ entries.reverse.map AccountTransactionHistory.sequence := by
        rw [hnumbers, List.mem_range'_1]
        omega
      obtain ⟨e', he', hnumber⟩ := List.mem_map.1 hrange
      have hread := List.mem_reverse.1 he'
      obtain ⟨j, hj⟩ := LinkedList.exists_of_mem_follow hlists.visited_eq hread
      obtain rfl := h.unique j i e' e hj hi (hlists.account_eq e' hread) hnumber
      obtain rfl := Option.some.inj (hj.symm.trans hi)
      exact he'
  have hascending : entries.reverse.Pairwise fun e e' ↦ seqKey e < seqKey e' := by
    have hlt := List.pairwise_lt_range' (s := 1) (n := stats.totalOps)
    rw [← hnumbers, List.pairwise_map] at hlt
    refine hlt.imp_of_mem fun {e e'} he he' hlt ↦ seqKey_lt.2 (.inr ⟨?_, hlt⟩)
    exact ((hown e).1 he).2.trans ((hown e').1 he').2.symm
  refine ⟨s.bySeq.filter (·.account < a), s.bySeq.filter (a < ·.account), ?_, by simp, by simp⟩
  have : Std.Irrefl fun e e' : AccountTransactionHistory ↦ seqKey e < seqKey e' :=
    ⟨fun _ ↦ lt_irrefl _⟩
  have : Std.Antisymm fun e e' : AccountTransactionHistory ↦ seqKey e < seqKey e' :=
    ⟨fun _ _ hlt hlt' ↦ absurd (hlt.trans hlt') (lt_irrefl _)⟩
  refine hsorted.eq_of_mem_iff ?_ fun e ↦ ?_
  · rw [List.pairwise_append, List.pairwise_append]
    refine ⟨hsorted.sublist List.filter_sublist, ⟨hascending,
      hsorted.sublist List.filter_sublist, fun e he e' he' ↦ ?_⟩, fun e he e' he' ↦ ?_⟩
    · have := (List.mem_filter.1 he').2
      refine seqKey_lt.2 (.inl ?_)
      rw [((hown e).1 he).2]
      simpa using this
    · have hbefore : e.account < a := by simpa using (List.mem_filter.1 he).2
      refine seqKey_lt.2 (.inl (hbefore.trans_le ?_))
      rcases List.mem_append.1 he' with he' | he'
      · exact ((hown e').1 he').2.ge
      · have : a < e'.account := by simpa using (List.mem_filter.1 he').2
        exact this.le
  · simp only [List.mem_append, List.mem_filter, hown, decide_eq_true_eq]
    constructor
    · intro he
      rcases lt_trichotomy e.account a with hlt | heq | hgt
      · exact .inl ⟨he, hlt⟩
      · exact .inr (.inl ⟨he, heq⟩)
      · exact .inr (.inr ⟨he, hgt⟩)
    · rintro (⟨he, -⟩ | ⟨he, -⟩ | ⟨he, -⟩) <;> exact he

omit [LinearOrder K] in
/-- Where a bound is in a list that is cut there. -/
theorem findIdx_append_of {p : AccountTransactionHistory → Bool}
    {l₁ l₂ : List AccountTransactionHistory} (h₁ : ∀ e ∈ l₁, p e = false)
    (h₂ : ∀ e ∈ l₂, p e = true) : (l₁ ++ l₂).findIdx p = l₁.length := by
  rw [List.findIdx_append, List.findIdx_eq_length_of_false h₁, if_neg (lt_irrefl _)]
  cases l₂ with
  | nil => simp
  | cons e l => simp [List.findIdx_cons, h₂ e]

omit [LinearOrder K] in
/-- **The positions of the bounds**, in an index whose parts are known. -/
theorem bounds_eq {before own after : List AccountTransactionHistory} {n : ℕ}
    (hparts : s.bySeq = before ++ (own ++ after)) (hbefore : ∀ e ∈ before, e.account < a)
    (hafter : ∀ e ∈ after, a < e.account) (hown : ∀ e ∈ own, e.account = a)
    (hnumbers : own.map AccountTransactionHistory.sequence = List.range' 1 n) :
    (∀ start ≤ n, (s.bySeq.findIdx fun e ↦ toLex (a, start) < seqKey e) =
        before.length + start) ∧
      ∀ stop, (s.bySeq.findIdx fun e ↦ toLex (a, stop) ≤ seqKey e) =
        before.length + min (stop - 1) n := by
  have hlength : own.length = n := by simpa using congrArg List.length hnumbers
  have hnumber (i : ℕ) (hi : i < own.length) : own[i].sequence = 1 + i := by
    have hget : (own.map AccountTransactionHistory.sequence)[i]? = (List.range' 1 n)[i]? := by
      rw [hnumbers]
    simpa [hi, hlength ▸ hi] using hget
  have htake : ∀ j, ∀ e ∈ own.take j, e.sequence ≤ j := by
    intro j e he
    obtain ⟨i, hi, rfl⟩ := List.mem_take_iff_getElem.1 he
    rw [hnumber]
    omega
  have hdrop : ∀ j, ∀ e ∈ own.drop j, j < e.sequence := by
    intro j e he
    obtain ⟨i, hi, rfl⟩ := List.mem_drop_iff_getElem.1 he
    rw [hnumber]
    omega
  have hcut (j : ℕ) : s.bySeq = (before ++ own.take j) ++ (own.drop j ++ after) := by
    rw [hparts, List.append_assoc, ← List.append_assoc (own.take j), List.take_append_drop]
  have hlex : ∀ k (e : AccountTransactionHistory), toLex (a, k) < seqKey e ↔
      a < e.account ∨ a = e.account ∧ k < e.sequence := fun k e ↦ Prod.Lex.toLex_lt_toLex
  have hlexle : ∀ k (e : AccountTransactionHistory), toLex (a, k) ≤ seqKey e ↔
      a < e.account ∨ a = e.account ∧ k ≤ e.sequence := fun k e ↦ Prod.Lex.toLex_le_toLex
  constructor
  · intro start hstart
    rw [hcut start, findIdx_append_of, List.length_append, List.length_take, hlength,
      min_eq_left hstart]
    · intro e he
      rw [decide_eq_false_iff_not, hlex]
      rcases List.mem_append.1 he with he | he
      · rintro (hlt | ⟨heq, -⟩)
        · exact lt_asymm hlt (hbefore e he)
        · exact (hbefore e he).ne heq.symm
      · rintro (hlt | ⟨-, hlt⟩)
        · exact hlt.ne (hown e (List.mem_of_mem_take he)).symm
        · exact absurd (htake start e he) (not_le.2 hlt)
    · intro e he
      rw [decide_eq_true_eq, hlex]
      rcases List.mem_append.1 he with he | he
      · exact .inr ⟨(hown e (List.mem_of_mem_drop he)).symm, hdrop start e he⟩
      · exact .inl (hafter e he)
  · intro stop
    rw [hcut (stop - 1), findIdx_append_of, List.length_append, List.length_take, hlength]
    · intro e he
      rw [decide_eq_false_iff_not, hlexle]
      rcases List.mem_append.1 he with he | he
      · rintro (hlt | ⟨heq, -⟩)
        · exact lt_asymm hlt (hbefore e he)
        · exact (hbefore e he).ne heq.symm
      · rintro (hlt | ⟨-, hle⟩)
        · exact hlt.ne (hown e (List.mem_of_mem_take he)).symm
        · obtain ⟨i, hi, rfl⟩ := List.mem_take_iff_getElem.1 he
          rw [hnumber] at hle
          omega
    · intro e he
      rw [decide_eq_true_eq, hlexle]
      rcases List.mem_append.1 he with he | he
      · have := hdrop (stop - 1) e he
        exact .inr ⟨(hown e (List.mem_of_mem_drop he)).symm, by omega⟩
      · exact .inl (hafter e he)

omit [LinearOrder K] in
/-- The loop adds to what it is given. -/
theorem walkBack_extends {itrStop limit itr : ℕ} {result r : List (ℕ × OperationHistory K)}
    (h : s.walkBack itrStop limit itr result = some r) : result <+: r := by
  induction itr generalizing result with
  | zero =>
    rw [walkBack] at h
    split_ifs at h
    · obtain ⟨e, -, h⟩ := Option.bind_eq_some_iff.1 h
      obtain ⟨o, -, h⟩ := Option.bind_eq_some_iff.1 h
      cases h
    · obtain rfl := Option.some.inj h
      exact List.prefix_rfl
  | succ itr ih =>
    rw [walkBack] at h
    split_ifs at h
    · obtain ⟨e, -, h⟩ := Option.bind_eq_some_iff.1 h
      obtain ⟨o, -, h⟩ := Option.bind_eq_some_iff.1 h
      exact (List.prefix_append _ _).trans (ih h)
    · obtain rfl := Option.some.inj h
      exact List.prefix_rfl

/-- The number of the newest operation that is asked for. -/
def newest (ids : List ℕ) (start : ℕ) : ℕ :=
  if start = 0 then ids.length else min ids.length start

omit [LinearOrder K] in
theorem newest_le (ids : List ℕ) (start : ℕ) : newest ids start ≤ ids.length := by
  rw [newest]
  split_ifs <;> simp

omit [LinearOrder K] in
/-- **The call**, as a walk between two positions of the index. -/
theorem Chained.relative_call (h : Chained s ids) (hstats : s.statistics a = some stats) :
    ∃ before own after : List AccountTransactionHistory, s.bySeq = before ++ (own ++ after) ∧
      (∀ e ∈ before, e.account < a) ∧
      own.map AccountTransactionHistory.operationId = ids a ∧
      ∀ stop limit start, limit ≤ 100 → s.getRelativeAccountHistory a stop limit start =
        match before.length + newest (ids a) start with
        | 0 => none
        | itr + 1 =>
          s.walkBack (before.length + min (stop - 1) (ids a).length) limit itr [] := by
  obtain ⟨htotal, entries, hlists⟩ := h.lists a stats hstats
  obtain ⟨before, after, hparts, hbefore, hafter⟩ := h.exists_parts hstats hlists
  have hnumbers : entries.reverse.map AccountTransactionHistory.sequence =
      List.range' 1 stats.totalOps := by
    rw [List.map_reverse, hlists.sequence_eq, List.reverse_reverse]
  obtain ⟨hupper, hlower⟩ := bounds_eq hparts hbefore hafter
    (fun e he ↦ hlists.account_eq e (List.mem_reverse.1 he)) hnumbers
  refine ⟨before, entries.reverse, after, hparts, hbefore, ?_, fun stop limit start hlimit ↦ ?_⟩
  · rw [List.map_reverse, hlists.operationId_eq, List.reverse_reverse]
  · rw [← hupper _ ((newest_le _ start).trans_eq htotal.symm), ← htotal, ← hlower stop]
    simp only [getRelativeAccountHistory, hlimit, hstats, newest, htotal, guard, if_true,
      Option.pure_def, Option.bind_eq_bind, Option.bind_some]
    rfl

theorem Chained.mem_of_mem_bySeq {ops : List (Option (OperationHistory K))}
    (h : Chained s fun a ↦ impactingIds a ops) {e : AccountTransactionHistory}
    (he : e ∈ s.bySeq) : e.operationId ∈ impactingIds e.account ops := by
  obtain ⟨i, hi⟩ := (h.bySeq.1 e).1 he
  exact (h.keys i e hi).1

/-- The operations of an account that has some. -/
theorem getRelativeAccountHistory_eq {existing : Finset AccountId}
    (horder : InOrder ∅ existing s (opsOf blocks))
    (hchained : Chained s fun a ↦ impactingIds a (opsOf blocks))
    (hstats : s.statistics a = some stats) {stop limit start : ℕ} (hlimit : limit ≤ 100)
    (hne : impactingIds a (opsOf blocks) ≠ [])
    (hstop : stop ≤ newest (impactingIds a (opsOf blocks)) start) :
    ∃ r, s.getRelativeAccountHistory a stop limit start = some r ∧ FromBlocks blocks r ∧
      r.map Prod.fst = ((((impactingIds a (opsOf blocks)).take
        (newest (impactingIds a (opsOf blocks)) start)).drop (max stop 1)).reverse).take limit := by
  obtain ⟨before, own, after, hparts, -, hids, hcall⟩ := hchained.relative_call hstats
  have hle := newest_le (impactingIds a (opsOf blocks)) start
  have hpos : 0 < newest (impactingIds a (opsOf blocks)) start := by
    have hlength := List.length_pos_iff.2 hne
    rw [newest]
    split_ifs <;> omega
  obtain ⟨t, ht⟩ := Nat.exists_eq_add_of_le' hpos
  have hlength : own.length = (impactingIds a (opsOf blocks)).length := by
    rw [← hids, List.length_map]
  obtain ⟨r, hr, hreturned, hobjects⟩ := walkBack_eq
    (fun e he ↦ isSome_operationHistory horder.operations (hchained.mem_of_mem_bySeq he)) limit
    (show before.length + (stop - 1) ≤ before.length + t by omega) (by
      rw [hparts, List.length_append, List.length_append, hlength]
      omega) []
  refine ⟨r, ?_, fun x hx ↦ fromBlocks_of horder.operations (hobjects x hx), ?_⟩
  · rw [hcall stop limit start hlimit, ht, min_eq_left (by omega)]
    exact hr
  · have hcut : (s.bySeq.take (before.length + t + 1)).drop (before.length + (stop - 1) + 1) =
        (own.take (newest (impactingIds a (opsOf blocks)) start)).drop (max stop 1) := by
      rw [hparts, add_assoc, add_assoc, List.take_length_add_append,
        List.drop_length_add_append, List.take_append_of_le_length (by omega), ← ht,
        show stop - 1 + 1 = max stop 1 by omega]
    rw [hreturned, hcut, List.map_drop, List.map_take, hids, List.length_nil, Nat.sub_zero]

/-- What is returned for an account that has none. -/
theorem getRelativeAccountHistory_of_nil
    (hchained : Chained s fun a ↦ impactingIds a (opsOf blocks))
    (hstats : s.statistics a = some stats) {stop limit start : ℕ} (hlimit : limit ≤ 100)
    (hnone : impactingIds a (opsOf blocks) = []) (hpos : 0 < limit)
    {r : List (ℕ × OperationHistory K)}
    (hr : s.getRelativeAccountHistory a stop limit start = some r) :
    ∃ b ≠ a, ∃ x ∈ r, x.1 ∈ impactingIds b (opsOf blocks) := by
  obtain ⟨before, own, after, hparts, hbefore, -, hcall⟩ := hchained.relative_call hstats
  have hzero : newest (impactingIds a (opsOf blocks)) start = 0 := by simp [newest, hnone]
  rw [hcall stop limit start hlimit, hzero, hnone, List.length_nil, Nat.min_zero,
    Nat.add_zero] at hr
  cases hbefores : before.length with
  | zero =>
    rw [hbefores] at hr
    cases hr
  | succ p =>
    -- the walk starts at the last entry of the accounts before
    have hlt : p < s.bySeq.length := by
      rw [hparts, List.length_append]
      omega
    have hlast : s.bySeq[p] ∈ before := by
      have hp : p < before.length := by omega
      have hget : s.bySeq[p] = before[p] := by
        simp only [hparts]
        exact List.getElem_append_left (by omega)
      rw [hget]
      exact List.getElem_mem _
    rw [hbefores] at hr
    dsimp only at hr
    rw [walkBack.eq_def] at hr
    dsimp only at hr
    rw [if_pos ⟨by omega, hpos⟩, List.getElem?_eq_getElem hlt] at hr
    obtain ⟨e, he, hr⟩ := Option.bind_eq_some_iff.1 hr
    obtain rfl := Option.some.inj he
    obtain ⟨o, -, hr⟩ := Option.bind_eq_some_iff.1 hr
    cases p with
    | zero => cases hr
    | succ p =>
      refine ⟨s.bySeq[p + 1].account, (hbefore _ hlast).ne, (s.bySeq[p + 1].operationId, o), ?_,
        hchained.mem_of_mem_bySeq (List.getElem_mem _)⟩
      exact (walkBack_extends hr).subset (by simp)

/-- **What can be asked for by an account's own numbering**: the newest operations, newest first, up
to number `start`, or to the last if that is zero or not as many, and down to `stop`, which is left
out, as the first operation always is.  This is so as long as `stop` is not above where the walk
begins: else the walk never meets the place where it should end.  For an account without operations
the call is not defined, or returns one of another account. -/
theorem relative_history_served (accounts : Finset AccountId) (blocks : List (AppliedBlock K))
    (s : HistoryState K) (a : AccountId) (stats : HistoryStatistics) (stop limit start : ℕ)
    (h : HistoryOk ∅ accounts blocks)
    (happlied : applied (applyBlock ∅) (HistoryState.start accounts) blocks = some s)
    (hstats : s.statistics a = some stats) (hlimit : limit ≤ 100) :
    (impactingIds a (opsOf blocks) ≠ [] →
      stop ≤ newest (impactingIds a (opsOf blocks)) start →
      ∃ r, s.getRelativeAccountHistory a stop limit start = some r ∧ FromBlocks blocks r ∧
        r.map Prod.fst = ((((impactingIds a (opsOf blocks)).take
          (newest (impactingIds a (opsOf blocks)) start)).drop (max stop 1)).reverse).take
            limit) ∧
      (impactingIds a (opsOf blocks) = [] → 0 < limit →
        ∀ r, s.getRelativeAccountHistory a stop limit start = some r →
          ∃ b ≠ a, ∃ x ∈ r, x.1 ∈ impactingIds b (opsOf blocks)) := by
  obtain ⟨horder, hchained⟩ := h.chained happlied
  constructor
  · intro hne hstop
    exact getRelativeAccountHistory_eq horder hchained hstats hlimit hne hstop
  · intro hnone hpos r hr
    exact getRelativeAccountHistory_of_nil hchained hstats hlimit hnone hpos hr

/-- Of three orders the newest two are returned. -/
theorem relative_history_served_orders :
    ∃ s, applied (applyBlock ∅) (HistoryState.start (Finset.range 10)) [orders 3] = some s ∧
      ∃ r, s.getRelativeAccountHistory 7 0 100 0 = some r ∧ FromBlocks [orders 3] r ∧
        r.map Prod.fst = [2, 1] := by
  have hs : ((applied (applyBlock ∅) (HistoryState.start (Finset.range 10)) [orders 3]).bind
      fun s ↦ s.statistics 7).isSome := by
    decide +kernel
  obtain ⟨stats, hs⟩ := Option.isSome_iff_exists.1 hs
  obtain ⟨s, happlied, hstats⟩ := Option.bind_eq_some_iff.1 hs
  have hids : impactingIds 7 (opsOf [orders 3]) = [0, 1, 2] := by decide +kernel
  obtain ⟨r, hr, hblocks, hreturned⟩ := (relative_history_served (Finset.range 10) [orders 3] s 7
    stats 0 100 0 (orders_ok (by decide)) happlied hstats (by decide)).1 (by simp [hids])
      (Nat.zero_le _)
  rw [hids] at hreturned
  exact ⟨s, happlied, r, hr, hblocks, hreturned⟩

/-- An account without operations is shown one of another. -/
example : (((applied (applyBlock ∅) (HistoryState.start (Finset.range 10)) [orders 3]).bind
    fun s ↦ s.getRelativeAccountHistory 9 0 1 0).map fun r ↦ r.map Prod.fst) = some [2] := by
  decide +kernel

end

end HistoryState

end Graphene
