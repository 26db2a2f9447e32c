import Graphene.Lib.OrderedIndex
import Graphene.Lib.Transitions
import Graphene.Market.Prices
import Mathlib.Data.Prod.Lex

/-!
# The market history

After each block a plugin goes through the orders that were filled in it.  Each fill is put at the
front of its market's history, which is cut off behind 200 of them, and into a bucket of each of the
sizes that are tracked.  All markets share one index.

* `updateMarketHistories` — the plugin; `Fault` — what ends it.
* `KeepsNewest` — the history of each market is its last fills, numbered without a gap.
* `KeepsNewest.endDereferenced_iff` — when the plugin reads the end of the index.
* `KeepsNewest.processHistory` — one fill, if it does not.
-/

set_option autoImplicit false

namespace Graphene.MarketHistory

open Transitions

/-! ## The objects -/

/-- `fill_order_operation`.  No amount that is filled is negative. -/
structure FillOrder where
  /-- `order_id`. -/
  orderId : ℕ
  /-- `account_id`. -/
  accountId : ℕ
  /-- `pays`. -/
  pays : Asset
  /-- `receives`. -/
  receives : Asset
  /-- `fee`. -/
  fee : Asset
  /-- It is not negative. -/
  pays_nonneg : 0 ≤ pays.amount
  /-- It is not negative. -/
  receives_nonneg : 0 ≤ receives.amount

/-- The market: the two assets, the lower one first. -/
def FillOrder.market (o : FillOrder) : AssetId × AssetId :=
  if o.receives.assetId < o.pays.assetId then (o.receives.assetId, o.pays.assetId)
  else (o.pays.assetId, o.receives.assetId)

/-- `history_key`. -/
structure HistoryKey where
  /-- `base`. -/
  base : AssetId
  /-- `quote`. -/
  quote : AssetId
  /-- `sequence`. -/
  sequence : ℤ

/-- What histories are sorted by. -/
def HistoryKey.orderKey (k : HistoryKey) : ℕ ×ₗ ℕ ×ₗ ℤ :=
  toLex (k.base, toLex (k.quote, k.sequence))

/-- `order_history_object`. -/
structure OrderHistory where
  /-- `key`. -/
  key : HistoryKey
  /-- `time`. -/
  time : ℕ
  /-- `op`. -/
  op : FillOrder

/-- The market that an entry is of. -/
def OrderHistory.market (h : OrderHistory) : AssetId × AssetId := (h.key.base, h.key.quote)

/-- `history_index`. -/
abbrev HistoryIndex := OrderedIndex fun h : OrderHistory ↦ h.key.orderKey

/-- `bucket_key`. -/
structure BucketKey where
  /-- `base`. -/
  base : AssetId
  /-- `quote`. -/
  quote : AssetId
  /-- `seconds`. -/
  seconds : ℕ
  /-- `open`. -/
  openTime : ℕ
deriving DecidableEq

/-- What buckets are sorted by. -/
def BucketKey.orderKey (k : BucketKey) : ℕ ×ₗ ℕ ×ₗ ℕ ×ₗ ℕ :=
  toLex (k.base, toLex (k.quote, toLex (k.seconds, k.openTime)))

/-- `bucket_object`. -/
structure Bucket where
  /-- `key`. -/
  key : BucketKey
  /-- `high_base`. -/
  highBase : ℤ
  /-- `high_quote`. -/
  highQuote : ℤ
  /-- `low_base`. -/
  lowBase : ℤ
  /-- `low_quote`. -/
  lowQuote : ℤ
  /-- `open_base`. -/
  openBase : ℤ
  /-- `open_quote`. -/
  openQuote : ℤ
  /-- `close_base`. -/
  closeBase : ℤ
  /-- `close_quote`. -/
  closeQuote : ℤ
  /-- `base_volume`. -/
  baseVolume : ℤ
  /-- `quote_volume`. -/
  quoteVolume : ℤ

/-- `bucket_index`. -/
abbrev BucketIndex := OrderedIndex fun b : Bucket ↦ b.key.orderKey

/-- The indexes of the plugin. -/
structure Indexes where
  /-- `history_index`. -/
  history : HistoryIndex
  /-- `bucket_index`. -/
  buckets : BucketIndex

/-- How the plugin is configured. -/
structure Plugin where
  /-- `_tracked_buckets`, a `flat_set`. -/
  trackedBuckets : List ℕ
  /-- It is sorted. -/
  sorted : trackedBuckets.Pairwise (· < ·)
  /-- `_maximum_history_per_bucket_size`. -/
  maximumHistoryPerBucketSize : ℕ

/-- What ends the plugin. -/
inductive Fault where
  /-- The end of an index is dereferenced. -/
  | endDereferenced
  /-- A time is divided by zero. -/
  | divisionByZero
  /-- An `int64_t` overflows. -/
  | signedOverflow
  /-- An exception is thrown: the block is not applied. -/
  | thrown
deriving DecidableEq

/-! ## The history -/

/-- What an iterator points to. -/
def deref {α : Type} (itr : Option α) : Except Fault α := orThrow itr .endDereferenced

/-- A result of type `int64_t`. -/
def int64 (x : ℤ) : Except Fault ℤ := if FitsInt64 x then .ok x else .error .signedOverflow

/-- The number of a fill, from what is found where its market starts. -/
def nextSequence (base quote : AssetId) (itr : OrderHistory) : Except Fault ℤ :=
  if itr.key.base = base ∧ itr.key.quote = quote then int64 (itr.key.sequence - 1) else .ok 0

/-- The first part of `operation_process_fill_order::operator()`: the history. -/
def processHistory (time : ℕ) (o : FillOrder) (history : HistoryIndex) :
    Except Fault HistoryIndex := do
  let base := o.market.1
  let quote := o.market.2
  let itr ← deref (history.lowerBound (HistoryKey.orderKey ⟨base, quote, -2 ^ 63⟩))
  let sequence ← nextSequence base quote itr
  let history ← orThrow (history.insert ⟨⟨base, quote, sequence⟩, time, o⟩) .thrown
  let sequence ← int64 (sequence + 200)
  return history.removeFrom (HistoryKey.orderKey ⟨base, quote, sequence⟩)
    fun h ↦ h.key.base = base ∧ h.key.quote = quote

/-! ## Buckets -/

namespace Bucket

/-- `high`. -/
def high (b : Bucket) : Option Price :=
  (Asset.mk b.highBase b.key.base).dividedBy ⟨b.highQuote, b.key.quote⟩

/-- `low`. -/
def low (b : Bucket) : Option Price :=
  (Asset.mk b.lowBase b.key.base).dividedBy ⟨b.lowQuote, b.key.quote⟩

/-- A new bucket. -/
def create (key : BucketKey) (tradePrice : Price) : Bucket where
  key := key
  highBase := tradePrice.base.amount
  highQuote := tradePrice.quote.amount
  lowBase := tradePrice.base.amount
  lowQuote := tradePrice.quote.amount
  openBase := tradePrice.base.amount
  openQuote := tradePrice.quote.amount
  closeBase := tradePrice.base.amount
  closeQuote := tradePrice.quote.amount
  baseVolume := tradePrice.base.amount
  quoteVolume := tradePrice.quote.amount

/-- A fill of a bucket that is there. -/
def update (b : Bucket) (tradePrice : Price) : Option Bucket := do
  let baseVolume ← shareType (b.baseVolume + tradePrice.base.amount)
  let quoteVolume ← shareType (b.quoteVolume + tradePrice.quote.amount)
  let high ← b.high
  let low ← b.low
  let higher := high.less tradePrice
  let lower := !low.lessEq tradePrice
  return { b with
    baseVolume := baseVolume
    quoteVolume := quoteVolume
    closeBase := tradePrice.base.amount
    closeQuote := tradePrice.quote.amount
    highBase := if higher then tradePrice.base.amount else b.highBase
    highQuote := if higher then tradePrice.quote.amount else b.highQuote
    lowBase := if lower then tradePrice.base.amount else b.lowBase
    lowQuote := if lower then tradePrice.quote.amount else b.lowQuote }

end Bucket

/-- `cutoff`: seconds since the epoch.  The product is a `uint32_t`. -/
def Plugin.cutoff (plugin : Plugin) (bucket : ℕ) : ℕ :=
  bucket * plugin.maximumHistoryPerBucketSize % 2 ^ 32

/-- The bucket that is created or modified. -/
def fillBucket (key : BucketKey) (tradePrice : Price) (buckets : BucketIndex) :
    Except Fault BucketIndex :=
  match buckets.find key.orderKey with
  | none => orThrow (buckets.insert (.create key tradePrice)) .thrown
  | some b => (orThrow (b.update tradePrice) .thrown).map buckets.replace

/-- The last part of `operation_process_fill_order::operator()`: a bucket of one size. -/
def processBucket (plugin : Plugin) (now : ℕ) (o : FillOrder) (buckets : BucketIndex)
    (bucket : ℕ) : Except Fault BucketIndex :=
  -- there are two fills for each match, of which one is in a bucket
  if o.receives.assetId < o.pays.assetId then .ok buckets
  else do
    let tradePrice ← orThrow (o.pays.dividedBy o.receives) .thrown
    check (bucket ≠ 0) .divisionByZero
    let key : BucketKey := ⟨o.pays.assetId, o.receives.assetId, bucket, now / bucket * bucket⟩
    let buckets ← fillBucket key tradePrice buckets
    return if plugin.maximumHistoryPerBucketSize ≠ 0 then
      buckets.removeFrom { key with openTime := 0 }.orderKey fun b ↦
        b.key.base = key.base ∧ b.key.quote = key.quote ∧ b.key.seconds = bucket ∧
          b.key.openTime < plugin.cutoff bucket
    else buckets

/-! ## The plugin -/

/-- `operation_process_fill_order::operator()` of a fill. -/
def operationProcessFillOrder (plugin : Plugin) (headBlockTime now : ℕ) (t : Indexes)
    (o : FillOrder) : Except Fault Indexes := do
  let history ← processHistory headBlockTime o t.history
  let buckets ← plugin.trackedBuckets.foldlM (processBucket plugin now o) t.buckets
  return ⟨history, buckets⟩

/-- An operation that was applied. -/
inductive Operation where
  /-- `fill_order_operation`. -/
  | fillOrder (o : FillOrder)
  /-- Any other operation. -/
  | other

/-- A block that is applied, with `get_applied_operations`. -/
structure Block where
  /-- `timestamp`, which is `head_block_time` once the block is applied. -/
  timestamp : ℕ
  /-- `get_applied_operations`. -/
  applied : List (Option Operation)

/-- `operation_process_fill_order` of any operation. -/
def visit (plugin : Plugin) (b : Block) (t : Indexes) :
    Option Operation → Except Fault Indexes
  | some (.fillOrder o) => operationProcessFillOrder plugin b.timestamp b.timestamp t o
  | some .other | none => .ok t

/-- `update_market_histories`. -/
def updateMarketHistories (plugin : Plugin) (b : Block) (t : Indexes) : Except Fault Indexes :=
  if plugin.maximumHistoryPerBucketSize = 0 then .ok t
  else if plugin.trackedBuckets.length = 0 then .ok t
  else b.applied.foldlM (visit plugin b) t

/-! ## What the history is -/

/-- A fill, and when it was applied. -/
structure Fill where
  /-- When. -/
  time : ℕ
  /-- The fill. -/
  op : FillOrder

/-- The fills of a market, the oldest first. -/
def fillsOf (log : List Fill) (m : AssetId × AssetId) : List Fill := log.filter (·.op.market = m)

/-- The entries of a market, in the order of the index. -/
def recordsOf (history : HistoryIndex) (m : AssetId × AssetId) : List OrderHistory :=
  history.entries.filter (·.market = m)

/-- Fills as they are stored, numbered without a gap. -/
def numbered (m : AssetId × AssetId) : ℤ → List Fill → List OrderHistory
  | _, [] => []
  | s, f :: l => ⟨⟨m.1, m.2, s⟩, f.time, f.op⟩ :: numbered m (s + 1) l

/-- **What each history is**: the last fills of its market, at most 200 and the newest first,
numbered down from 0. -/
def NewestFirst (log : List Fill) (history : HistoryIndex) : Prop :=
  ∀ m, recordsOf history m =
    numbered m (1 - (fillsOf log m).length) ((fillsOf log m).reverse.take 200)

/-- The same, with numbers of type `int64_t`. -/
structure KeepsNewest (log : List Fill) (history : HistoryIndex) : Prop where
  /-- The histories are the last fills. -/
  newest : NewestFirst log history
  /-- The numbers fit. -/
  fits : ∀ h ∈ history.entries, FitsInt64 h.key.sequence

section Numbered

variable {m : AssetId × AssetId} {s : ℤ} {l : List Fill} {h : OrderHistory}

theorem mem_numbered (hh : h ∈ numbered m s l) : h.market = m ∧ s ≤ h.key.sequence := by
  induction l generalizing s with
  | nil => exact absurd hh List.not_mem_nil
  | cons f l ih =>
    rw [numbered, List.mem_cons] at hh
    rcases hh with rfl | hh
    · exact ⟨rfl, le_rfl⟩
    · obtain ⟨hm, hs⟩ := ih hh
      exact ⟨hm, by omega⟩

/-- Within a market, the index is in the order of the numbers. -/
theorem orderKey_le_iff {k : HistoryKey} (hk : (k.base, k.quote) = m) :
    (HistoryKey.mk m.1 m.2 s).orderKey ≤ k.orderKey ↔ s ≤ k.sequence := by
  subst hk
  simp [HistoryKey.orderKey, Prod.Lex.toLex_le_toLex]

/-- The index is in the order of the markets, and of the numbers within one. -/
theorem orderKey_le {k k' : HistoryKey} (hle : k.orderKey ≤ k'.orderKey) :
    toLex (k.base, k.quote) < toLex (k'.base, k'.quote) ∨
      (k.base, k.quote) = (k'.base, k'.quote) ∧ k.sequence ≤ k'.sequence := by
  simp only [HistoryKey.orderKey, Prod.Lex.toLex_le_toLex, Prod.Lex.toLex_lt_toLex,
    Prod.mk.injEq] at hle ⊢
  tauto

/-- Between two keys of a market there is no other market. -/
theorem market_eq_of_between {k k' k'' : HistoryKey} (hle : k.orderKey ≤ k'.orderKey)
    (hle' : k'.orderKey ≤ k''.orderKey) (hmarket : (k.base, k.quote) = (k''.base, k''.quote)) :
    (k'.base, k'.quote) = (k.base, k.quote) := by
  rcases orderKey_le hle with hlt | ⟨hsame, -⟩
  · rcases orderKey_le hle' with hlt' | ⟨hsame, -⟩
    · exact absurd (hlt.trans hlt') (by rw [hmarket]; exact lt_irrefl _)
    · exact hsame.trans hmarket.symm
  · exact hsame.symm

/-- Cutting a numbered history off at a number is cutting it off behind as many fills. -/
theorem filter_numbered (n : ℕ) :
    (numbered m s l).filter (fun h ↦
      !(decide ((HistoryKey.mk m.1 m.2 (s + n)).orderKey ≤ h.key.orderKey) &&
        decide (h.market = m))) = numbered m s (l.take n) := by
  have hcongr : (numbered m s l).filter (fun h ↦
      !(decide ((HistoryKey.mk m.1 m.2 (s + n)).orderKey ≤ h.key.orderKey) &&
        decide (h.market = m))) = (numbered m s l).filter (·.key.sequence < s + n) := by
    refine List.filter_congr fun h hh ↦ ?_
    have hm := (mem_numbered hh).1
    rw [decide_eq_true hm, Bool.and_true, ← decide_not]
    exact decide_eq_decide.2 (by rw [orderKey_le_iff hm, not_le])
  rw [hcongr]
  clear hcongr
  induction l generalizing s n with
  | nil =>
    rw [List.take_nil]
    rfl
  | cons f l ih =>
    cases n with
    | zero =>
      refine List.filter_eq_nil_iff.2 fun h hh ↦ ?_
      have hs := (mem_numbered hh).2
      simp only [decide_eq_true_iff]
      omega
    | succ n =>
      have hsum : s + (n + 1 : ℕ) = s + 1 + n := by omega
      rw [numbered, List.filter_cons_of_pos (by simp), List.take_succ_cons, numbered,
        ← ih n, hsum]

end Numbered

section History

variable {log : List Fill} {history history' : HistoryIndex} {m : AssetId × AssetId}
  {o : FillOrder} {time : ℕ} {h : OrderHistory}

theorem mem_recordsOf : h ∈ recordsOf history m ↔ h ∈ history.entries ∧ h.market = m := by
  rw [recordsOf, List.mem_filter, decide_eq_true_iff]

theorem mem_fillsOf {f : Fill} : f ∈ fillsOf log m ↔ f ∈ log ∧ f.op.market = m := by
  rw [fillsOf, List.mem_filter, decide_eq_true_iff]

theorem fillsOf_concat (f : Fill) :
    fillsOf (log ++ [f]) m = if f.op.market = m then fillsOf log m ++ [f] else fillsOf log m := by
  rw [fillsOf, List.filter_append]
  split_ifs with hm
  · rw [List.filter_cons_of_pos (by simpa using hm)]
    rfl
  · rw [List.filter_cons_of_neg (by simpa using hm), List.filter_nil, List.append_nil]
    rfl

/-- The newest entry of a market. -/
theorem NewestFirst.exists_newest (hnewest : NewestFirst log history) (hne : fillsOf log m ≠ []) :
    ∃ h ∈ history.entries, h.market = m ∧ h.key.sequence = 1 - (fillsOf log m).length := by
  obtain ⟨f, l, hl⟩ := List.exists_cons_of_ne_nil (List.reverse_ne_nil_iff.2 hne)
  have hrecords := hnewest m
  rw [hl, List.take_succ_cons, numbered] at hrecords
  have hmem := hrecords ▸ List.mem_cons_self
  exact ⟨_, (mem_recordsOf.1 hmem).1, rfl, rfl⟩

/-- An entry is of a market with fills, and no newer than the newest. -/
theorem NewestFirst.le_sequence (hnewest : NewestFirst log history) (hh : h ∈ history.entries) :
    fillsOf log h.market ≠ [] ∧ 1 - ((fillsOf log h.market).length : ℤ) ≤ h.key.sequence := by
  have hmem : h ∈ recordsOf history h.market := mem_recordsOf.2 ⟨hh, rfl⟩
  rw [hnewest h.market] at hmem
  refine ⟨fun hnil ↦ ?_, (mem_numbered hmem).2⟩
  rw [hnil] at hmem
  exact absurd hmem List.not_mem_nil

/-- What the plugin looks for first: the first entry of a market. -/
def firstKey (m : AssetId × AssetId) : ℕ ×ₗ ℕ ×ₗ ℤ := HistoryKey.orderKey ⟨m.1, m.2, -2 ^ 63⟩

theorem lt_firstKey_iff (hfits : FitsInt64 h.key.sequence) :
    h.key.orderKey < firstKey m ↔ toLex h.market < toLex m := by
  have hle : ¬h.key.sequence < -2 ^ 63 := not_lt.2 hfits.1
  simp only [firstKey, HistoryKey.orderKey, OrderHistory.market, Prod.Lex.toLex_lt_toLex, hle,
    and_false, or_false]

/-- **The end of the index is read** exactly if no fill of this market or of a later one came
before. -/
theorem KeepsNewest.lowerBound_eq_none (hkeeps : KeepsNewest log history) :
    history.lowerBound (firstKey m) = none ↔ ∀ f ∈ log, toLex f.op.market < toLex m := by
  rw [OrderedIndex.lowerBound_eq_none]
  constructor
  · intro hall f hf
    obtain ⟨h, hh, hmarket, -⟩ := hkeeps.newest.exists_newest
      (List.ne_nil_of_mem (mem_fillsOf.2 ⟨hf, rfl⟩))
    have hlt := (lt_firstKey_iff (hkeeps.fits h hh)).1 (hall h hh)
    rwa [hmarket] at hlt
  · intro hall h hh
    obtain ⟨f, hf⟩ := List.exists_mem_of_ne_nil _ (hkeeps.newest.le_sequence hh).1
    obtain ⟨hlog, hmarket⟩ := mem_fillsOf.1 hf
    rw [lt_firstKey_iff (hkeeps.fits h hh), ← hmarket]
    exact hall f hlog

/-- **What is found there**: the newest entry of the market, if it has any. -/
theorem KeepsNewest.lowerBound_spec (hkeeps : KeepsNewest log history)
    (hh : history.lowerBound (firstKey m) = some h) :
    (h.market = m ↔ fillsOf log m ≠ []) ∧
      (h.market = m → h.key.sequence = 1 - (fillsOf log m).length) := by
  obtain ⟨hmem, hfirst, hleast⟩ := OrderedIndex.lowerBound_spec hh
  have hnewest (hne : fillsOf log m ≠ []) :
      h.market = m ∧ h.key.sequence ≤ 1 - (fillsOf log m).length := by
    obtain ⟨g, hg, rfl, hsequence⟩ := hkeeps.newest.exists_newest hne
    have hge : firstKey g.market ≤ g.key.orderKey :=
      not_lt.1 fun hlt ↦ lt_irrefl _ ((lt_firstKey_iff (hkeeps.fits g hg)).1 hlt)
    have hle := hleast g hg hge
    rw [← not_lt, lt_firstKey_iff (hkeeps.fits h hmem)] at hfirst
    obtain ⟨hm, hs⟩ := (orderKey_le hle).resolve_left hfirst
    exact ⟨hm, hsequence ▸ hs⟩
  have hmarket (hm : h.market = m) := hm ▸ hkeeps.newest.le_sequence hmem
  refine ⟨⟨fun hm ↦ (hmarket hm).1, fun hne ↦ (hnewest hne).1⟩, fun hm ↦ ?_⟩
  exact le_antisymm (hnewest (hmarket hm).1).2 (hmarket hm).2

/-- How many fills of a market there were is the number of the next one. -/
theorem KeepsNewest.next (hkeeps : KeepsNewest log history)
    (hh : history.lowerBound (firstKey m) = some h) :
    nextSequence m.1 m.2 h = int64 (-(fillsOf log m).length) := by
  obtain ⟨hmarket, hsequence⟩ := hkeeps.lowerBound_spec hh
  have hiff : h.key.base = m.1 ∧ h.key.quote = m.2 ↔ h.market = m := Prod.mk_inj.symm
  rw [nextSequence]
  split_ifs with hm
  · rw [hsequence (hiff.1 hm)]
    congr 1
    omega
  · have hnil := not_not.1 fun hne ↦ hm (hiff.2 (hmarket.2 hne))
    rw [hnil]
    rfl

theorem int64_of_fits {x : ℤ} (hx : FitsInt64 x) : int64 x = .ok x := if_pos hx

/-- **The end of the index is dereferenced** exactly if no fill of this market or of a later one
came before. -/
theorem KeepsNewest.endDereferenced_iff (hkeeps : KeepsNewest log history) :
    processHistory time o history = .error .endDereferenced ↔
      ∀ f ∈ log, toLex f.op.market < toLex o.market := by
  rw [← hkeeps.lowerBound_eq_none, processHistory]
  constructor
  · intro herror
    rcases bind_eq_error.1 herror with hend | ⟨itr, -, herror⟩
    · exact (orThrow_eq_error.1 hend).1
    · have hint (x : ℤ) : int64 x ≠ .error .endDereferenced := by
        rw [int64]
        split_ifs <;> simp
      rcases bind_eq_error.1 herror with hnext | ⟨s, -, herror⟩
      · rw [nextSequence] at hnext
        split_ifs at hnext
        exact absurd hnext (hint _)
      rcases bind_eq_error.1 herror with hinsert | ⟨history₁, -, herror⟩
      · cases (orThrow_eq_error.1 hinsert).2
      rcases bind_eq_error.1 herror with hcut | ⟨cut, -, herror⟩
      · exact absurd hcut (hint _)
      · cases herror
  · intro hend
    exact bind_eq_error.2 (.inl (orThrow_eq_error.2 ⟨hend, rfl⟩))

/-- A new entry, in front of those of its market. -/
theorem KeepsNewest.exists_insert (hkeeps : KeepsNewest log history) (time : ℕ) (o : FillOrder) :
    ∃ history₁, history.insert ⟨⟨o.market.1, o.market.2, -(fillsOf log o.market).length⟩,
      time, o⟩ = some history₁ := by
  refine Option.ne_none_iff_exists'.1 fun hnone ↦ ?_
  obtain ⟨h, hh, hkey⟩ := OrderedIndex.insert_eq_none.1 hnone
  simp only [HistoryKey.orderKey, EmbeddingLike.apply_eq_iff_eq, Prod.mk.injEq] at hkey
  have hle := (hkeeps.newest.le_sequence hh).2
  rw [show h.market = o.market from Prod.ext hkey.1 hkey.2.1] at hle
  omega

/-- The history with a new entry, cut off behind 200. -/
theorem KeepsNewest.added (hkeeps : KeepsNewest log history) {history₁ : HistoryIndex}
    (hfits : FitsInt64 (-(fillsOf log o.market).length))
    (hinsert : history.insert ⟨⟨o.market.1, o.market.2, -(fillsOf log o.market).length⟩,
      time, o⟩ = some history₁) :
    KeepsNewest (log ++ [⟨time, o⟩]) (history₁.removeFrom
      (HistoryKey.orderKey ⟨o.market.1, o.market.2, -(fillsOf log o.market).length + 200⟩)
      fun h ↦ h.key.base = o.market.1 ∧ h.key.quote = o.market.2) where
  newest m := by
    have hiff (h : OrderHistory) :
        h.key.base = o.market.1 ∧ h.key.quote = o.market.2 ↔ h.market = o.market :=
      Prod.mk_inj.symm
    rw [recordsOf, OrderedIndex.removeFrom_entries, List.filter_comm, fillsOf_concat]
    · simp only [hiff]
      by_cases hm : o.market = m
      · subst hm
        rw [if_pos rfl, OrderedIndex.filter_insert hinsert (decide_eq_true rfl)]
        · have hrecords := hkeeps.newest o.market
          rw [recordsOf] at hrecords
          rw [hrecords, List.length_append, List.length_singleton, List.reverse_append,
            List.reverse_singleton, List.singleton_append]
          have hnumber : 1 - ((fillsOf log o.market).length : ℤ) =
              -(fillsOf log o.market).length + 1 := by omega
          have hnext : 1 - (((fillsOf log o.market).length + 1 : ℕ) : ℤ) =
              -(fillsOf log o.market).length := by omega
          rw [hnumber, hnext]
          generalize -((fillsOf log o.market).length : ℤ) = s
          refine (filter_numbered (l := ⟨time, o⟩ :: _) 200).trans ?_
          rw [List.take_succ_cons, List.take_succ_cons, List.take_take]
          rfl
        · intro h hh hmarket
          have hm := of_decide_eq_true hmarket
          have hle := (hkeeps.newest.le_sequence hh).2
          refine lt_of_not_ge fun hge ↦ ?_
          have hs : h.key.sequence ≤ -(fillsOf log o.market).length := by
            rcases orderKey_le hge with hlt | ⟨-, hs⟩
            · exact absurd hlt (by rw [show (_, _) = _ from hm]; exact lt_irrefl _)
            · exact hs
          rw [hm] at hle
          omega
      · rw [if_neg hm, OrderedIndex.filter_insert_of_neg hinsert
          (by rw [decide_eq_true_iff]; exact hm), ← hkeeps.newest m, recordsOf]
        refine List.filter_eq_self.2 fun h hh ↦ ?_
        have hmarket : h.market ≠ o.market := fun heq ↦
          hm (heq.symm.trans (of_decide_eq_true (List.mem_filter.1 hh).2))
        rw [decide_eq_false hmarket, Bool.and_false]
        rfl
    · intro a b hle hlt hb
      simp only [decide_eq_true_iff, hiff] at hb ⊢
      exact market_eq_of_between hle hlt.le hb.symm
  fits h hh := by
    have hmem := (List.mem_append.1 hh).elim
      (fun h ↦ OrderedIndex.mem_entries.2 (.inl h))
      fun h ↦ OrderedIndex.mem_entries.2 (.inr ((List.dropWhile_sublist _).mem h))
    rcases (OrderedIndex.mem_insert hinsert).1 hmem with rfl | hmem
    · exact hfits
    · exact hkeeps.fits h hmem

/-- **One fill**: it is put at the front of its market's history. -/
theorem KeepsNewest.processHistory (hkeeps : KeepsNewest log history) (time : ℕ)
    (hexists : ∃ f ∈ log, ¬toLex f.op.market < toLex o.market)
    (hlength : (fillsOf log o.market).length ≤ 2 ^ 63) :
    ∃ history', MarketHistory.processHistory time o history = .ok history' ∧
      KeepsNewest (log ++ [⟨time, o⟩]) history' := by
  have hitr : history.lowerBound (firstKey o.market) ≠ none := fun hnone ↦ by
    obtain ⟨f, hf, hlt⟩ := hexists
    exact hlt (hkeeps.lowerBound_eq_none.1 hnone f hf)
  obtain ⟨itr, hitr⟩ := Option.ne_none_iff_exists'.1 hitr
  have hfits : FitsInt64 (-(fillsOf log o.market).length) := ⟨by omega, by omega⟩
  have hcut : FitsInt64 (-(fillsOf log o.market).length + 200) := ⟨by omega, by omega⟩
  obtain ⟨history₁, hinsert⟩ := hkeeps.exists_insert time o
  refine ⟨_, ?_, hkeeps.added hfits hinsert⟩
  refine bind_eq_ok.2 ⟨itr, orThrow_eq_ok.2 hitr, ?_⟩
  refine bind_eq_ok.2 ⟨_, (hkeeps.next hitr).trans (int64_of_fits hfits), ?_⟩
  refine bind_eq_ok.2 ⟨history₁, orThrow_eq_ok.2 hinsert, ?_⟩
  exact bind_eq_ok.2 ⟨_, int64_of_fits hcut, rfl⟩

end History

end Graphene.MarketHistory
