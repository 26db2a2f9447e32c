import Graphene.Market.MarketHistory
import Mathlib.Algebra.BigOperators.Group.List.Basic
import Mathlib.Algebra.Order.Ring.Int
import Mathlib.Data.List.Dedup
import Mathlib.Data.List.Perm.Basic

/-!
# The buckets of the market history

A bucket sums up the fills of a market in a window of time.  It is removed if its window opened
before the cutoff, which does not depend on the time: `bucket * max_history` seconds after the
epoch.

The plugin goes through the index of the buckets, from the first of a market and a size on, and does
not look first whether that is the end of the index.  So besides what a bucket sums up, the
invariant says which buckets there are, as only that tells when the end is read.

* `Summarises` — a bucket has the prices and the volumes of its fills.
* `KeepsSize` — the buckets of one size are those of its windows from the cutoff on;
  `KeepsSize.processBucket` — one fill.
* `market_history` — what the plugin keeps after every block, and when it reads the end of an index.
* `market_history_fails` — the first fill of all, and more buckets than there may be.
-/

set_option autoImplicit false

namespace Graphene.MarketHistory

open Transitions

/-! ## Prices -/

/-- What is paid and received. -/
def Fill.amounts (f : Fill) : ℤ × ℤ := (f.op.pays.amount, f.op.receives.amount)

theorem Fill.amounts_nonneg (f : Fill) : 0 ≤ f.amounts := ⟨f.op.pays_nonneg, f.op.receives_nonneg⟩

/-- A ratio is less than another, multiplied across. -/
def Below (x y : ℤ × ℤ) : Prop := y.2 * x.1 < x.2 * y.1

instance (x y : ℤ × ℤ) : Decidable (Below x y) := inferInstanceAs (Decidable (_ < _))

section Below

variable {x y z : ℤ × ℤ}

/-- A ratio of two zeros is not between others, so that this needs no amount to be positive. -/
theorem Below.trans (hx : 0 ≤ x) (hy : 0 ≤ y) (hz : 0 ≤ z) (hxy : Below x y) (hyz : Below y z) :
    Below x z := by
  have hx₂ : 0 < x.2 := lt_of_le_of_ne hx.2 fun h ↦ by
    rw [Below, ← h] at hxy
    exact absurd hxy (by simpa using mul_nonneg hy.2 hx.1)
  have hy₂ : 0 < y.2 := lt_of_le_of_ne hy.2 fun h ↦ by
    rw [Below, ← h] at hyz
    exact absurd hyz (by simpa using mul_nonneg hz.2 hy.1)
  refine lt_of_mul_lt_mul_left ?_ hy.2
  calc y.2 * (z.2 * x.1) = z.2 * (y.2 * x.1) := mul_left_comm _ _ _
    _ ≤ z.2 * (x.2 * y.1) := mul_le_mul_of_nonneg_left (le_of_lt hxy) hz.2
    _ = x.2 * (z.2 * y.1) := mul_left_comm _ _ _
    _ < x.2 * (y.2 * z.1) := mul_lt_mul_of_pos_left hyz hx₂
    _ = y.2 * (x.2 * z.1) := mul_left_comm _ _ _

theorem not_below_self (x : ℤ × ℤ) : ¬Below x x := lt_irrefl _

/-- The comparisons of prices of two assets. -/
theorem less_iff_below (x y : ℤ × ℤ) (i j : AssetId) :
    Price.less ⟨⟨x.1, i⟩, ⟨x.2, j⟩⟩ ⟨⟨y.1, i⟩, ⟨y.2, j⟩⟩ = true ↔ Below x y := by
  simp [Price.less, Below]

theorem not_lessEq_iff_below (x y : ℤ × ℤ) (i j : AssetId) :
    (!Price.lessEq ⟨⟨x.1, i⟩, ⟨x.2, j⟩⟩ ⟨⟨y.1, i⟩, ⟨y.2, j⟩⟩) = true ↔ Below y x := by
  rw [Bool.not_eq_true', Price.lessEq, Bool.or_eq_false_iff, Bool.eq_false_iff, Bool.eq_false_iff,
    ne_eq, ne_eq, less_iff_below, Below, Below, not_lt]
  have hequal : Price.equal ⟨⟨x.1, i⟩, ⟨x.2, j⟩⟩ ⟨⟨y.1, i⟩, ⟨y.2, j⟩⟩ = true ↔
      y.2 * x.1 = x.2 * y.1 := by
    simp [Price.equal]
  rw [hequal, and_comm, lt_iff_le_and_ne, ne_comm]

end Below

/-! ## Windows -/

/-- Whether a fill is in the window of a bucket. -/
def InWindow (k : BucketKey) (f : Fill) : Prop :=
  f.op.pays.assetId = k.base ∧ f.op.receives.assetId = k.quote ∧
    f.time / k.seconds * k.seconds = k.openTime

instance (k : BucketKey) (f : Fill) : Decidable (InWindow k f) :=
  inferInstanceAs (Decidable (_ ∧ _ ∧ _))

/-- The fills in the window of a bucket, the oldest first. -/
def window (k : BucketKey) (log : List Fill) : List Fill := log.filter (InWindow k ·)

/-- **What a bucket is**: it has the prices and the volumes of these fills. -/
structure Summarises (b : Bucket) (l : List Fill) : Prop where
  /-- It opens with the first. -/
  opens : l.head?.map Fill.amounts = some (b.openBase, b.openQuote)
  /-- It closes with the last. -/
  closes : l.getLast?.map Fill.amounts = some (b.closeBase, b.closeQuote)
  /-- The high is the price of a fill. -/
  high : ∃ f ∈ l, f.amounts = (b.highBase, b.highQuote)
  /-- No price is above the high. -/
  highest : ∀ f ∈ l, ¬Below (b.highBase, b.highQuote) f.amounts
  /-- The low is the price of a fill. -/
  low : ∃ f ∈ l, f.amounts = (b.lowBase, b.lowQuote)
  /-- No price is below the low. -/
  lowest : ∀ f ∈ l, ¬Below f.amounts (b.lowBase, b.lowQuote)
  /-- All that is paid. -/
  baseVolume : b.baseVolume = (l.map (·.op.pays.amount)).sum
  /-- All that is received. -/
  quoteVolume : b.quoteVolume = (l.map (·.op.receives.amount)).sum

section Bucket

variable {b b' : Bucket} {k : BucketKey} {f : Fill} {l : List Fill}

/-- The price of a fill. -/
def Fill.price (f : Fill) : Price := ⟨f.op.pays, f.op.receives⟩

theorem summarises_create : Summarises (.create k f.price) [f] where
  opens := rfl
  closes := rfl
  high := ⟨f, List.mem_singleton_self f, rfl⟩
  highest g hg := by
    rw [List.mem_singleton.1 hg]
    exact not_below_self _
  low := ⟨f, List.mem_singleton_self f, rfl⟩
  lowest g hg := by
    rw [List.mem_singleton.1 hg]
    exact not_below_self _
  baseVolume := (List.sum_singleton).symm
  quoteVolume := (List.sum_singleton).symm

theorem eq_of_shareType {x y : ℤ} (h : shareType x = some y) : y = x := by
  rw [shareType] at h
  split_ifs at h
  exact (Option.some_inj.1 h).symm

theorem key_update {p : Price} (h : b.update p = some b') : b'.key = b.key := by
  simp only [Bucket.update, Option.bind_eq_bind, Option.bind_eq_some_iff, Option.pure_def,
    Option.some_inj] at h
  obtain ⟨_, -, _, -, _, -, _, -, rfl⟩ := h
  rfl

/-- What a fill does to a bucket. -/
theorem update_spec (h : b.update f.price = some b') (hbase : f.op.pays.assetId = b.key.base)
    (hquote : f.op.receives.assetId = b.key.quote) :
    (b'.openBase, b'.openQuote) = (b.openBase, b.openQuote) ∧
      (b'.closeBase, b'.closeQuote) = f.amounts ∧
      (b'.highBase, b'.highQuote) =
        (if Below (b.highBase, b.highQuote) f.amounts then f.amounts
          else (b.highBase, b.highQuote)) ∧
      (b'.lowBase, b'.lowQuote) =
        (if Below f.amounts (b.lowBase, b.lowQuote) then f.amounts else (b.lowBase, b.lowQuote)) ∧
      b'.baseVolume = b.baseVolume + f.op.pays.amount ∧
      b'.quoteVolume = b.quoteVolume + f.op.receives.amount := by
  simp only [Bucket.update, Option.bind_eq_bind, Option.bind_eq_some_iff, Option.pure_def,
    Option.some_inj] at h
  obtain ⟨baseVolume, hbaseVolume, quoteVolume, hquoteVolume, high, hhigh, low, hlow, rfl⟩ := h
  obtain ⟨-, rfl⟩ := Asset.dividedBy_eq_some.1 hhigh
  obtain ⟨-, rfl⟩ := Asset.dividedBy_eq_some.1 hlow
  have hbelow := less_iff_below (b.highBase, b.highQuote) f.amounts b.key.base b.key.quote
  have habove := not_lessEq_iff_below (b.lowBase, b.lowQuote) f.amounts b.key.base b.key.quote
  have hprice : f.price = ⟨⟨f.amounts.1, b.key.base⟩, ⟨f.amounts.2, b.key.quote⟩⟩ := by
    rw [← hbase, ← hquote]
    rfl
  rw [← hprice] at hbelow habove
  refine ⟨rfl, rfl, ?_, ?_, eq_of_shareType hbaseVolume, eq_of_shareType hquoteVolume⟩
  · simp only [hbelow]
    split_ifs <;> rfl
  · simp only [habove]
    split_ifs <;> rfl

/-- **A bucket that is filled** sums up one more fill. -/
theorem Summarises.update (hb : Summarises b l) (h : b.update f.price = some b')
    (hbase : f.op.pays.assetId = b.key.base) (hquote : f.op.receives.assetId = b.key.quote) :
    Summarises b' (l ++ [f]) := by
  obtain ⟨hopen, hclose, hhigh, hlow, hbaseVolume, hquoteVolume⟩ := update_spec h hbase hquote
  obtain ⟨g, hg, hghigh⟩ := hb.high
  obtain ⟨g', hg', hglow⟩ := hb.low
  have hhighest : ∀ x ∈ l, ¬Below g.amounts x.amounts := fun x hx ↦ hghigh ▸ hb.highest x hx
  have hlowest : ∀ x ∈ l, ¬Below x.amounts g'.amounts := fun x hx ↦ hglow ▸ hb.lowest x hx
  rw [← hghigh] at hhigh
  rw [← hglow] at hlow
  exact
    { opens := by
        rw [hopen, ← hb.opens, List.head?_append]
        cases hl : l.head? with
        | none =>
          have hopens := hb.opens
          rw [hl] at hopens
          cases hopens
        | some x => rfl
      closes := by
        rw [hclose, List.getLast?_concat]
        rfl
      high := by
        rw [hhigh]
        split_ifs
        · exact ⟨f, by simp, rfl⟩
        · exact ⟨g, by simp [hg], rfl⟩
      highest := by
        rw [hhigh]
        intro x hx
        split_ifs with hbelow
        · rcases List.mem_append.1 hx with hx | hx
          · exact fun hfx ↦ hhighest x hx (hbelow.trans g.amounts_nonneg f.amounts_nonneg
              x.amounts_nonneg hfx)
          · rw [List.mem_singleton.1 hx]
            exact not_below_self _
        · rcases List.mem_append.1 hx with hx | hx
          · exact hhighest x hx
          · rwa [List.mem_singleton.1 hx]
      low := by
        rw [hlow]
        split_ifs
        · exact ⟨f, by simp, rfl⟩
        · exact ⟨g', by simp [hg'], rfl⟩
      lowest := by
        rw [hlow]
        intro x hx
        split_ifs with hbelow
        · rcases List.mem_append.1 hx with hx | hx
          · exact fun hxf ↦ hlowest x hx (hxf.trans x.amounts_nonneg f.amounts_nonneg
              g'.amounts_nonneg hbelow)
          · rw [List.mem_singleton.1 hx]
            exact not_below_self _
        · rcases List.mem_append.1 hx with hx | hx
          · exact hlowest x hx
          · rwa [List.mem_singleton.1 hx]
      baseVolume := by
        rw [hbaseVolume, hb.baseVolume, List.map_append, List.sum_append]
        simp
      quoteVolume := by
        rw [hquoteVolume, hb.quoteVolume, List.map_append, List.sum_append]
        simp }

end Bucket

/-! ## The order of buckets -/

theorem BucketKey.orderKey_inj {k k' : BucketKey} : k.orderKey = k'.orderKey ↔ k = k' := by
  obtain ⟨base, quote, seconds, openTime⟩ := k
  obtain ⟨base', quote', seconds', openTime'⟩ := k'
  simp [BucketKey.orderKey]

/-- Buckets of one market and one size. -/
def BucketKey.SameSize (k k' : BucketKey) : Prop :=
  k.base = k'.base ∧ k.quote = k'.quote ∧ k.seconds = k'.seconds

/-- Between two buckets of a market and a size there are only such buckets, in the order of their
windows. -/
theorem sameSize_of_between {k k' k'' : BucketKey} (hle : k.orderKey ≤ k'.orderKey)
    (hle' : k'.orderKey ≤ k''.orderKey) (hsame : k''.SameSize k) :
    k'.SameSize k ∧ k'.openTime ≤ k''.openTime := by
  obtain ⟨hbase, hquote, hseconds⟩ := hsame
  simp only [BucketKey.orderKey, Prod.Lex.toLex_le_toLex] at hle hle'
  rw [hbase, hquote, hseconds] at hle'
  rw [BucketKey.SameSize]
  grind

theorem orderKey_le_of_sameSize {k k' : BucketKey} (hsame : k'.SameSize k)
    (hle : k.openTime ≤ k'.openTime) : k.orderKey ≤ k'.orderKey := by
  obtain ⟨hbase, hquote, hseconds⟩ := hsame
  simp [BucketKey.orderKey, Prod.Lex.toLex_le_toLex, hbase, hquote, hseconds, hle]

/-! ## The buckets of a size -/

/-- **What the buckets of one size are**: those of its windows that opened from the cutoff on. -/
structure KeepsSize (plugin : Plugin) (log : List Fill) (buckets : BucketIndex) (s : ℕ) : Prop where
  /-- Each of them sums up the fills of its window. -/
  summarises : ∀ b ∈ buckets.entries, b.key.seconds = s →
    b.key.base ≤ b.key.quote ∧ plugin.cutoff s ≤ b.key.openTime ∧
      Summarises b (window b.key log)
  /-- There is one for each window with fills. -/
  stored : ∀ k : BucketKey, k.seconds = s → k.base ≤ k.quote → window k log ≠ [] →
    plugin.cutoff s ≤ k.openTime → ∃ b ∈ buckets.entries, b.key = k

section Process

variable {plugin : Plugin} {log : List Fill} {buckets buckets' : BucketIndex} {s now : ℕ}
  {o : FillOrder} {key : BucketKey} {p : Price} {b : Bucket} {e : Fault}

theorem window_concat (k : BucketKey) (f : Fill) :
    window k (log ++ [f]) = if InWindow k f then window k log ++ [f] else window k log := by
  rw [window, List.filter_append]
  split_ifs with hin
  · rw [List.filter_cons_of_pos (by simpa using hin)]
    rfl
  · rw [List.filter_cons_of_neg (by simpa using hin), List.filter_nil, List.append_nil]
    rfl

/-- The key of the bucket that a fill is in. -/
def keyOf (s now : ℕ) (o : FillOrder) : BucketKey :=
  ⟨o.pays.assetId, o.receives.assetId, s, now / s * s⟩

theorem inWindow_iff {k : BucketKey} (hk : k.seconds = s) :
    InWindow k ⟨now, o⟩ ↔ k = keyOf s now o := by
  obtain ⟨base, quote, seconds, openTime⟩ := k
  obtain rfl : seconds = s := hk
  simp only [InWindow, keyOf, BucketKey.mk.injEq, true_and, eq_comm]

/-- The bucket that is created or modified. -/
theorem fillBucket_spec (h : fillBucket key p buckets = .ok buckets') :
    ∃ b₀, b₀.key = key ∧ (∀ b, b ∈ buckets'.entries ↔ b = b₀ ∨ b ∈ buckets.entries ∧ b.key ≠ key) ∧
      ((∀ b ∈ buckets.entries, b.key ≠ key) ∧ b₀ = .create key p ∨
        ∃ b ∈ buckets.entries, b.key = key ∧ b.update p = some b₀) := by
  rw [fillBucket] at h
  cases hfind : buckets.find key.orderKey with
  | none =>
    rw [hfind] at h
    have hnone : ∀ b ∈ buckets.entries, b.key ≠ key := fun b hb hkey ↦
      OrderedIndex.find_eq_none.1 hfind b hb (congrArg _ hkey)
    refine ⟨.create key p, rfl, fun b ↦ ?_, .inl ⟨hnone, rfl⟩⟩
    rw [OrderedIndex.mem_insert (orThrow_eq_ok.1 h)]
    exact or_congr_right ⟨fun hb ↦ ⟨hb, hnone b hb⟩, And.left⟩
  | some b =>
    rw [hfind] at h
    change (orThrow (b.update p) _).map _ = _ at h
    obtain ⟨hb, horder⟩ := OrderedIndex.find_spec hfind
    have hkey := BucketKey.orderKey_inj.1 horder
    cases hupdate : b.update p with
    | none =>
      rw [hupdate] at h
      cases h
    | some b₀ =>
      rw [hupdate] at h
      obtain rfl := Except.ok.inj h
      have hkey₀ : b₀.key = key := (key_update hupdate).trans hkey
      refine ⟨b₀, hkey₀, fun b' ↦ ?_, .inr ⟨b, hb, hkey, hupdate⟩⟩
      rw [OrderedIndex.mem_replace ⟨b, hb, by rw [hkey₀, hkey]⟩, hkey₀, ne_eq,
        BucketKey.orderKey_inj]

/-- What is removed after a bucket was filled. -/
def Removed (plugin : Plugin) (key : BucketKey) (b : Bucket) : Prop :=
  b.key.SameSize key ∧ b.key.openTime < plugin.cutoff key.seconds

/-- **One fill in a bucket of one size**: no bucket of another size changes. -/
theorem processBucket_spec (hmax : plugin.maximumHistoryPerBucketSize ≠ 0)
    (h : processBucket plugin now o buckets s = .ok buckets') :
    o.receives.assetId < o.pays.assetId ∧ buckets' = buckets ∨
      ¬o.receives.assetId < o.pays.assetId ∧ ∃ b₀, b₀.key = keyOf s now o ∧
        (∀ b, b ∈ buckets'.entries ↔
          (b = b₀ ∨ b ∈ buckets.entries ∧ b.key ≠ keyOf s now o) ∧
            ¬Removed plugin (keyOf s now o) b) ∧
        ((∀ b ∈ buckets.entries, b.key ≠ keyOf s now o) ∧
            b₀ = .create (keyOf s now o) (Fill.price ⟨now, o⟩) ∨
          ∃ b ∈ buckets.entries, b.key = keyOf s now o ∧
            b.update (Fill.price ⟨now, o⟩) = some b₀) := by
  rw [processBucket] at h
  split_ifs at h with hside
  · exact .inl ⟨hside, (Except.ok.inj h).symm⟩
  refine .inr ⟨hside, ?_⟩
  obtain ⟨tradePrice, hprice, hchecked⟩ := bind_eq_ok.1 h
  obtain ⟨_, -, hfilled⟩ := bind_eq_ok.1 hchecked
  obtain ⟨buckets₁, hfill, hremoved⟩ := bind_eq_ok.1 hfilled
  obtain ⟨-, rfl⟩ := Asset.dividedBy_eq_some.1 (orThrow_eq_ok.1 hprice)
  obtain ⟨b₀, hkey, hmem, hcase⟩ := fillBucket_spec hfill
  obtain rfl := Except.ok.inj hremoved
  refine ⟨b₀, hkey, fun b ↦ ?_, hcase⟩
  rw [OrderedIndex.mem_removeFrom, hmem]
  · refine and_congr_right fun _ ↦ not_congr ?_
    rw [decide_eq_true_iff]
    constructor
    · rintro ⟨-, hbase, hquote, hseconds, hopen⟩
      exact ⟨⟨hbase, hquote, hseconds⟩, hopen⟩
    · rintro ⟨⟨hbase, hquote, hseconds⟩, hopen⟩
      exact ⟨orderKey_le_of_sameSize ⟨hbase, hquote, hseconds⟩ (Nat.zero_le _), hbase, hquote,
        hseconds, hopen⟩
  · intro a b hle hlt hb
    rw [decide_eq_true_iff] at hb ⊢
    obtain ⟨hbase, hquote, hseconds, hopen⟩ := hb
    obtain ⟨hsame, hle'⟩ := sameSize_of_between hle hlt.le ⟨hbase, hquote, hseconds⟩
    exact ⟨hsame.1, hsame.2.1, hsame.2.2, hle'.trans_lt hopen⟩

/-- **One fill and one size**: the buckets stay those of the windows from the cutoff on. -/
theorem KeepsSize.processBucket (hkeeps : KeepsSize plugin log buckets s)
    (hmax : plugin.maximumHistoryPerBucketSize ≠ 0)
    (h : MarketHistory.processBucket plugin now o buckets s = .ok buckets') :
    KeepsSize plugin (log ++ [⟨now, o⟩]) buckets' s := by
  rcases processBucket_spec hmax h with ⟨hside, rfl⟩ | ⟨hside, b₀, hkey, hmem, hcase⟩
  · have hout (k : BucketKey) (hk : k.base ≤ k.quote) :
        window k (log ++ [⟨now, o⟩]) = window k log := by
      rw [window_concat, if_neg]
      rintro ⟨hbase, hquote, -⟩
      rw [← hbase, ← hquote] at hk
      exact absurd hside hk.not_gt
    constructor
    · intro b hb hs
      obtain ⟨hle, hopen, hsum⟩ := hkeeps.summarises b hb hs
      exact ⟨hle, hopen, (hout b.key hle).symm ▸ hsum⟩
    · intro k hs hk hwindow hopen
      rw [hout k hk] at hwindow
      exact hkeeps.stored k hs hk hwindow hopen
  · have hin (k : BucketKey) (hs : k.seconds = s) :
        window k (log ++ [⟨now, o⟩]) =
          if k = keyOf s now o then window k log ++ [⟨now, o⟩] else window k log := by
      simp only [window_concat, inWindow_iff hs]
    constructor
    · intro b hb hs
      obtain ⟨rfl | ⟨hb, hne⟩, hkept⟩ := (hmem b).1 hb
      · have hopen : plugin.cutoff s ≤ b.key.openTime := not_lt.1 fun hlt ↦ by
          rw [hkey] at hlt
          exact hkept ⟨hkey ▸ ⟨rfl, rfl, rfl⟩, by rw [hkey]; exact hlt⟩
        refine ⟨by rw [hkey]; exact not_lt.1 hside, hopen, ?_⟩
        rw [hin b.key hs, if_pos hkey]
        rcases hcase with ⟨hnone, hcreate⟩ | ⟨c, hc, hckey, hupdate⟩
        · have hnil : window b.key log = [] := by
            by_contra hne
            obtain ⟨c, hc, hckey⟩ :=
              hkeeps.stored b.key hs (by rw [hkey]; exact not_lt.1 hside) hne hopen
            exact hnone c hc (hckey.trans hkey)
          rw [hnil, hcreate]
          exact summarises_create
        · obtain ⟨-, -, hsum⟩ := hkeeps.summarises c hc (by rw [hckey]; rfl)
          rw [hckey, ← hkey] at hsum
          exact hsum.update hupdate (by rw [hckey]; rfl) (by rw [hckey]; rfl)
      · obtain ⟨hle, hopen, hsum⟩ := hkeeps.summarises b hb hs
        refine ⟨hle, hopen, ?_⟩
        rwa [hin b.key hs, if_neg hne]
    · intro k hs hk hwindow hopen
      have hkept (b : Bucket) (hb : b.key = k) : ¬Removed plugin (keyOf s now o) b := fun h ↦ by
        rw [Removed, hb] at h
        exact absurd h.2 (by rw [← h.1.2.2, hs]; exact hopen.not_gt)
      by_cases heq : k = keyOf s now o
      · exact ⟨b₀, (hmem b₀).2 ⟨.inl rfl, hkept b₀ (hkey.trans heq.symm)⟩, hkey.trans heq.symm⟩
      · rw [hin k hs, if_neg heq] at hwindow
        obtain ⟨b, hb, hbkey⟩ := hkeeps.stored k hs hk hwindow hopen
        exact ⟨b, (hmem b).2 ⟨.inr ⟨hb, hbkey ▸ heq⟩, hkept b hbkey⟩, hbkey⟩

/-- The buckets of other sizes stay. -/
theorem mem_processBucket (hmax : plugin.maximumHistoryPerBucketSize ≠ 0)
    (h : processBucket plugin now o buckets s = .ok buckets') (hb : b.key.seconds ≠ s) :
    b ∈ buckets'.entries ↔ b ∈ buckets.entries := by
  rcases processBucket_spec hmax h with ⟨-, rfl⟩ | ⟨-, b₀, hkey, hmem, -⟩
  · rfl
  · have hne : b.key ≠ keyOf s now o := fun heq ↦ hb (congrArg BucketKey.seconds heq)
    have hb₀ : b ≠ b₀ := fun heq ↦ hne (heq ▸ hkey)
    have hkept : ¬Removed plugin (keyOf s now o) b := fun hremoved ↦ hb hremoved.1.2.2
    rw [hmem, or_iff_right hb₀, and_iff_left hne, and_iff_left hkept]

theorem fillBucket_error (h : fillBucket key p buckets = .error e) : e = .thrown := by
  rw [fillBucket] at h
  split at h
  · exact (orThrow_eq_error.1 h).2.symm
  · rename_i b _
    cases hupdate : b.update p with
    | none =>
      rw [hupdate] at h
      cases h
      rfl
    | some b₀ =>
      rw [hupdate] at h
      cases h

/-- **What a fill in a bucket may fail with**: an exception, or a size of zero. -/
theorem processBucket_error (h : processBucket plugin now o buckets s = .error e) :
    e = .thrown ∨ e = .divisionByZero ∧ s = 0 ∧ ¬o.receives.assetId < o.pays.assetId := by
  rw [processBucket] at h
  by_cases hside : o.receives.assetId < o.pays.assetId
  · rw [if_pos hside] at h
    cases h
  rw [if_neg hside] at h
  rcases bind_eq_error.1 h with hprice | ⟨tradePrice, -, hchecked⟩
  · exact .inl (orThrow_eq_error.1 hprice).2.symm
  rcases bind_eq_error.1 hchecked with hzero | ⟨_, -, hfilled⟩
  · obtain ⟨hfailed, heq⟩ := check_eq_error.1 hzero
    exact .inr ⟨heq.symm, by simpa using hfailed, hside⟩
  rcases bind_eq_error.1 hfilled with hfill | ⟨_, -, hremoved⟩
  · exact .inl (fillBucket_error hfill)
  · cases hremoved

/-! ## All sizes -/

/-- The buckets of all sizes. -/
structure KeepsBuckets (plugin : Plugin) (log : List Fill) (buckets : BucketIndex) : Prop where
  /-- Each is of a size that is tracked. -/
  tracked : ∀ b ∈ buckets.entries, b.key.seconds ∈ plugin.trackedBuckets
  /-- Those of each size are those of its windows. -/
  sizes : ∀ s ∈ plugin.trackedBuckets, KeepsSize plugin log buckets s

/-- What is known of one size depends on its buckets only. -/
theorem KeepsSize.congr (hkeeps : KeepsSize plugin log buckets s)
    (hmem : ∀ b : Bucket, b.key.seconds = s → (b ∈ buckets'.entries ↔ b ∈ buckets.entries)) :
    KeepsSize plugin log buckets' s where
  summarises b hb hs := hkeeps.summarises b ((hmem b hs).1 hb) hs
  stored k hs hk hwindow hopen := by
    obtain ⟨b, hb, rfl⟩ := hkeeps.stored k hs hk hwindow hopen
    exact ⟨b, (hmem b hs).2 hb, rfl⟩

/-- The loop over the sizes. -/
theorem foldlM_processBucket (hmax : plugin.maximumHistoryPerBucketSize ≠ 0) {sizes : List ℕ}
    (hnodup : sizes.Nodup) (h : sizes.foldlM (processBucket plugin now o) buckets = .ok buckets') :
    (∀ b : Bucket, b.key.seconds ∉ sizes → (b ∈ buckets'.entries ↔ b ∈ buckets.entries)) ∧
      ∀ s ∈ sizes, KeepsSize plugin log buckets s →
        KeepsSize plugin (log ++ [⟨now, o⟩]) buckets' s := by
  induction sizes generalizing buckets with
  | nil =>
    obtain rfl := Except.ok.inj h
    exact ⟨fun b _ ↦ Iff.rfl, fun s hs ↦ absurd hs List.not_mem_nil⟩
  | cons s sizes ih =>
    obtain ⟨hs, hsizes⟩ := List.nodup_cons.1 hnodup
    rw [List.foldlM_cons] at h
    obtain ⟨buckets₁, hfirst, hrest⟩ := bind_eq_ok.1 h
    obtain ⟨hframe, hkeeps⟩ := ih hsizes hrest
    constructor
    · intro b hb
      rw [List.mem_cons, not_or] at hb
      rw [hframe b hb.2, mem_processBucket hmax hfirst hb.1]
    · intro r hr hsize
      rcases List.mem_cons.1 hr with rfl | hr
      · refine (hsize.processBucket hmax hfirst).congr fun b hb ↦ hframe b ?_
        rwa [hb]
      · refine hkeeps r hr (hsize.congr fun b hb ↦ mem_processBucket hmax hfirst ?_)
        rintro hbs
        rw [← hbs, hb] at hs
        exact hs hr

theorem foldlM_processBucket_error {sizes : List ℕ}
    (h : sizes.foldlM (processBucket plugin now o) buckets = .error e) :
    e = .thrown ∨
      e = .divisionByZero ∧ 0 ∈ sizes ∧ ¬o.receives.assetId < o.pays.assetId := by
  induction sizes generalizing buckets with
  | nil => cases h
  | cons s sizes ih =>
    rw [List.foldlM_cons] at h
    rcases bind_eq_error.1 h with hfirst | ⟨buckets₁, -, hrest⟩
    · refine (processBucket_error hfirst).imp_right fun ⟨he, hs, hside⟩ ↦ ⟨he, ?_, hside⟩
      rw [hs]
      exact List.mem_cons_self
    · exact (ih hrest).imp_right fun ⟨he, hs, hside⟩ ↦ ⟨he, List.mem_cons_of_mem _ hs, hside⟩

/-- **One fill**: the buckets of all sizes stay those of their windows. -/
theorem KeepsBuckets.foldlM (hkeeps : KeepsBuckets plugin log buckets)
    (hmax : plugin.maximumHistoryPerBucketSize ≠ 0)
    (h : plugin.trackedBuckets.foldlM (processBucket plugin now o) buckets = .ok buckets') :
    KeepsBuckets plugin (log ++ [⟨now, o⟩]) buckets' := by
  have hnodup : plugin.trackedBuckets.Nodup := plugin.sorted.imp Nat.ne_of_lt
  obtain ⟨hframe, hsizes⟩ := foldlM_processBucket hmax hnodup h
  constructor
  · intro b hb
    by_contra hout
    exact hout (hkeeps.tracked b ((hframe b hout).1 hb))
  · exact fun s hs ↦ hsizes s hs (hkeeps.sizes s hs)

end Process

/-! ## Blocks -/

/-- What the indexes of the plugin are, after these fills. -/
structure Kept (plugin : Plugin) (log : List Fill) (t : Indexes) : Prop where
  /-- The histories are the last fills. -/
  history : KeepsNewest log t.history
  /-- The buckets are those of their windows. -/
  buckets : KeepsBuckets plugin log t.buckets

/-- A fill that the history takes: there is something where it is looked for, and a number. -/
structure Admits (log : List Fill) (f : Fill) : Prop where
  /-- A fill of this market or of a later one came before. -/
  ahead : ∃ g ∈ log, ¬toLex g.op.market < toLex f.op.market
  /-- There are numbers left. -/
  number : (fillsOf log f.op.market).length ≤ 2 ^ 63

/-- A fill, if this is one. -/
def fillOf (time : ℕ) : Option Operation → Option Fill
  | some (.fillOrder o) => some ⟨time, o⟩
  | some .other | none => none

/-- The fills of a block. -/
def Block.fills (b : Block) : List Fill := b.applied.filterMap (fillOf b.timestamp)

/-- **A block that the plugin can go through.** -/
structure Defined (plugin : Plugin) (log : List Fill) (b : Block) : Prop where
  /-- The plugin is on, if there is something to be done. -/
  on : b.fills ≠ [] →
    plugin.maximumHistoryPerBucketSize ≠ 0 ∧ plugin.trackedBuckets.length ≠ 0
  /-- No time is divided by zero. -/
  divides : 0 ∈ plugin.trackedBuckets →
    ∀ f ∈ b.fills, f.op.receives.assetId < f.op.pays.assetId
  /-- The history takes each of its fills. -/
  admits : ∀ before f after, b.fills = before ++ f :: after → Admits (log ++ before) f

section Blocks

variable {plugin : Plugin} {log : List Fill} {t t' : Indexes} {b : Block} {time now : ℕ}
  {o : FillOrder} {e : Fault}

theorem kept_empty (plugin : Plugin) : Kept plugin [] ⟨.empty, .empty⟩ where
  history :=
    { newest := fun _ ↦ rfl
      fits := fun _ h ↦ absurd h List.not_mem_nil }
  buckets :=
    { tracked := fun _ h ↦ absurd h List.not_mem_nil
      sizes := fun _ _ ↦
        { summarises := fun _ h ↦ absurd h List.not_mem_nil
          stored := fun _ _ _ h ↦ absurd rfl h } }

/-- **One fill.** -/
theorem Kept.operation (hkept : Kept plugin log t)
    (hmax : plugin.maximumHistoryPerBucketSize ≠ 0) (hadmits : Admits log ⟨time, o⟩) :
    (∀ t', operationProcessFillOrder plugin time time t o = .ok t' →
      Kept plugin (log ++ [⟨time, o⟩]) t') ∧
    ∀ e, operationProcessFillOrder plugin time time t o = .error e →
      e = .thrown ∨ 0 ∈ plugin.trackedBuckets ∧ ¬o.receives.assetId < o.pays.assetId := by
  obtain ⟨history', hprocess, hhistory⟩ :=
    hkept.history.processHistory time hadmits.ahead hadmits.number
  constructor
  · intro t' h
    obtain ⟨history'', hhistory', h'⟩ := bind_eq_ok.1 h
    obtain rfl := Except.ok.inj (hprocess.symm.trans hhistory')
    obtain ⟨buckets', hbuckets, h''⟩ := bind_eq_ok.1 h'
    obtain rfl := Except.ok.inj h''
    exact ⟨hhistory, hkept.buckets.foldlM hmax hbuckets⟩
  · intro e h
    rcases bind_eq_error.1 h with hfailed | ⟨_, -, h'⟩
    · rw [hprocess] at hfailed
      cases hfailed
    rcases bind_eq_error.1 h' with hbuckets | ⟨_, -, h''⟩
    · exact (foldlM_processBucket_error hbuckets).imp_right And.right
    · cases h''

/-- The loop over the operations of a block. -/
theorem Kept.foldlM (hkept : Kept plugin log t) {ops : List (Option Operation)}
    (hon : ops.filterMap (fillOf b.timestamp) ≠ [] → plugin.maximumHistoryPerBucketSize ≠ 0)
    (hdivides : 0 ∈ plugin.trackedBuckets →
      ∀ f ∈ ops.filterMap (fillOf b.timestamp), f.op.receives.assetId < f.op.pays.assetId)
    (hadmits : ∀ before f after, ops.filterMap (fillOf b.timestamp) = before ++ f :: after →
      Admits (log ++ before) f) :
    (∀ t', ops.foldlM (visit plugin b) t = .ok t' →
      Kept plugin (log ++ ops.filterMap (fillOf b.timestamp)) t') ∧
    ∀ e, ops.foldlM (visit plugin b) t = .error e → e = .thrown := by
  induction ops generalizing log t with
  | nil =>
    constructor
    · intro t' h
      obtain rfl := Except.ok.inj h
      rwa [List.filterMap_nil, List.append_nil]
    · intro e h
      cases h
  | cons op ops ih =>
    match op with
    | none | some .other => exact ih hkept hon hdivides hadmits
    | some (.fillOrder o) =>
      change ⟨b.timestamp, o⟩ :: ops.filterMap (fillOf b.timestamp) ≠ [] → _ at hon
      change _ → ∀ f ∈ ⟨b.timestamp, o⟩ :: ops.filterMap (fillOf b.timestamp), _ at hdivides
      change ∀ before f after, ⟨b.timestamp, o⟩ :: ops.filterMap (fillOf b.timestamp) = _ → _
        at hadmits
      show (∀ t', _ →
        Kept plugin (log ++ ⟨b.timestamp, o⟩ :: ops.filterMap (fillOf b.timestamp)) t') ∧ _
      have hmax := hon (List.cons_ne_nil _ _)
      have hhead := hadmits [] _ _ rfl
      rw [List.append_nil] at hhead
      obtain ⟨hok, herror⟩ := hkept.operation hmax hhead
      have hrest (t₁ : Indexes) (h : visit plugin b t (some (.fillOrder o)) = .ok t₁) :=
        ih (hok t₁ h) (fun _ ↦ hmax) (fun h f hf ↦ hdivides h f (List.mem_cons_of_mem _ hf))
          fun before f after heq ↦ by
            have hnext := hadmits (⟨b.timestamp, o⟩ :: before) f after (by rw [heq]; rfl)
            rwa [List.append_cons] at hnext
      constructor
      · intro t' h
        rw [List.foldlM_cons] at h
        obtain ⟨t₁, hvisit, h'⟩ := bind_eq_ok.1 h
        rw [List.append_cons]
        exact (hrest t₁ hvisit).1 t' h'
      · intro e h
        rw [List.foldlM_cons] at h
        rcases bind_eq_error.1 h with hvisit | ⟨t₁, hvisit, h'⟩
        · refine (herror e hvisit).resolve_right fun ⟨hzero, hside⟩ ↦ ?_
          exact hside (hdivides hzero _ List.mem_cons_self)
        · exact (hrest t₁ hvisit).2 e h'

/-- **One block.** -/
theorem Kept.updateMarketHistories (hkept : Kept plugin log t) (hb : Defined plugin log b) :
    (∀ t', MarketHistory.updateMarketHistories plugin b t = .ok t' →
      Kept plugin (log ++ b.fills) t') ∧
    ∀ e, MarketHistory.updateMarketHistories plugin b t = .error e → e = .thrown := by
  have hskip (hoff : b.fills ≠ [] → False) :
      (∀ t', (.ok t : Except Fault Indexes) = .ok t' → Kept plugin (log ++ b.fills) t') ∧
        ∀ e, (.ok t : Except Fault Indexes) = .error e → e = .thrown := by
    rw [not_not.1 hoff, List.append_nil]
    exact ⟨fun t' h ↦ Except.ok.inj h ▸ hkept, fun e h ↦ by cases h⟩
  rw [MarketHistory.updateMarketHistories]
  by_cases hmax : plugin.maximumHistoryPerBucketSize = 0
  · rw [if_pos hmax]
    exact hskip fun hne ↦ (hb.on hne).1 hmax
  by_cases htracked : plugin.trackedBuckets.length = 0
  · rw [if_neg hmax, if_pos htracked]
    exact hskip fun hne ↦ (hb.on hne).2 htracked
  · rw [if_neg hmax, if_neg htracked]
    exact hkept.foldlM (fun _ ↦ hmax) hb.divides hb.admits

end Blocks

/-! ## What the history is for -/

/-- The buckets of a market and a size. -/
def bucketsOf (buckets : BucketIndex) (k : BucketKey) : List Bucket :=
  buckets.entries.filter fun b ↦
    b.key.base = k.base ∧ b.key.quote = k.quote ∧ b.key.seconds = k.seconds

/-- **The market history**: bounded, and the newest first. -/
structure Recorded (plugin : Plugin) (log : List Fill) (t : Indexes) : Prop where
  /-- Each history is the last fills of its market. -/
  newestFirst : NewestFirst log t.history
  /-- Each bucket sums up the fills of its window. -/
  summarises : ∀ b ∈ t.buckets.entries, b.key.seconds ∈ plugin.trackedBuckets ∧
    b.key.base ≤ b.key.quote ∧ Summarises b (window b.key log)
  /-- There are no more buckets of a market and a size than there may be. -/
  bounded : ∀ k, (bucketsOf t.buckets k).length ≤ plugin.maximumHistoryPerBucketSize
  /-- They are the most recent ones. -/
  mostRecent : ∀ b ∈ t.buckets.entries, ∀ k : BucketKey, k.SameSize b.key → window k log ≠ [] →
    b.key.openTime ≤ k.openTime → ∃ c ∈ t.buckets.entries, c.key = k

/-- When the windows of a market and a size opened, from the cutoff on. -/
def openings (plugin : Plugin) (log : List Fill) (k : BucketKey) : List ℕ :=
  (((log.filter fun f ↦ f.op.pays.assetId = k.base ∧ f.op.receives.assetId = k.quote).map
    fun f ↦ f.time / k.seconds * k.seconds).filter (plugin.cutoff k.seconds ≤ ·)).dedup

/-- **There are no more windows from the cutoff on than there may be buckets.** -/
def Retained (plugin : Plugin) (log : List Fill) : Prop :=
  ∀ k : BucketKey, k.seconds ∈ plugin.trackedBuckets → k.base ≤ k.quote →
    (openings plugin log k).length ≤ plugin.maximumHistoryPerBucketSize

section Retained

variable {plugin : Plugin} {log : List Fill} {t : Indexes} {buckets : BucketIndex}
  {k : BucketKey} {b : Bucket} {x : ℕ}

theorem mem_bucketsOf :
    b ∈ bucketsOf buckets k ↔ b ∈ buckets.entries ∧ b.key.SameSize k := by
  rw [bucketsOf, List.mem_filter, decide_eq_true_iff]
  rfl

theorem mem_openings :
    x ∈ openings plugin log k ↔
      plugin.cutoff k.seconds ≤ x ∧ window ⟨k.base, k.quote, k.seconds, x⟩ log ≠ [] := by
  rw [openings, List.mem_dedup, List.mem_filter, decide_eq_true_iff, and_comm, List.mem_map]
  refine and_congr_right fun _ ↦ ?_
  constructor
  · rintro ⟨f, hf, rfl⟩
    obtain ⟨hlog, hmarket⟩ := List.mem_filter.1 hf
    obtain ⟨hbase, hquote⟩ := of_decide_eq_true hmarket
    exact List.ne_nil_of_mem (List.mem_filter.2 ⟨hlog, decide_eq_true ⟨hbase, hquote, rfl⟩⟩)
  · intro hne
    obtain ⟨f, hf⟩ := List.exists_mem_of_ne_nil _ hne
    obtain ⟨hlog, hin⟩ := List.mem_filter.1 hf
    obtain ⟨hbase, hquote, hopen⟩ := of_decide_eq_true hin
    exact ⟨f, List.mem_filter.2 ⟨hlog, decide_eq_true ⟨hbase, hquote⟩⟩, hopen⟩

/-- There are as many buckets as windows. -/
theorem KeepsBuckets.length_bucketsOf (hkeeps : KeepsBuckets plugin log buckets)
    (hk : k.seconds ∈ plugin.trackedBuckets) (hle : k.base ≤ k.quote) :
    (bucketsOf buckets k).length = (openings plugin log k).length := by
  have hsize := hkeeps.sizes k.seconds hk
  have hkey (b : Bucket) (hb : b.key.SameSize k) :
      b.key = ⟨k.base, k.quote, k.seconds, b.key.openTime⟩ := by
    rw [← hb.1, ← hb.2.1, ← hb.2.2]
  have hnodup : ((bucketsOf buckets k).map (·.key.openTime)).Nodup := by
    refine List.Nodup.map_on ?_ ((buckets.sorted.imp fun hlt heq ↦ ?_).filter _)
    · intro a ha b hb hopen
      obtain ⟨ha, hsame⟩ := mem_bucketsOf.1 ha
      obtain ⟨hb, hsame'⟩ := mem_bucketsOf.1 hb
      refine OrderedIndex.eq_of_key ha hb (congrArg _ ?_)
      rw [hkey a hsame, hkey b hsame', hopen]
    · rw [heq] at hlt
      exact lt_irrefl _ hlt
  rw [← List.length_map (·.key.openTime)]
  refine ((List.perm_ext_iff_of_nodup hnodup (List.nodup_dedup _)).2 fun x ↦ ?_).length_eq
  rw [← openings, mem_openings, List.mem_map]
  constructor
  · rintro ⟨b, hb, rfl⟩
    obtain ⟨hb, hsame⟩ := mem_bucketsOf.1 hb
    obtain ⟨-, hopen, hsum⟩ := hsize.summarises b hb hsame.2.2
    refine ⟨hopen, ?_⟩
    rw [← hkey b hsame]
    obtain ⟨f, hf, -⟩ := hsum.high
    exact List.ne_nil_of_mem hf
  · rintro ⟨hopen, hwindow⟩
    obtain ⟨b, hb, hbkey⟩ := hsize.stored ⟨k.base, k.quote, k.seconds, x⟩ rfl hle hwindow hopen
    exact ⟨b, mem_bucketsOf.2 ⟨hb, by rw [hbkey]; exact ⟨rfl, rfl, rfl⟩⟩, by rw [hbkey]⟩

/-- **The market history is what it is for** exactly if no more is retained than there may be. -/
theorem Kept.recorded_iff (hkept : Kept plugin log t) :
    Recorded plugin log t ↔ Retained plugin log := by
  have hsizes (b : Bucket) (hb : b ∈ t.buckets.entries) :=
    (hkept.buckets.sizes _ (hkept.buckets.tracked b hb)).summarises b hb rfl
  constructor
  · intro h k hk hle
    rw [← hkept.buckets.length_bucketsOf hk hle]
    exact h.bounded k
  · intro h
    refine
      { newestFirst := hkept.history.newest
        summarises := fun b hb ↦ ⟨hkept.buckets.tracked b hb, (hsizes b hb).1, (hsizes b hb).2.2⟩
        bounded := fun k ↦ ?_
        mostRecent := fun b hb k hsame hwindow hopen ↦ ?_ }
    · by_cases hk : k.seconds ∈ plugin.trackedBuckets ∧ k.base ≤ k.quote
      · rw [hkept.buckets.length_bucketsOf hk.1 hk.2]
        exact h k hk.1 hk.2
      · have hnil : bucketsOf t.buckets k = [] := by
          refine List.eq_nil_iff_forall_not_mem.2 fun b hb ↦ hk ?_
          obtain ⟨hb, hbase, hquote, hseconds⟩ := mem_bucketsOf.1 hb
          rw [← hbase, ← hquote, ← hseconds]
          exact ⟨hkept.buckets.tracked b hb, (hsizes b hb).1⟩
        rw [hnil]
        exact Nat.zero_le _
    · obtain ⟨hbase, hquote, hseconds⟩ := hsame
      have hsize := hkept.buckets.sizes _ (hkept.buckets.tracked b hb)
      obtain ⟨hle, hcutoff, -⟩ := hsizes b hb
      refine hsize.stored k hseconds ?_ hwindow (hcutoff.trans hopen)
      rw [hbase, hquote]
      exact hle

end Retained

/-! ## Runs -/

/-- The indexes of the plugin and the fills so far, after blocks that it can go through and that
are applied. -/
inductive Reached (plugin : Plugin) (t₀ : Indexes) (log₀ : List Fill) :
    Indexes → List Fill → Prop where
  /-- Where it starts. -/
  | start : Reached plugin t₀ log₀ t₀ log₀
  /-- One block. -/
  | block {t t' : Indexes} {log : List Fill} {b : Block} (reached : Reached plugin t₀ log₀ t log)
      (defined : Defined plugin log b) (applied : updateMarketHistories plugin b t = .ok t') :
      Reached plugin t₀ log₀ t' (log ++ b.fills)

section Runs

variable {plugin : Plugin} {t₀ t : Indexes} {log₀ log : List Fill}

/-- After every block the indexes are what they are to be. -/
theorem Reached.kept (h : Reached plugin t₀ log₀ t log) (h₀ : Kept plugin log₀ t₀) :
    Kept plugin log t := by
  induction h with
  | start => exact h₀
  | block _ defined applied ih => exact (ih.updateMarketHistories defined).1 _ applied

/-- The end of an index is dereferenced by a fill for which nothing came before. -/
theorem Kept.endDereferenced_iff (hkept : Kept plugin log t) {time now : ℕ} {o : FillOrder} :
    operationProcessFillOrder plugin time now t o = .error .endDereferenced ↔
      ∀ f ∈ log, toLex f.op.market < toLex o.market := by
  have hhistory : processHistory time o t.history = .error .endDereferenced ↔ _ :=
    hkept.history.endDereferenced_iff
  rw [← hhistory]
  constructor
  · intro h
    rcases bind_eq_error.1 h with hend | ⟨_, -, h'⟩
    · exact hend
    rcases bind_eq_error.1 h' with hbuckets | ⟨_, -, h''⟩
    · rcases foldlM_processBucket_error hbuckets with he | ⟨he, -⟩
      · cases he
      · cases he
    · cases h''
  · exact fun h ↦ bind_eq_error.2 (.inl h)

/-- **The market history.**  After every block it is bounded and the newest first, exactly if no
more windows opened from the cutoff on than there may be buckets; a block that the plugin can go
through fails with an exception at most; and the end of the index is dereferenced by a fill exactly
if no fill of its market or of a later one came before. -/
theorem market_history (h₀ : Kept plugin log₀ t₀) (h : Reached plugin t₀ log₀ t log) :
    (Recorded plugin log t ↔ Retained plugin log) ∧
      (∀ b e, Defined plugin log b → updateMarketHistories plugin b t = .error e → e = .thrown) ∧
        ∀ time now o,
          operationProcessFillOrder plugin time now t o = .error .endDereferenced ↔
            ∀ f ∈ log, toLex f.op.market < toLex o.market := by
  have hkept := h.kept h₀
  refine ⟨hkept.recorded_iff, fun b e hb he ↦ ?_, fun time now o ↦ hkept.endDereferenced_iff⟩
  exact (hkept.updateMarketHistories hb).2 e he

end Runs

/-! ## Two markets -/

/-- A plugin with buckets of a minute. -/
def minutes (maxHistory : ℕ) : Plugin := ⟨[60], by decide, maxHistory⟩

/-- A fill. -/
def sampleFill (pays receives : AssetId) : FillOrder where
  orderId := 1
  accountId := 7
  pays := ⟨10, pays⟩
  receives := ⟨20, receives⟩
  fee := ⟨0, coreAsset⟩
  pays_nonneg := Int.natCast_nonneg 10
  receives_nonneg := Int.natCast_nonneg 20

/-- A block with one fill. -/
def sampleBlock (time : ℕ) : Block := ⟨time, [some (.fillOrder (sampleFill 1 2))]⟩

/-- A fill of a later market. -/
def laterFill : Fill := ⟨100, sampleFill 9 8⟩

/-- The indexes after it. -/
def afterLaterFill : Indexes where
  history := ⟨[⟨⟨8, 9, 0⟩, 100, sampleFill 9 8⟩], List.pairwise_singleton _ _⟩
  buckets := .empty

theorem kept_afterLaterFill (plugin : Plugin) : Kept plugin [laterFill] afterLaterFill where
  history :=
    { newest := fun m ↦ by
        by_cases hm : m = (8, 9)
        · subst hm
          rfl
        · have hfills : fillsOf [laterFill] m = [] := by
            refine List.filter_eq_nil_iff.2 fun f hf ↦ ?_
            rw [List.mem_singleton.1 hf, decide_eq_true_iff]
            exact fun h ↦ hm h.symm
          have hrecords : recordsOf afterLaterFill.history m = [] := by
            refine List.filter_eq_nil_iff.2 fun h hh ↦ ?_
            rw [List.mem_singleton.1 hh, decide_eq_true_iff]
            exact fun h ↦ hm h.symm
          rw [hfills, hrecords]
          rfl
      fits := fun h hh ↦ by
        rw [List.mem_singleton.1 hh]
        decide }
  buckets :=
    { tracked := fun _ h ↦ absurd h List.not_mem_nil
      sizes := fun s _ ↦
        { summarises := fun _ h ↦ absurd h List.not_mem_nil
          stored := fun k _ hle hwindow ↦ by
            obtain ⟨f, hf⟩ := List.exists_mem_of_ne_nil _ hwindow
            obtain ⟨hlog, hin⟩ := List.mem_filter.1 hf
            obtain ⟨hbase, hquote, -⟩ := of_decide_eq_true hin
            rw [← hbase, ← hquote, List.mem_singleton.1 hlog] at hle
            exact absurd hle (by decide) } }

theorem defined_sampleBlock {maxHistory : ℕ} (hmax : maxHistory ≠ 0) {log : List Fill} (time : ℕ)
    (hlog : laterFill ∈ log) (hlength : log.length ≤ 2 ^ 63) :
    Defined (minutes maxHistory) log (sampleBlock time) where
  on _ := ⟨hmax, (by decide : [60].length ≠ 0)⟩
  divides h := absurd h (by decide : ¬0 ∈ [60])
  admits before f after heq := by
    obtain ⟨rfl, hrest⟩ : before = [] ∧ [⟨time, sampleFill 1 2⟩] = f :: after := by
      cases before with
      | nil => exact ⟨rfl, heq⟩
      | cons g before =>
        have hnil := (List.cons.inj heq).2
        exact absurd hnil.symm (by simp)
    obtain ⟨rfl, -⟩ := List.cons.inj hrest
    rw [List.append_nil]
    have hahead : ¬toLex (sampleFill 9 8).market < toLex (sampleFill 1 2).market := by decide
    exact ⟨⟨laterFill, hlog, hahead⟩, (List.length_filter_le _ _).trans hlength⟩

theorem exists_ok {x : Except Fault Indexes} (h : failure x = none) : ∃ t, x = .ok t := by
  cases x with
  | ok t => exact ⟨t, rfl⟩
  | error e => cases h

/-- A block with a fill of a market that is before another, and what is kept after it. -/
theorem market_history_minutes : ∃ t log, log.length = 2 ∧
    Kept (minutes 1000) [laterFill] afterLaterFill ∧
    Reached (minutes 1000) afterLaterFill [laterFill] t log ∧
    (Recorded (minutes 1000) log t ↔ Retained (minutes 1000) log) ∧
      (∀ b e, Defined (minutes 1000) log b → updateMarketHistories (minutes 1000) b t = .error e →
        e = .thrown) ∧
        ∀ time now o,
          operationProcessFillOrder (minutes 1000) time now t o = .error .endDereferenced ↔
            ∀ f ∈ log, toLex f.op.market < toLex o.market := by
  obtain ⟨t, ht⟩ : ∃ t,
      updateMarketHistories (minutes 1000) (sampleBlock 120) afterLaterFill = .ok t :=
    exists_ok (by decide)
  have hreached : Reached (minutes 1000) afterLaterFill [laterFill] t _ :=
    .block .start (defined_sampleBlock (by decide) 120 (by simp) (by decide)) ht
  exact ⟨t, _, by decide, kept_afterLaterFill _, hreached,
    market_history (kept_afterLaterFill _) hreached⟩

/-- **The first fill of all** dereferences the end of the index; two buckets are kept where one may
be; and a size of zero divides by zero. -/
theorem market_history_fails :
    Kept (minutes 1000) [] ⟨.empty, .empty⟩ ∧
      updateMarketHistories (minutes 1000) (sampleBlock 120) ⟨.empty, .empty⟩ =
        .error .endDereferenced ∧
      (∃ t log, Reached (minutes 1) afterLaterFill [laterFill] t log ∧
        ¬Recorded (minutes 1) log t) ∧
      updateMarketHistories ⟨[0], by decide, 1000⟩ (sampleBlock 120) afterLaterFill =
        .error .divisionByZero := by
  refine ⟨kept_empty _, rfl, ?_, rfl⟩
  obtain ⟨t, ht⟩ : ∃ t, (do
      let t ← updateMarketHistories (minutes 1) (sampleBlock 120) afterLaterFill
      updateMarketHistories (minutes 1) (sampleBlock 180) t) = .ok t :=
    exists_ok (by decide)
  obtain ⟨t₁, hfirst, hsecond⟩ := bind_eq_ok.1 ht
  have hreached : Reached (minutes 1) afterLaterFill [laterFill] t _ :=
    .block (.block .start (defined_sampleBlock (by decide) 120 (by simp) (by decide)) hfirst)
      (defined_sampleBlock (by decide) 180 (by simp) (by decide)) hsecond
  refine ⟨t, _, hreached, fun hrecorded ↦ ?_⟩
  have hretained := (hreached.kept (kept_afterLaterFill _)).recorded_iff.1 hrecorded
  exact absurd (hretained ⟨1, 2, 60, 0⟩ (by decide) (by decide)) (by decide)

end Graphene.MarketHistory
