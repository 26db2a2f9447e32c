import Graphene.Lib.UpperMedian
import Graphene.Market.PriceOrder

/-!
# The median feed

The feeds that have been published for a market-issued asset are taken together field by field: of
those that are not too old, the one in the middle counts.

Each field is selected with `std::nth_element`, which only promises what is in the middle and leaves
the rest in some order; and the next selection starts from that order.  So what is proved of a
selection holds for every order that it may start from, and for every one that it may leave.

* `PublishedFeed` — a `price_feed`; `FeedData` — what the median is taken over.
* `FeedData.countedFeeds` — the feeds that are not too old.
* `FeedData.updateMedianFeeds` — the current feed is selected anew, a field at a time from the order
  that the field before has left the feeds in.
* `calculateMedianValue_spec` — what one selection yields.
* `median_feed_is_median` — each field of the current feed is the upper median.
-/

set_option autoImplicit false

namespace Graphene

/-! ## Feeds -/

/-- `price()`. -/
def Price.null : Price := ⟨⟨0, coreAsset⟩, ⟨0, coreAsset⟩⟩

/-- `price_feed`. -/
structure PublishedFeed extends PriceFeed where
  /-- `maintenance_collateral_ratio`. -/
  maintenanceCollateralRatio : ℕ
  /-- `core_exchange_rate`. -/
  coreExchangeRate : Price

/-- `price_feed()`. -/
def PublishedFeed.null : PublishedFeed where
  settlementPrice := .null
  maintenanceCollateralRatio := 1750
  maximumShortSqueezeRatio := 1500
  coreExchangeRate := .null

/-- A price of positive amounts, each of which is an `int64_t`. -/
def Price.Positive (p : Price) : Prop :=
  0 < p.base.amount ∧ 0 < p.quote.amount ∧ p.base.amount < 2 ^ 63 ∧ p.quote.amount < 2 ^ 63

instance (p : Price) : Decidable p.Positive := inferInstanceAs (Decidable (_ ∧ _ ∧ _ ∧ _))

/-- `asset_publish_feed_operation::validate` lets the prices of a feed pass. -/
def PublishedFeed.Admitted (feed : PublishedFeed) : Prop :=
  feed.settlementPrice.Positive ∧ feed.coreExchangeRate.Positive

instance (feed : PublishedFeed) : Decidable feed.Admitted := inferInstanceAs (Decidable (_ ∧ _))

/-- What an `asset_bitasset_data_object` says about feeds. -/
structure FeedData where
  /-- `feeds`: when each was published, and by whom. -/
  feeds : List (AccountId × ℕ × PublishedFeed)
  /-- `options.minimum_feeds`. -/
  minimumFeeds : ℕ
  /-- `options.feed_lifetime_sec`. -/
  feedLifetimeSec : ℕ
  /-- `current_feed`. -/
  currentFeed : PublishedFeed
  /-- `current_feed_publication_time`. -/
  currentFeedPublicationTime : ℕ

/-! ## The median -/

/-- `CALCULATE_MEDIAN_VALUE`: a field of the feed in the middle, and the feeds rearranged. -/
def calculateMedianValue {φ : Type*} (N : NthElement PublishedFeed) (field : PublishedFeed → φ)
    (less : φ → φ → Bool) (currentFeeds : List PublishedFeed) : Option (φ × List PublishedFeed) :=
  let middle := currentFeeds.length / 2
  let rearranged := N.run (fun a b ↦ less (field a) (field b)) middle currentFeeds
  rearranged[middle]?.map fun feed ↦ (field feed, rearranged)

/-- The medians of `GRAPHENE_PRICE_FEED_FIELDS`, one after the other. -/
def medianFeed (N : NthElement PublishedFeed) (currentFeeds : List PublishedFeed) :
    Option PublishedFeed := do
  let (settlementPrice, currentFeeds) ←
    calculateMedianValue N (·.settlementPrice) Price.lessUint128 currentFeeds
  let (maintenanceCollateralRatio, currentFeeds) ←
    calculateMedianValue N (·.maintenanceCollateralRatio) (fun a b ↦ a < b) currentFeeds
  let (maximumShortSqueezeRatio, currentFeeds) ←
    calculateMedianValue N (·.maximumShortSqueezeRatio) (fun a b ↦ a < b) currentFeeds
  let (coreExchangeRate, _) ←
    calculateMedianValue N (·.coreExchangeRate) Price.lessUint128 currentFeeds
  return { settlementPrice, maximumShortSqueezeRatio, maintenanceCollateralRatio, coreExchangeRate }

/-- A feed that is alone is taken as it is. -/
def selectFeed (N : NthElement PublishedFeed) : List PublishedFeed → Option PublishedFeed
  | [feed] => some feed
  | currentFeeds => medianFeed N currentFeeds

namespace FeedData

variable (d : FeedData) (currentTime : ℕ)

/-- The feeds that are younger than the lifetime and have been published at all. -/
def countedFeeds : List (AccountId × ℕ × PublishedFeed) :=
  d.feeds.filter fun f ↦ (currentTime : ℤ) - f.2.1 < d.feedLifetimeSec ∧ f.2.1 ≠ 0

/-- The current time, or that of the oldest feed that counts. -/
def publicationTime : ℕ :=
  (d.countedFeeds currentTime).foldl (fun oldest f ↦ min oldest f.2.1) currentTime

/-- `update_median_feeds`.  There is always a feed in the middle unless none are enough. -/
def updateMedianFeeds (N : NthElement PublishedFeed) : Option FeedData :=
  let currentFeeds := (d.countedFeeds currentTime).map fun f ↦ f.2.2
  if currentFeeds.length < d.minimumFeeds then
    some { d with currentFeed := .null, currentFeedPublicationTime := currentTime }
  else
    (selectFeed N currentFeeds).map fun feed ↦
      { d with
        currentFeed := feed
        currentFeedPublicationTime := d.publicationTime currentTime }

end FeedData

/-! ## One selection -/

/-- A field has the upper median of the values that the feeds give it: it is what one of them says,
it is in the middle, and it lies within the range of any strict majority. -/
def FieldIsMedian {φ κ : Type*} [LinearOrder κ] (field : PublishedFeed → φ) (key : φ → κ)
    (feeds : List PublishedFeed) (m : φ) : Prop :=
  (∃ feed ∈ feeds, field feed = m) ∧ IsUpperMedian (feeds.map fun f ↦ key (field f)) (key m) ∧
    ∀ majority : List PublishedFeed, majority.Subperm feeds →
      feeds.length < 2 * majority.length →
      (∃ a ∈ majority, key (field a) ≤ key m) ∧ ∃ b ∈ majority, key m ≤ key (field b)

section Selection

variable {φ κ : Type*} [LinearOrder κ] {field : PublishedFeed → φ} {key : φ → κ}
  {less : φ → φ → Bool} {feeds : List PublishedFeed}

theorem FieldIsMedian.of_isUpperMedian {m : φ} (hm : ∃ feed ∈ feeds, field feed = m)
    (h : IsUpperMedian (feeds.map fun f ↦ key (field f)) (key m)) :
    FieldIsMedian field key feeds m := by
  refine ⟨hm, h, fun majority hsub hlength ↦ ?_⟩
  have hsub' : (majority.map fun f ↦ key (field f)).Subperm (feeds.map fun f ↦ key (field f)) := by
    obtain ⟨l, hperm, hl⟩ := hsub
    exact ⟨_, hperm.map _, hl.map _⟩
  obtain ⟨⟨x, hx, hle⟩, y, hy, hge⟩ := h.majority hsub' (by simpa using hlength)
  obtain ⟨a, ha, rfl⟩ := List.mem_map.1 hx
  obtain ⟨b, hb, rfl⟩ := List.mem_map.1 hy
  exact ⟨⟨a, ha, hle⟩, b, hb, hge⟩

/-- The order of the feeds plays no role. -/
theorem FieldIsMedian.perm {feeds' : List PublishedFeed} {m : φ}
    (h : FieldIsMedian field key feeds m) (hperm : feeds.Perm feeds') :
    FieldIsMedian field key feeds' m := by
  obtain ⟨⟨feed, hfeed, rfl⟩, hm, -⟩ := h
  refine .of_isUpperMedian ⟨feed, hperm.mem_iff.1 hfeed, rfl⟩ ?_
  have := RankedAt.perm hm (hperm.map fun f ↦ key (field f))
  rwa [List.length_map, hperm.length_eq, ← List.length_map (fun f ↦ key (field f))] at this

/-- **One selection** yields the upper median, and rearranges the feeds. -/
theorem calculateMedianValue_spec (N : NthElement PublishedFeed) (field : PublishedFeed → φ)
    (less : φ → φ → Bool) (key : φ → κ) (hne : feeds ≠ [])
    (h : ∀ a ∈ feeds, ∀ b ∈ feeds, less (field a) (field b) = true ↔
      key (field a) < key (field b)) :
    ∃ m feeds', calculateMedianValue N field less feeds = some (m, feeds') ∧
      feeds'.Perm feeds ∧ FieldIsMedian field key feeds m := by
  have hn : feeds.length / 2 < feeds.length := by
    have := List.length_pos_of_ne_nil hne
    omega
  obtain ⟨feed, hfeed, hget, hrank⟩ := N.rankedAt (fun f ↦ key (field f)) h hn
  refine ⟨field feed, _, by rw [calculateMedianValue, hget]; rfl, N.perm _ _ _, ?_⟩
  refine .of_isUpperMedian ⟨feed, hfeed, rfl⟩ ?_
  rwa [IsUpperMedian, List.length_map]

/-- A feed that is alone is in the middle. -/
theorem FieldIsMedian.singleton (feed : PublishedFeed) :
    FieldIsMedian field key [feed] (field feed) :=
  .of_isUpperMedian ⟨feed, List.mem_singleton_self feed, rfl⟩
    ⟨_, .refl _, List.pairwise_singleton _ _, by
      rw [List.map_cons, List.map_nil, List.length_singleton, Nat.div_eq_of_lt one_lt_two,
        List.getElem?_cons_zero]⟩

end Selection

/-! ## All fields -/

/-- Each field of a feed is the upper median. -/
structure IsMedianFeed (feeds : List PublishedFeed) (m : PublishedFeed) : Prop where
  /-- `settlement_price`. -/
  settlementPrice : FieldIsMedian (·.settlementPrice) Price.orderKey feeds m.settlementPrice
  /-- `maintenance_collateral_ratio`. -/
  maintenanceCollateralRatio :
    FieldIsMedian (·.maintenanceCollateralRatio) id feeds m.maintenanceCollateralRatio
  /-- `maximum_short_squeeze_ratio`. -/
  maximumShortSqueezeRatio :
    FieldIsMedian (·.maximumShortSqueezeRatio) id feeds m.maximumShortSqueezeRatio
  /-- `core_exchange_rate`. -/
  coreExchangeRate : FieldIsMedian (·.coreExchangeRate) Price.orderKey feeds m.coreExchangeRate

/-- Prices of positive amounts are compared by their keys. -/
theorem Price.Positive.lessUint128_iff {p q : Price} (hp : p.Positive) (hq : q.Positive) :
    p.lessUint128 q = true ↔ p.orderKey < q.orderKey := by
  obtain ⟨hbase, hquote, hbase', hquote'⟩ := hp
  obtain ⟨hbase₂, hquote₂, hbase₂', hquote₂'⟩ := hq
  exact PositivePrice.less_iff_orderKey ⟨p, hbase, hquote, hbase', hquote'⟩
    ⟨q, hbase₂, hquote₂, hbase₂', hquote₂'⟩

theorem medianFeed_spec (N : NthElement PublishedFeed) {feeds : List PublishedFeed}
    (hne : feeds ≠ []) (hadmitted : ∀ f ∈ feeds, f.Admitted) :
    ∃ m, medianFeed N feeds = some m ∧ IsMedianFeed feeds m := by
  -- Each selection works on what the one before has left, which is the same feeds.
  obtain ⟨price, feeds₁, hprice, hperm₁, hmprice⟩ := calculateMedianValue_spec N
    (·.settlementPrice) Price.lessUint128 Price.orderKey hne
    fun a ha b hb ↦ (hadmitted a ha).1.lessUint128_iff (hadmitted b hb).1
  have hne₁ : feeds₁ ≠ [] := fun h ↦ hne (List.nil_perm.1 (h ▸ hperm₁))
  obtain ⟨mcr, feeds₂, hmcr, hperm₂, hmmcr⟩ := calculateMedianValue_spec N
    (·.maintenanceCollateralRatio) (fun a b ↦ a < b) id hne₁
    fun a _ b _ ↦ decide_eq_true_iff
  have hne₂ : feeds₂ ≠ [] := fun h ↦ hne₁ (List.nil_perm.1 (h ▸ hperm₂))
  obtain ⟨mssr, feeds₃, hmssr, hperm₃, hmmssr⟩ := calculateMedianValue_spec N
    (·.maximumShortSqueezeRatio) (fun a b ↦ a < b) id hne₂
    fun a _ b _ ↦ decide_eq_true_iff
  have hne₃ : feeds₃ ≠ [] := fun h ↦ hne₂ (List.nil_perm.1 (h ▸ hperm₃))
  have hperm : feeds₃.Perm feeds := (hperm₃.trans hperm₂).trans hperm₁
  have hadmitted₃ : ∀ f ∈ feeds₃, f.Admitted := fun f hf ↦ hadmitted f (hperm.mem_iff.1 hf)
  obtain ⟨rate, feeds₄, hrate, -, hmrate⟩ := calculateMedianValue_spec N
    (·.coreExchangeRate) Price.lessUint128 Price.orderKey hne₃
    fun a ha b hb ↦ (hadmitted₃ a ha).2.lessUint128_iff (hadmitted₃ b hb).2
  refine ⟨⟨⟨price, mssr⟩, mcr, rate⟩, ?_, hmprice, hmmcr.perm hperm₁,
    hmmssr.perm (hperm₂.trans hperm₁), hmrate.perm hperm⟩
  rw [medianFeed, hprice]
  simp only [Option.bind_eq_bind, Option.bind_some, hmcr, hmssr, hrate]
  rfl

theorem selectFeed_spec (N : NthElement PublishedFeed) {feeds : List PublishedFeed}
    (hne : feeds ≠ []) (hadmitted : ∀ f ∈ feeds, f.Admitted) :
    ∃ m, selectFeed N feeds = some m ∧ IsMedianFeed feeds m := by
  match feeds with
  | [] => exact absurd rfl hne
  | [feed] => exact ⟨feed, rfl, .singleton feed, .singleton feed, .singleton feed, .singleton feed⟩
  | _ :: _ :: _ => exact medianFeed_spec N hne hadmitted

/-! ## The current feed -/

namespace FeedData

variable {d : FeedData} {currentTime : ℕ}

/-- The oldest time of so many feeds and of the current time. -/
theorem isLeast_foldl (feeds : List (AccountId × ℕ × PublishedFeed)) (currentTime : ℕ) :
    IsLeast {t | t = currentTime ∨ ∃ f ∈ feeds, f.2.1 = t}
      (feeds.foldl (fun oldest f ↦ min oldest f.2.1) currentTime) := by
  induction feeds generalizing currentTime with
  | nil =>
    refine ⟨.inl rfl, ?_⟩
    rintro t (rfl | ⟨f, hf, -⟩)
    · exact le_rfl
    · cases hf
  | cons f feeds ih =>
    rw [List.foldl_cons]
    obtain ⟨hmem, hle⟩ := ih (min currentTime f.2.1)
    have hmin := hle (.inl rfl)
    refine ⟨?_, ?_⟩
    · rcases hmem with heq | ⟨g, hg, heq⟩
      · rcases le_total currentTime f.2.1 with h | h
        · exact .inl (heq.trans (min_eq_left h))
        · exact .inr ⟨f, List.mem_cons_self, (heq.trans (min_eq_right h)).symm⟩
      · exact .inr ⟨g, List.mem_cons_of_mem f hg, heq⟩
    · rintro t (rfl | ⟨g, hg, rfl⟩)
      · exact hmin.trans (min_le_left _ _)
      · rcases List.mem_cons.1 hg with rfl | hg
        · exact hmin.trans (min_le_right _ _)
        · exact hle (.inr ⟨g, hg, rfl⟩)

theorem publicationTime_isLeast (d : FeedData) (currentTime : ℕ) :
    IsLeast {t | t = currentTime ∨ ∃ f ∈ d.countedFeeds currentTime, f.2.1 = t}
      (d.publicationTime currentTime) :=
  isLeast_foldl _ _

theorem mem_countedFeeds {f : AccountId × ℕ × PublishedFeed} :
    f ∈ d.countedFeeds currentTime ↔
      f ∈ d.feeds ∧ (currentTime : ℤ) - f.2.1 < d.feedLifetimeSec ∧ f.2.1 ≠ 0 := by
  rw [countedFeeds, List.mem_filter, decide_eq_true_iff]

end FeedData

/-- **The current feed is the median** of the feeds that count, field by field; it is the null feed
where too few count.  Its publication time is the oldest of those that count, or the current time
where none of them is from before it. -/
theorem median_feed_is_median (N : NthElement PublishedFeed) (d : FeedData) (currentTime : ℕ)
    (hminimum : 1 ≤ d.minimumFeeds)
    (hadmitted : ∀ f ∈ d.countedFeeds currentTime, f.2.2.Admitted) :
    ∃ d', d.updateMedianFeeds currentTime N = some d' ∧
      (∀ f ∈ d.countedFeeds currentTime,
        f ∈ d.feeds ∧ (currentTime : ℤ) - f.2.1 < d.feedLifetimeSec) ∧
      ((d.countedFeeds currentTime).length < d.minimumFeeds →
        d'.currentFeed = .null ∧ d'.currentFeedPublicationTime = currentTime) ∧
      (d.minimumFeeds ≤ (d.countedFeeds currentTime).length →
        IsMedianFeed ((d.countedFeeds currentTime).map fun f ↦ f.2.2) d'.currentFeed ∧
          IsLeast {t | t = currentTime ∨ ∃ f ∈ d.countedFeeds currentTime, f.2.1 = t}
            d'.currentFeedPublicationTime ∧
          ((∃ f ∈ d.countedFeeds currentTime, f.2.1 ≤ currentTime) →
            IsLeast {t | ∃ f ∈ d.countedFeeds currentTime, f.2.1 = t}
              d'.currentFeedPublicationTime)) := by
  have hcounted : ∀ f ∈ d.countedFeeds currentTime,
      f ∈ d.feeds ∧ (currentTime : ℤ) - f.2.1 < d.feedLifetimeSec := by
    intro f hf
    obtain ⟨hmem, hyoung, -⟩ := FeedData.mem_countedFeeds.1 hf
    exact ⟨hmem, hyoung⟩
  by_cases hfew : (d.countedFeeds currentTime).length < d.minimumFeeds
  · refine ⟨{ d with currentFeed := .null, currentFeedPublicationTime := currentTime }, ?_,
      hcounted, fun _ ↦ ⟨rfl, rfl⟩, fun henough ↦ absurd hfew henough.not_gt⟩
    exact if_pos (by rwa [List.length_map])
  · have hne : ((d.countedFeeds currentTime).map fun f ↦ f.2.2) ≠ [] := by
      refine List.ne_nil_of_length_pos ?_
      rw [List.length_map]
      omega
    obtain ⟨feed, hfeed, hmedian⟩ := selectFeed_spec N hne fun f hf ↦ by
      obtain ⟨g, hg, rfl⟩ := List.mem_map.1 hf
      exact hadmitted g hg
    have hleast := d.publicationTime_isLeast currentTime
    refine ⟨{ d with
        currentFeed := feed
        currentFeedPublicationTime := d.publicationTime currentTime }, ?_, hcounted,
      fun h ↦ absurd h hfew, fun _ ↦ ⟨hmedian, hleast, ?_⟩⟩
    · rw [FeedData.updateMedianFeeds, if_neg (by rwa [List.length_map]), hfeed, Option.map_some]
    · rintro ⟨f, hf, hpast⟩
      refine ⟨?_, fun t ht ↦ hleast.2 (.inr ht)⟩
      rcases hleast.1 with hnow | hcount
      · -- The current time is the least one, so that `f` is of this time, too.
        exact ⟨f, hf, le_antisymm (hpast.trans_eq hnow.symm) (hleast.2 (.inr ⟨f, hf, rfl⟩))⟩
      · exact hcount

/-- One core for two, and more collateral from feed to feed. -/
def sampleFeed (ratio : ℕ) : PublishedFeed where
  settlementPrice := ⟨⟨1, 1⟩, ⟨2, coreAsset⟩⟩
  maximumShortSqueezeRatio := 1500
  maintenanceCollateralRatio := ratio
  coreExchangeRate := ⟨⟨1, 1⟩, ⟨2, coreAsset⟩⟩

/-- Two feeds that count, one that is too old, and the default of a producer without one. -/
def sampleFeedData : FeedData where
  feeds := [(1, 990, sampleFeed 1900), (2, 980, sampleFeed 1750), (3, 10, sampleFeed 1600),
    (4, 0, .null)]
  minimumFeeds := 2
  feedLifetimeSec := 100
  currentFeed := .null
  currentFeedPublicationTime := 0

theorem median_feed_sample :
    ∃ d', sampleFeedData.updateMedianFeeds 1000 .bySorting = some d' ∧
      d'.currentFeed.maintenanceCollateralRatio ≥ 1750 ∧ d'.currentFeedPublicationTime = 980 := by
  obtain ⟨d', hupdate, -, -, hcount⟩ :=
    median_feed_is_median .bySorting sampleFeedData 1000 (by decide) (by decide)
  obtain ⟨hmedian, hleast, -⟩ := hcount (by decide)
  obtain ⟨⟨f, hf, heq⟩, -, -⟩ := hmedian.maintenanceCollateralRatio
  refine ⟨d', hupdate, ?_, ?_⟩
  · have hcounted : ∀ f ∈ (sampleFeedData.countedFeeds 1000).map fun f ↦ f.2.2,
        f.maintenanceCollateralRatio ≥ 1750 := by decide
    exact heq ▸ hcounted f hf
  · have hmem : (2, 980, sampleFeed 1750) ∈ sampleFeedData.countedFeeds 1000 :=
      FeedData.mem_countedFeeds.2
        ⟨List.mem_cons_of_mem _ List.mem_cons_self, by decide, by decide⟩
    refine hleast.unique ⟨.inr ⟨_, hmem, rfl⟩, ?_⟩
    rintro t (rfl | ⟨f, hf, rfl⟩)
    · decide
    · exact (by decide : ∀ f ∈ sampleFeedData.countedFeeds 1000, 980 ≤ f.2.1) f hf

/-- One feed that is published in the future. -/
def futureFeedData : FeedData where
  feeds := [(1, 100, sampleFeed 1750)]
  minimumFeeds := 1
  feedLifetimeSec := 86400
  currentFeed := .null
  currentFeedPublicationTime := 0

/-- A feed from the future counts, and the publication time is the current time all the same. -/
theorem median_feed_future :
    (futureFeedData.countedFeeds 50).map (fun f ↦ f.2.1) = [100] ∧
      ∃ d', futureFeedData.updateMedianFeeds 50 .bySorting = some d' ∧
        d'.currentFeedPublicationTime = 50 :=
  ⟨by decide, _, rfl, rfl⟩

end Graphene
