import Graphene.Market.AssetUpdates

/-!
# Which price feeds count

Feeds come and go, and expire.  The median is taken anew when the feeds are changed, when another
number of them is asked for, and at the end of the block in which the oldest one that it was taken
over expires.  This file says what that comes to.

* `Bitasset.basis` — the feeds that the current feed was taken from.
* `Bitasset.Turns` — what becomes of a market-issued asset.
* `feeds_unexpired` — at the end of a block, no feed that has expired counts.
* `feeds_current` — nor is there another that should count, unless the lifetime of feeds has been
  made longer.
-/

set_option autoImplicit false

namespace Graphene

open Transitions

variable {N : NthElement PublishedFeed}

/-! ## What the current feed is taken from -/

namespace Bitasset

/-- The feeds that have been published since the time that the current feed is of. -/
def basis (b : Bitasset) : List (AccountId × ℕ × PublishedFeed) :=
  b.feeds.filter fun f ↦ b.currentFeedPublicationTime ≤ f.2.1 ∧ f.2.1 ≠ 0

/-- The current feed is the median of them, if there is one. -/
def Based (N : NthElement PublishedFeed) (b : Bitasset) : Prop :=
  b.currentFeed = .null ∨
    b.basis ≠ [] ∧ selectFeed N (b.basis.map fun f ↦ f.2.2) = some b.currentFeed

/-- What is known of the feeds: they are from the past, and were published, with prices, before the
fork. -/
structure FeedsOk (now : ℕ) (b : Bitasset) : Prop where
  /-- From the past. -/
  past : ∀ f ∈ b.feeds, f.2.1 ≤ now
  /-- With prices. -/
  admitted : ∀ f ∈ b.feeds, f.2.1 ≠ 0 → f.2.2.Admitted
  /-- Before the fork. -/
  early : ∀ f ∈ b.feeds, f.2.1 ≠ 0 → f.2.1 < hardfork1Time
  /-- `minimum_feeds`. -/
  minimumFeeds_pos : 0 < b.options.minimumFeeds

/-- The feeds that are young enough. -/
def counted (b : Bitasset) (now : ℕ) : List (AccountId × ℕ × PublishedFeed) :=
  b.feedData.countedFeeds now

theorem mem_counted {b : Bitasset} {now : ℕ} {f : AccountId × ℕ × PublishedFeed} :
    f ∈ b.counted now ↔
      f ∈ b.feeds ∧ (now : ℤ) - f.2.1 < b.options.feedLifetimeSec ∧ f.2.1 ≠ 0 :=
  FeedData.mem_countedFeeds

theorem mem_basis {b : Bitasset} {f : AccountId × ℕ × PublishedFeed} :
    f ∈ b.basis ↔ f ∈ b.feeds ∧ b.currentFeedPublicationTime ≤ f.2.1 ∧ f.2.1 ≠ 0 := by
  rw [basis, List.mem_filter, decide_eq_true_iff]

/-- Which feeds count depends on the feeds and on the options. -/
theorem counted_congr {b b' : Bitasset} (hfeeds : b'.feeds = b.feeds)
    (hoptions : b'.options = b.options) (now : ℕ) : b'.counted now = b.counted now := by
  rw [counted, counted, FeedData.countedFeeds, FeedData.countedFeeds, feedData, feedData, hfeeds,
    hoptions]

theorem FeedsOk.later {b : Bitasset} {now later : ℕ} (h : b.FeedsOk now) (hle : now ≤ later) :
    b.FeedsOk later :=
  ⟨fun f hf ↦ (h.past f hf).trans hle, h.admitted, h.early, h.minimumFeeds_pos⟩

/-- The median anew, where too few feeds count. -/
theorem updateMedianFeeds_of_few {b : Bitasset} {now : ℕ}
    (h : (b.counted now).length < b.options.minimumFeeds) :
    b.updateMedianFeeds N now =
      { b with currentFeed := .null, currentFeedPublicationTime := now } := by
  have hupdate : b.feedData.updateMedianFeeds now N = some
      { b.feedData with currentFeed := .null, currentFeedPublicationTime := now } := by
    rw [FeedData.updateMedianFeeds]
    exact if_pos (by rw [List.length_map]; exact h)
  rw [Bitasset.updateMedianFeeds, hupdate]

/-- The median anew, where enough of them do. -/
theorem FeedsOk.updateMedianFeeds_of_enough {b : Bitasset} {now : ℕ} (h : b.FeedsOk now)
    (henough : b.options.minimumFeeds ≤ (b.counted now).length) :
    ∃ feed, selectFeed N ((b.counted now).map fun f ↦ f.2.2) = some feed ∧
      b.updateMedianFeeds N now =
        { b with
          currentFeed := feed
          currentFeedPublicationTime := b.feedData.publicationTime now } := by
  have hne : (b.counted now).map (fun f ↦ f.2.2) ≠ [] := by
    refine List.ne_nil_of_length_pos ?_
    rw [List.length_map]
    exact h.minimumFeeds_pos.trans_le henough
  obtain ⟨feed, hselect, -⟩ := selectFeed_spec N hne fun feed hfeed ↦ by
    obtain ⟨f, hf, rfl⟩ := List.mem_map.1 hfeed
    obtain ⟨hmem, -, hpublished⟩ := mem_counted.1 hf
    exact h.admitted f hmem hpublished
  have hupdate : b.feedData.updateMedianFeeds now N = some
      { b.feedData with
        currentFeed := feed
        currentFeedPublicationTime := b.feedData.publicationTime now } := by
    rw [FeedData.updateMedianFeeds]
    refine (if_neg (by rw [List.length_map]; exact not_lt.2 henough)).trans ?_
    rw [show selectFeed N ((b.feedData.countedFeeds now).map fun f ↦ f.2.2) = some feed from
      hselect]
    rfl
  exact ⟨feed, hselect, by rw [Bitasset.updateMedianFeeds, hupdate]⟩

/-- The oldest feed that counts is as young as it has to be, so that those after it are, too. -/
theorem FeedsOk.publicationTime_le_iff {b : Bitasset} {now : ℕ} (h : b.FeedsOk now)
    (hcounted : b.counted now ≠ []) {f : AccountId × ℕ × PublishedFeed} (hf : f ∈ b.feeds)
    (hpublished : f.2.1 ≠ 0) :
    b.feedData.publicationTime now ≤ f.2.1 ↔ (now : ℤ) - f.2.1 < b.options.feedLifetimeSec := by
  obtain ⟨hmem, hle⟩ := b.feedData.publicationTime_isLeast now
  have hpast := h.past f hf
  constructor
  · intro hsince
    rcases hmem with hnow | ⟨g, hg, hgtime⟩
    · obtain ⟨g, hg⟩ := List.exists_mem_of_ne_nil (b.counted now) hcounted
      obtain ⟨hgmem, hyoung, -⟩ := mem_counted.1 hg
      have hgpast := h.past g hgmem
      omega
    · obtain ⟨-, hyoung, -⟩ := mem_counted.1 hg
      omega
  · intro hyoung
    exact hle (.inr ⟨f, mem_counted.2 ⟨hf, hyoung, hpublished⟩, rfl⟩)

/-- **The median anew**: null, where too few feeds count, or taken from those that do. -/
theorem FeedsOk.updateMedianFeeds {b : Bitasset} {now : ℕ} (h : b.FeedsOk now) :
    (b.updateMedianFeeds N now).feeds = b.feeds ∧
      (b.updateMedianFeeds N now).options = b.options ∧
      ((b.counted now).length < b.options.minimumFeeds ∧
          (b.updateMedianFeeds N now).currentFeed = .null ∨
        b.options.minimumFeeds ≤ (b.counted now).length ∧
          (b.updateMedianFeeds N now).basis = b.counted now ∧
          selectFeed N ((b.counted now).map fun f ↦ f.2.2) =
            some (b.updateMedianFeeds N now).currentFeed) := by
  rcases Nat.lt_or_ge (b.counted now).length b.options.minimumFeeds with hfew | henough
  · rw [updateMedianFeeds_of_few hfew]
    exact ⟨rfl, rfl, .inl ⟨hfew, rfl⟩⟩
  · obtain ⟨feed, hselect, hupdate⟩ := h.updateMedianFeeds_of_enough (N := N) henough
    rw [hupdate]
    refine ⟨rfl, rfl, .inr ⟨henough, ?_, hselect⟩⟩
    have hne := List.ne_nil_of_length_pos (h.minimumFeeds_pos.trans_le henough)
    exact List.filter_congr fun f hf ↦ decide_eq_decide.2
      (and_congr_left fun hpublished ↦ h.publicationTime_le_iff hne hf hpublished)

/-! ## What becomes of it -/

/-- What becomes of the feeds of an asset, and of those that count. -/
inductive Turns (N : NthElement PublishedFeed) (s : AssetChain) (b : Bitasset) :
    AssetEvent → ℕ → Bitasset → Prop where
  /-- Nothing, but for what it is settled at. -/
  | kept {e : AssetEvent} (he : e ≠ .updateExpiredFeeds) (p : Price) :
      Turns N s b e s.headBlockTime { b with settlementPrice := p }
  /-- It is given options that ask for as many feeds as before. -/
  | options {op : AssetUpdateBitasset} {a : IssuedAsset}
      (ha : s.assets op.assetToUpdate = some a) (hb : a.bitasset = some b)
      (hminimum : op.newOptions.minimumFeeds = b.options.minimumFeeds) :
      Turns N s b (.operation (.updateBitasset op)) s.headBlockTime
        { b with options := op.newOptions }
  /-- The median is taken anew. -/
  | anew {e : AssetEvent} {now : ℕ} {b' : Bitasset}
      (hok : b.FeedsOk s.headBlockTime → b'.FeedsOk now) :
      Turns N s b e now (b'.updateMedianFeeds N now)
  /-- Time passes. -/
  | later {time : ℕ} (hlt : s.headBlockTime < time) :
      Turns N s b (.updateGlobalDynamicData time) time b
  /-- A block ends before the current feed has expired. -/
  | unexpired (h : b.feedIsExpired s.headBlockTime = false) :
      Turns N s b .updateExpiredFeeds s.headBlockTime b

end Bitasset

/-! ## Feeds that are published -/

theorem mem_setFeed {f g : AccountId × ℕ × PublishedFeed}
    {feeds : List (AccountId × ℕ × PublishedFeed)} (h : g ∈ setFeed f feeds) :
    g = f ∨ g ∈ feeds := by
  induction feeds with
  | nil => exact .inl (List.mem_singleton.1 h)
  | cons g' feeds ih =>
    rw [setFeed] at h
    split_ifs at h
    · exact List.mem_cons.1 h
    · rcases List.mem_cons.1 h with rfl | hmem
      · exact .inl rfl
      · exact .inr (List.mem_cons_of_mem g' hmem)
    · rcases List.mem_cons.1 h with rfl | hmem
      · exact .inr List.mem_cons_self
      · exact (ih hmem).imp id (List.mem_cons_of_mem g')

theorem mem_foldl_addProducer {producers : List AccountId} {g : AccountId × ℕ × PublishedFeed}
    {feeds : List (AccountId × ℕ × PublishedFeed)} (h : g ∈ producers.foldl addProducer feeds) :
    g.2.1 = 0 ∨ g ∈ feeds := by
  induction producers generalizing feeds with
  | nil => exact .inr h
  | cons p producers ih =>
    rcases ih h with hzero | hmem
    · exact .inl hzero
    · rw [addProducer] at hmem
      split_ifs at hmem
      · exact .inr hmem
      · rcases mem_setFeed hmem with rfl | hmem
        · exact .inl rfl
        · exact .inr hmem

/-- What `validate` lets pass has prices of positive amounts. -/
theorem AssetPublishFeed.admitted {op : AssetPublishFeed} (h : op.Valid) : op.feed.Admitted := by
  obtain ⟨⟨hsettlement, -⟩, hrate, -, hsettlement', hrate', -⟩ := h
  obtain ⟨hbase, hquote, -⟩ := hsettlement hsettlement'
  obtain ⟨hbase', hquote', -⟩ := hrate hrate'
  exact ⟨⟨hbase, hquote, op.settlementPrice_fits.1.2, op.settlementPrice_fits.2.2⟩,
    hbase', hquote', op.coreExchangeRate_fits.1.2, op.coreExchangeRate_fits.2.2⟩

/-- The time after something has happened. -/
def AssetEvent.timeAfter (now : ℕ) : AssetEvent → ℕ
  | .updateGlobalDynamicData time => time
  | _ => now

theorem AssetChain.headBlockTime_step {s s' : AssetChain} {e : AssetEvent}
    (h : s.step N e = some s') : s'.headBlockTime = e.timeAfter s.headBlockTime := by
  cases e with
  | operation op =>
    obtain ⟨-, a, a', -, -, rfl⟩ := AssetOperation.apply_eq_some.1 h
    rfl
  | updateGlobalDynamicData time =>
    obtain ⟨-, rfl⟩ := AssetChain.step_updateGlobalDynamicData.1 h
    rfl
  | updateExpiredFeeds =>
    obtain rfl := Option.some.inj h
    rfl
  | other o =>
    obtain rfl := Option.some.inj h
    rfl

/-- **What becomes of a market-issued asset**, in these terms. -/
theorem IssuedAsset.Becomes.turns {s : AssetChain} {id : AssetId} {e : AssetEvent}
    {a a' : IssuedAsset} {b' : Bitasset} (ha : s.assets id = some a) (h : a.Becomes N s id e a')
    (hb' : a'.bitasset = some b') :
    ∃ b, a.bitasset = some b ∧ b.Turns N s e (e.timeAfter s.headBlockTime) b' := by
  cases h with
  | @rewritten op _ hvalid hid hrewrite =>
    cases op with
    | update op =>
      obtain ⟨_, -, rfl⟩ := Option.map_eq_some_iff.1 hrewrite
      exact ⟨b', hb', .kept (by simp) b'.settlementPrice⟩
    | updateBitasset op =>
      obtain ⟨b, hevaluate, rfl⟩ := Option.map_eq_some_iff.1 hrewrite
      obtain ⟨-, hb, -⟩ := AssetUpdateBitasset.doEvaluate_eq_some.1 hevaluate
      obtain rfl := Option.some.inj hb'
      refine ⟨b, hb, ?_⟩
      by_cases hminimum : op.newOptions.minimumFeeds = b.options.minimumFeeds
      · rw [if_neg (not_not.2 hminimum)]
        obtain rfl : op.assetToUpdate = id := hid
        exact .options ha hb hminimum
      · rw [if_pos hminimum]
        exact .anew fun hok ↦ ⟨hok.past, hok.admitted, hok.early, hvalid.1⟩
    | updateFeedProducers op =>
      obtain ⟨b, hevaluate, rfl⟩ := Option.map_eq_some_iff.1 hrewrite
      obtain ⟨-, -, -, hb, -⟩ := AssetUpdateFeedProducers.doEvaluate_eq_some.1 hevaluate
      obtain rfl := Option.some.inj hb'
      refine ⟨b, hb, .anew fun hok ↦ ?_⟩
      have hmem : ∀ f ∈ op.newFeeds b, f.2.1 = 0 ∨ f ∈ b.feeds := fun f hf ↦
        (mem_foldl_addProducer hf).imp_right List.mem_of_mem_filter
      refine ⟨fun f hf ↦ ?_, fun f hf hne ↦ ?_, fun f hf hne ↦ ?_, hok.minimumFeeds_pos⟩
      · rcases hmem f hf with hzero | hold
        · rw [hzero]
          exact Nat.zero_le _
        · exact hok.past f hold
      · exact hok.admitted f ((hmem f hf).resolve_left hne) hne
      · exact hok.early f ((hmem f hf).resolve_left hne) hne
    | publishFeed op =>
      obtain ⟨b, hevaluate, rfl⟩ := Option.map_eq_some_iff.1 hrewrite
      obtain ⟨hfork, hb, -⟩ := AssetPublishFeed.doEvaluate_eq_some.1 hevaluate
      obtain rfl := Option.some.inj hb'
      refine ⟨b, hb, .anew fun hok ↦ ?_⟩
      refine ⟨fun f hf ↦ ?_, fun f hf hne ↦ ?_, fun f hf hne ↦ ?_, hok.minimumFeeds_pos⟩
      all_goals rcases mem_setFeed hf with rfl | hold
      · exact le_rfl
      · exact hok.past f hold
      · exact AssetPublishFeed.admitted hvalid
      · exact hok.admitted f hold hne
      · exact hfork
      · exact hok.early f hold hne
  | kept => exact ⟨b', hb', .kept (by simp) b'.settlementPrice⟩
  | updateGlobalDynamicData hlt => exact ⟨b', hb', .later hlt⟩
  | updateExpiredFeeds =>
    rw [IssuedAsset.updateExpiredFeeds] at hb'
    split at hb'
    next hnone =>
      rw [hnone] at hb'
      cases hb'
    next b hb =>
      obtain rfl := Option.some.inj hb'
      refine ⟨b, hb, ?_⟩
      cases hexpired : b.feedIsExpired s.headBlockTime with
      | true =>
        rw [if_pos rfl]
        exact .anew fun hok ↦ hok
      | false =>
        rw [if_neg (by simp)]
        exact .unexpired hexpired
  | other =>
    obtain ⟨b, hb, rfl⟩ := Option.map_eq_some_iff.1 hb'
    exact ⟨b, hb, .kept (by simp) _⟩

/-! ## What holds of it -/

namespace Bitasset

variable {s : AssetChain} {e : AssetEvent} {b b' : Bitasset} {now time : ℕ}

theorem Turns.feedsOk (h : b.Turns N s e now b') (hok : b.FeedsOk s.headBlockTime) :
    b'.FeedsOk now := by
  cases h with
  | kept => exact ⟨hok.past, hok.admitted, hok.early, hok.minimumFeeds_pos⟩
  | options _ _ hminimum =>
    exact ⟨hok.past, hok.admitted, hok.early, hminimum ▸ hok.minimumFeeds_pos⟩
  | anew hnew =>
    have hok' := hnew hok
    obtain ⟨hfeeds, hoptions, -⟩ := hok'.updateMedianFeeds (N := N)
    refine ⟨?_, ?_, ?_, hoptions ▸ hok'.minimumFeeds_pos⟩ <;> rw [hfeeds]
    · exact hok'.past
    · exact hok'.admitted
    · exact hok'.early
  | later hlt => exact hok.later hlt.le
  | unexpired => exact hok

theorem Turns.based (h : b.Turns N s e now b') (hok : b.FeedsOk s.headBlockTime)
    (hbased : b.Based N) : b'.Based N := by
  cases h with
  | kept => exact hbased
  | options => exact hbased
  | anew hnew =>
    have hok' := hnew hok
    obtain ⟨-, -, ⟨-, hnull⟩ | ⟨henough, hbasis, hselect⟩⟩ := hok'.updateMedianFeeds (N := N)
    · exact .inl hnull
    · refine .inr ⟨?_, hbasis ▸ hselect⟩
      rw [hbasis]
      exact List.ne_nil_of_length_pos (hok'.minimumFeeds_pos.trans_le henough)
  | later | unexpired => exact hbased

/-- **At the end of a block** too few feeds count, or those that the current feed was taken from are
young enough. -/
theorem Turns.young (h : b.Turns N s .updateExpiredFeeds now b')
    (hok : b.FeedsOk s.headBlockTime) :
    (b'.counted now).length < b'.options.minimumFeeds ∧ b'.currentFeed = .null ∨
      ∀ f ∈ b'.basis, (now : ℤ) - f.2.1 < b'.options.feedLifetimeSec := by
  cases h with
  | kept he => exact absurd rfl he
  | anew hnew =>
    obtain ⟨hfeeds, hoptions, hcases⟩ := (hnew hok).updateMedianFeeds (N := N)
    rcases hcases with ⟨hfew, hnull⟩ | ⟨-, hbasis, -⟩
    · left
      refine ⟨?_, hnull⟩
      rw [counted_congr hfeeds hoptions, hoptions]
      exact hfew
    · right
      intro f hf
      rw [hbasis] at hf
      rw [hoptions]
      exact (mem_counted.1 hf).2.1
  | unexpired hexpired =>
    right
    intro f hf
    have hsince := (mem_basis.1 hf).2.1
    have hlater : s.headBlockTime < b.feedExpirationTime :=
      not_le.1 (of_decide_eq_false hexpired)
    have hmod := Nat.mod_le (b.currentFeedPublicationTime + b.options.feedLifetimeSec) (2 ^ 32)
    rw [feedExpirationTime] at hlater
    omega

/-- Too few feeds count, or the current feed was taken from all that do. -/
def Settled (N : NthElement PublishedFeed) (now : ℕ) (b : Bitasset) : Prop :=
  (b.counted now).length < b.options.minimumFeeds ∧ b.currentFeed = .null ∨
    b.options.minimumFeeds ≤ b.basis.length ∧
      selectFeed N (b.basis.map fun f ↦ f.2.2) = some b.currentFeed ∧
      ∀ f ∈ b.counted now, b.currentFeedPublicationTime ≤ f.2.1

/-- Where no other feeds count, no more of them do. -/
theorem length_counted_le (hfeeds : b'.feeds = b.feeds)
    (hcounted : ∀ f ∈ b'.counted time, f ∈ b.counted now) :
    (b'.counted time).length ≤ (b.counted now).length := by
  rw [counted, counted, FeedData.countedFeeds, FeedData.countedFeeds,
    ← List.countP_eq_length_filter, ← List.countP_eq_length_filter]
  change List.countP _ b'.feeds ≤ List.countP _ b.feeds
  rw [hfeeds]
  refine List.countP_mono_left fun f hf hcount ↦ ?_
  obtain ⟨-, hyoung, hne⟩ := mem_counted.1
    (hcounted f (mem_counted.2 ⟨hfeeds ▸ hf, of_decide_eq_true hcount⟩))
  exact decide_eq_true ⟨hyoung, hne⟩

/-- It stays so as long as no other feeds count. -/
theorem Settled.later (h : b.Settled N now) (hfeeds : b'.feeds = b.feeds)
    (hminimum : b'.options.minimumFeeds = b.options.minimumFeeds)
    (hcurrent : b'.currentFeed = b.currentFeed)
    (hpublication : b'.currentFeedPublicationTime = b.currentFeedPublicationTime)
    (hcounted : ∀ f ∈ b'.counted time, f ∈ b.counted now) : b'.Settled N time := by
  have hbasis : b'.basis = b.basis := by rw [basis, basis, hfeeds, hpublication]
  rcases h with ⟨hfew, hnull⟩ | ⟨henough, hselect, hsince⟩
  · have hle := length_counted_le hfeeds hcounted
    exact .inl ⟨hle.trans_lt (hminimum ▸ hfew), hcurrent.trans hnull⟩
  · refine .inr ⟨by rw [hminimum, hbasis]; exact henough, by rw [hbasis, hcurrent]; exact hselect,
      fun f hf ↦ ?_⟩
    rw [hpublication]
    exact hsince f (hcounted f hf)

/-- The options make no feed count that did not. -/
def KeepsExpired (s : AssetChain) : AssetEvent → Prop
  | .operation (.updateBitasset op) => ∀ a b, s.assets op.assetToUpdate = some a →
      a.bitasset = some b → op.newOptions.minimumFeeds = b.options.minimumFeeds →
      ∀ f ∈ b.feeds, f.2.1 ≠ 0 →
        (s.headBlockTime : ℤ) - f.2.1 < op.newOptions.feedLifetimeSec →
        (s.headBlockTime : ℤ) - f.2.1 < b.options.feedLifetimeSec
  | _ => True

theorem Turns.settled (h : b.Turns N s e now b') (hok : b.FeedsOk s.headBlockTime)
    (hkeeps : KeepsExpired s e) (hsettled : b.Settled N s.headBlockTime) : b'.Settled N now := by
  cases h with
  | kept => exact hsettled
  | @options op a ha hb hminimum =>
    refine hsettled.later rfl hminimum rfl rfl fun f hf ↦ ?_
    obtain ⟨hmem, hyoung, hne⟩ := mem_counted.1 hf
    exact mem_counted.2 ⟨hmem, hkeeps a b ha hb hminimum f hmem hne hyoung, hne⟩
  | anew hnew =>
    obtain ⟨hfeeds, hoptions, hcases⟩ := (hnew hok).updateMedianFeeds (N := N)
    have hcounted := counted_congr hfeeds hoptions now
    rcases hcases with ⟨hfew, hnull⟩ | ⟨henough, hbasis, hselect⟩
    · exact .inl ⟨by rw [hcounted, hoptions]; exact hfew, hnull⟩
    · refine .inr ⟨by rw [hoptions, hbasis]; exact henough, hbasis ▸ hselect, fun f hf ↦ ?_⟩
      rw [hcounted, ← hbasis] at hf
      exact (mem_basis.1 hf).2.1
  | unexpired => exact hsettled
  | later hlt =>
    refine hsettled.later rfl rfl rfl rfl fun f hf ↦ ?_
    obtain ⟨hmem, hyoung, hne⟩ := mem_counted.1 hf
    exact mem_counted.2 ⟨hmem, by omega, hne⟩

/-- Where the feeds it was taken from are those that count, the median anew is the same. -/
theorem Settled.current (h : b.Settled N time)
    (hyoung : (b.counted time).length < b.options.minimumFeeds ∧ b.currentFeed = .null ∨
      ∀ f ∈ b.basis, (time : ℤ) - f.2.1 < b.options.feedLifetimeSec) :
    (b.feedData.updateMedianFeeds time N).map (·.currentFeed) = some b.currentFeed := by
  have hfew : (b.counted time).length < b.options.minimumFeeds ∧ b.currentFeed = .null →
      (b.feedData.updateMedianFeeds time N).map (·.currentFeed) = some b.currentFeed := by
    rintro ⟨hfew, hnull⟩
    rw [FeedData.updateMedianFeeds, hnull]
    exact congrArg (Option.map _) (if_pos (by rw [List.length_map]; exact hfew))
  rcases hyoung with hnull | hyoung
  · exact hfew hnull
  rcases h with hnull | ⟨henough, hselect, hsince⟩
  · exact hfew hnull
  have hcounted : b.counted time = b.basis := by
    refine List.filter_congr fun f hf ↦ decide_eq_decide.2 (and_congr_left fun hne ↦ ⟨?_, ?_⟩)
    · exact fun h ↦ hsince f (mem_counted.2 ⟨hf, h, hne⟩)
    · exact fun h ↦ hyoung f (mem_basis.2 ⟨hf, h, hne⟩)
  have hselected : selectFeed N ((b.feedData.countedFeeds time).map fun f ↦ f.2.2) =
      some b.currentFeed := (congrArg (fun l ↦ selectFeed N (l.map fun f ↦ f.2.2)) hcounted).trans
    hselect
  have henough' : ¬ ((b.feedData.countedFeeds time).map fun f ↦ f.2.2).length <
      b.feedData.minimumFeeds := by
    rw [List.length_map, show b.feedData.countedFeeds time = b.basis from hcounted]
    exact not_lt.2 henough
  rw [FeedData.updateMedianFeeds, if_neg henough', hselected]
  rfl

end Bitasset

/-! ## Runs -/

section runs

variable {s t u : AssetChain} {es : List AssetEvent} {id : AssetId} {a : IssuedAsset}
  {b : Bitasset}

/-- No feed has been published yet. -/
def AssetChain.NoFeeds (s : AssetChain) : Prop :=
  ∀ id a b, s.assets id = some a → a.bitasset = some b →
    b.feeds = [] ∧ b.currentFeed = .null ∧ 0 < b.options.minimumFeeds

/-- What holds of every market-issued asset. -/
def AssetChain.Bitassets (P : ℕ → Bitasset → Prop) (s : AssetChain) : Prop :=
  ∀ id a b, s.assets id = some a → a.bitasset = some b → P s.headBlockTime b

/-- What is kept of each asset is kept of all. -/
theorem AssetChain.Bitassets.step {P : ℕ → Bitasset → Prop} {e : AssetEvent}
    (h : s.Bitassets P) (hstep : s.step N e = some t)
    (hturns : ∀ b b' now, P s.headBlockTime b → b.Turns N s e now b' → P now b') :
    t.Bitassets P := by
  intro id a' b' ha' hb'
  obtain ⟨a, ha, hbecomes⟩ := AssetChain.exists_becomes hstep ha'
  obtain ⟨b, hb, hturned⟩ := hbecomes.turns ha hb'
  rw [AssetChain.headBlockTime_step hstep]
  exact hturns b b' _ (h id a b ha hb) hturned

theorem AssetChain.NoFeeds.feedsOk (hs : s.NoFeeds) :
    s.Bitassets fun now b ↦ b.FeedsOk now ∧ b.Based N ∧ b.Settled N now := by
  intro id a b ha hb
  obtain ⟨hfeeds, hnull, hpos⟩ := hs id a b ha hb
  refine ⟨⟨?_, ?_, ?_, hpos⟩, .inl hnull, .inl ⟨?_, hnull⟩⟩
  iterate 3
    rw [hfeeds]
    exact List.forall_mem_nil _
  rw [Bitasset.counted, FeedData.countedFeeds, show b.feedData.feeds = [] from hfeeds]
  exact hpos

/-- The feeds, whatever has happened. -/
theorem AssetChain.feedsOk_applied (hs : s.NoFeeds)
    (h : applied (AssetChain.step N) s es = some t) :
    t.Bitassets fun now b ↦ b.FeedsOk now ∧ b.Based N := by
  refine applied_inv (fun s e s' hs hstep ↦ ?_) (fun id a b ha hb ↦ ?_) h
  · exact hs.step hstep fun b b' now ⟨hok, hbased⟩ hturns ↦
      ⟨hturns.feedsOk hok, hturns.based hok hbased⟩
  · obtain ⟨hok, hbased, -⟩ := hs.feedsOk (N := N) id a b ha hb
    exact ⟨hok, hbased⟩

/-- The feeds, where none has been made to count again. -/
theorem AssetChain.settled_applied (hs : s.NoFeeds) (h : applied (AssetChain.step N) s es = some t)
    (hkeeps : Throughout (AssetChain.step N) Bitasset.KeepsExpired s es) :
    t.Bitassets fun now b ↦ b.FeedsOk now ∧ b.Settled N now := by
  refine @Throughout.inv _ _ _ (fun s ↦ s.Bitassets fun now b ↦ b.FeedsOk now ∧ b.Settled N now)
    (fun _ ↦ True) _ _ _ _ hkeeps (fun _ _ ↦ trivial) ?_ (fun id a b ha hb ↦ ?_) h
  · exact fun s e s' hs _ hkeeps hstep ↦ hs.step hstep fun b b' now ⟨hok, hsettled⟩ hturns ↦
      ⟨hturns.feedsOk hok, hturns.settled hok hkeeps hsettled⟩
  · obtain ⟨hok, -, hsettled⟩ := hs.feedsOk (N := N) id a b ha hb
    exact ⟨hok, hsettled⟩

/-- **At the end of a block no feed that has expired counts**: there is no current feed, or it is
the median of feeds that are all young enough.  When the lifetime of feeds has passed since the
fork, there is none. -/
theorem feeds_unexpired (hs : s.NoFeeds) (h : applied (AssetChain.step N) s es = some t)
    (hend : t.step N .updateExpiredFeeds = some u) (ha : u.assets id = some a)
    (hb : a.bitasset = some b) :
    (b.currentFeed = .null ∨
      b.basis ≠ [] ∧ selectFeed N (b.basis.map fun f ↦ f.2.2) = some b.currentFeed ∧
        ∀ f ∈ b.basis, (u.headBlockTime : ℤ) - f.2.1 < b.options.feedLifetimeSec) ∧
      (hardfork1Time + b.options.feedLifetimeSec ≤ u.headBlockTime → b.currentFeed = .null) := by
  obtain ⟨a₀, ha₀, hbecomes⟩ := AssetChain.exists_becomes hend ha
  obtain ⟨b₀, hb₀, hturns⟩ := hbecomes.turns ha₀ hb
  obtain ⟨hok₀, hbased₀⟩ := AssetChain.feedsOk_applied hs h id a₀ b₀ ha₀ hb₀
  have hok := hturns.feedsOk hok₀
  have hbased := hturns.based hok₀ hbased₀
  have hyoung := hturns.young hok₀
  rw [AssetChain.headBlockTime_step hend]
  change (_ ∨ _ ≠ _ ∧ _ ∧ ∀ f ∈ b.basis,
    (t.headBlockTime : ℤ) - f.2.1 < b.options.feedLifetimeSec) ∧ (_ ≤ t.headBlockTime → _)
  have hcases : b.currentFeed = .null ∨
      b.basis ≠ [] ∧ selectFeed N (b.basis.map fun f ↦ f.2.2) = some b.currentFeed ∧
        ∀ f ∈ b.basis, (t.headBlockTime : ℤ) - f.2.1 < b.options.feedLifetimeSec := by
    rcases hyoung with ⟨-, hnull⟩ | hyoung
    · exact .inl hnull
    · exact hbased.imp_right fun ⟨hne, hselect⟩ ↦ ⟨hne, hselect, hyoung⟩
  refine ⟨hcases, fun hlate ↦ hcases.resolve_right ?_⟩
  rintro ⟨hne, -, hyoung⟩
  obtain ⟨f, hf⟩ := List.exists_mem_of_ne_nil b.basis hne
  obtain ⟨hmem, -, hpublished⟩ := Bitasset.mem_basis.1 hf
  have hearly := hok.early f hmem hpublished
  have hyoung := hyoung f hf
  omega

/-- **Nor is there another that should count** unless options made it count again: at the end of a
block, to take the median anew would change nothing. -/
theorem feeds_current (hs : s.NoFeeds) (h : applied (AssetChain.step N) s es = some t)
    (hkeeps : Throughout (AssetChain.step N) Bitasset.KeepsExpired s es)
    (hend : t.step N .updateExpiredFeeds = some u) (ha : u.assets id = some a)
    (hb : a.bitasset = some b) :
    (b.feedData.updateMedianFeeds u.headBlockTime N).map (·.currentFeed) =
      some b.currentFeed := by
  obtain ⟨a₀, ha₀, hbecomes⟩ := AssetChain.exists_becomes hend ha
  obtain ⟨b₀, hb₀, hturns⟩ := hbecomes.turns ha₀ hb
  obtain ⟨hok₀, hsettled₀⟩ := AssetChain.settled_applied hs h hkeeps id a₀ b₀ ha₀ hb₀
  rw [AssetChain.headBlockTime_step hend]
  exact (hturns.settled hok₀ trivial hsettled₀).current (hturns.young hok₀)

end runs

/-- Asset 1 is fed by the witnesses, of which account 5 is one. -/
def fedChain : AssetChain where
  headBlockTime := 100
  maximumAssetWhitelistAuthorities := 10
  maximumAssetFeedPublishers := 10
  accounts := {0, 5, 7}
  witnessAuths := {5}
  committeeAuths := ∅
  assets id :=
    if id = 1 then some
      { issuer := 7
        options := settleableOptions 0xf0 0x80
        currentSupply := 50
        bitasset := some
          { options := ⟨86400, 1, 0, 0, 0, coreAsset⟩
            feeds := []
            currentFeed := .null
            currentFeedPublicationTime := 0
            settlementPrice := .null } }
    else none

/-- A feed of account 5. -/
def witnessFeed : AssetPublishFeed where
  publisher := 5
  assetId := 1
  feed :=
    { settlementPrice := ⟨⟨3, 1⟩, ⟨2, coreAsset⟩⟩
      maintenanceCollateralRatio := 1750
      maximumShortSqueezeRatio := 1100
      coreExchangeRate := ⟨⟨3, 1⟩, ⟨2, coreAsset⟩⟩ }
  settlementPrice_fits := by decide
  coreExchangeRate_fits := by decide

theorem fedChain_noFeeds : fedChain.NoFeeds := by
  intro id a b ha hb
  by_cases hid : id = 1
  · subst hid
    obtain rfl := Option.some.inj ha
    obtain rfl := Option.some.inj hb
    exact ⟨rfl, rfl, by decide⟩
  · exact absurd (ha.symm.trans (if_neg hid)) (Option.some_ne_none a)

/-- A day after it was published, a feed has expired. -/
theorem feeds_unexpired_day : ∃ t u a b,
    applied (AssetChain.step .bySorting) fedChain
        [.operation (.publishFeed witnessFeed), .updateGlobalDynamicData 86500] = some t ∧
      t.step .bySorting .updateExpiredFeeds = some u ∧ u.assets 1 = some a ∧
      a.bitasset = some b ∧
      (b.currentFeed = .null ∨
        b.basis ≠ [] ∧ selectFeed .bySorting (b.basis.map fun f ↦ f.2.2) = some b.currentFeed ∧
          ∀ f ∈ b.basis, (u.headBlockTime : ℤ) - f.2.1 < b.options.feedLifetimeSec) ∧
      (hardfork1Time + b.options.feedLifetimeSec ≤ u.headBlockTime → b.currentFeed = .null) := by
  refine ⟨_, _, _, _, rfl, rfl, rfl, rfl, ?_⟩
  apply @feeds_unexpired .bySorting fedChain _ _
    [.operation (.publishFeed witnessFeed), .updateGlobalDynamicData 86500] 1 _ _ fedChain_noFeeds
  exacts [rfl, rfl, rfl, rfl]

theorem feeds_current_minute : ∃ t u a b,
    applied (AssetChain.step .bySorting) fedChain
        [.operation (.publishFeed witnessFeed), .updateGlobalDynamicData 160] = some t ∧
      t.step .bySorting .updateExpiredFeeds = some u ∧ u.assets 1 = some a ∧
      a.bitasset = some b ∧
      (b.feedData.updateMedianFeeds u.headBlockTime .bySorting).map (·.currentFeed) =
        some b.currentFeed := by
  refine ⟨_, _, _, _, rfl, rfl, rfl, rfl, ?_⟩
  apply @feeds_current .bySorting fedChain _ _
    [.operation (.publishFeed witnessFeed), .updateGlobalDynamicData 160] 1 _ _ fedChain_noFeeds
  exacts [rfl, ⟨trivial, fun _ _ ↦ ⟨trivial, fun _ _ ↦ trivial⟩⟩, rfl, rfl, rfl]

end Graphene
