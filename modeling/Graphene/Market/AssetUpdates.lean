import Graphene.Lib.Transitions
import Graphene.Market.MedianFeed
import Graphene.Proposals.Proposal
import Mathlib.Data.Finset.Sort

/-!
# Updates of assets and of their price feeds

The issuer of an asset changes its options within the permissions that it has left, and those of a
market-issued asset; producers publish price feeds.  At the end of each block the median of the
feeds is taken anew where it has expired, and the core exchange rate of the asset follows it.

* `AssetOptions`, `BitassetOptions` — what an issuer sets, and what `validate` asks of it.
* `IssuedAsset` — an asset, with its `Bitasset` if it is market-issued.
* `AssetOperation.apply` — the four operations that write options or feeds.
* `AssetChain.updateExpiredFeeds` — the end of a block.
* `AssetChain.step` — operations, ends of blocks, and what the rest of the chain does meanwhile.
* `IssuedAsset.Becomes` — all that can become of an asset.
* `permissions_revoked` — permissions that have been given up do not come back.
-/

set_option autoImplicit false

namespace Graphene

open Transitions

/-! ## Options -/

/-- The flag `white_list`. -/
def whiteListFlag : BitVec 16 := 0x02

/-- The flag `disable_force_settle`. -/
def disableForceSettleFlag : BitVec 16 := 0x10

/-- The permission `global_settle`. -/
def globalSettleFlag : BitVec 16 := 0x20

/-- The flag `witness_fed_asset`. -/
def witnessFedFlag : BitVec 16 := 0x80

/-- The flag `committee_fed_asset`. -/
def committeeFedFlag : BitVec 16 := 0x100

/-- `ASSET_ISSUER_PERMISSION_MASK`. -/
def assetIssuerPermissionMask : BitVec 16 := 0x1ff

/-- `asset_options`. -/
structure AssetOptions where
  /-- `max_supply`. -/
  maxSupply : ℤ
  /-- `market_fee_percent`. -/
  marketFeePercent : ℕ
  /-- `max_market_fee`. -/
  maxMarketFee : ℤ
  /-- `issuer_permissions`. -/
  issuerPermissions : BitVec 16
  /-- `flags`. -/
  flags : BitVec 16
  /-- `core_exchange_rate`. -/
  coreExchangeRate : Price
  /-- `whitelist_authorities`. -/
  whitelistAuthorities : Finset AccountId
  /-- `blacklist_authorities`. -/
  blacklistAuthorities : Finset AccountId
  /-- `whitelist_markets`. -/
  whitelistMarkets : Finset AssetId
  /-- `blacklist_markets`. -/
  blacklistMarkets : Finset AssetId

/-- `asset_options::validate`. -/
structure AssetOptions.Valid (o : AssetOptions) : Prop where
  /-- `max_supply` is positive, so that some of the asset can be issued. -/
  maxSupply_pos : 0 < o.maxSupply
  /-- It is at most `GRAPHENE_MAX_SHARE_SUPPLY`. -/
  maxSupply_le : o.maxSupply ≤ maxShareSupply
  /-- The market fee is at most all that is traded. -/
  marketFeePercent_le : o.marketFeePercent ≤ 10000
  /-- What the fee comes to at most is an amount that there can be of an asset. -/
  maxMarketFee_mem : 0 ≤ o.maxMarketFee ∧ o.maxMarketFee ≤ maxShareSupply
  /-- The permissions have no bits but those of `ASSET_ISSUER_PERMISSION_MASK`. -/
  issuerPermissions_le : o.issuerPermissions &&& ~~~assetIssuerPermissionMask = 0
  /-- `global_settle` is a permission only. -/
  not_globalSettle : o.flags &&& globalSettleFlag = 0
  /-- The feeds come from the witnesses or from the committee, if not from neither. -/
  not_bothFed : o.flags &&& (witnessFedFlag ||| committeeFedFlag) ≠
    witnessFedFlag ||| committeeFedFlag
  /-- The rate is a price. -/
  coreExchangeRate_valid : o.coreExchangeRate.Valid
  /-- One side of it is core, so that a fee can be converted. -/
  coreExchangeRate_core :
    o.coreExchangeRate.base.assetId = coreAsset ∨ o.coreExchangeRate.quote.assetId = coreAsset
  /-- Only an asset with the flag `white_list` names authorities for its lists. -/
  whiteList_of_authorities : o.whitelistAuthorities ≠ ∅ ∨ o.blacklistAuthorities ≠ ∅ →
    o.flags &&& whiteListFlag ≠ 0
  /-- No market is on both lists. -/
  markets_disjoint : Disjoint o.whitelistMarkets o.blacklistMarkets

instance (o : AssetOptions) : Decidable o.Valid :=
  decidable_of_iff (0 < o.maxSupply ∧ o.maxSupply ≤ maxShareSupply ∧ o.marketFeePercent ≤ 10000 ∧
      (0 ≤ o.maxMarketFee ∧ o.maxMarketFee ≤ maxShareSupply) ∧
      o.issuerPermissions &&& ~~~assetIssuerPermissionMask = 0 ∧
      o.flags &&& globalSettleFlag = 0 ∧
      o.flags &&& (witnessFedFlag ||| committeeFedFlag) ≠ witnessFedFlag ||| committeeFedFlag ∧
      o.coreExchangeRate.Valid ∧
      (o.coreExchangeRate.base.assetId = coreAsset ∨
        o.coreExchangeRate.quote.assetId = coreAsset) ∧
      (o.whitelistAuthorities ≠ ∅ ∨ o.blacklistAuthorities ≠ ∅ → o.flags &&& whiteListFlag ≠ 0) ∧
      Disjoint o.whitelistMarkets o.blacklistMarkets)
    ⟨fun ⟨h₁, h₂, h₃, h₄, h₅, h₆, h₇, h₈, h₉, h₁₀, h₁₁⟩ ↦
        ⟨h₁, h₂, h₃, h₄, h₅, h₆, h₇, h₈, h₉, h₁₀, h₁₁⟩,
      fun ⟨h₁, h₂, h₃, h₄, h₅, h₆, h₇, h₈, h₉, h₁₀, h₁₁⟩ ↦
        ⟨h₁, h₂, h₃, h₄, h₅, h₆, h₇, h₈, h₉, h₁₀, h₁₁⟩⟩

/-- `bitasset_options`. -/
structure BitassetOptions where
  /-- `feed_lifetime_sec`. -/
  feedLifetimeSec : ℕ
  /-- `minimum_feeds`. -/
  minimumFeeds : ℕ
  /-- `force_settlement_delay_sec`. -/
  forceSettlementDelaySec : ℕ
  /-- `force_settlement_offset_percent`. -/
  forceSettlementOffsetPercent : ℕ
  /-- `maximum_force_settlement_volume`. -/
  maximumForceSettlementVolume : ℕ
  /-- `short_backing_asset`. -/
  shortBackingAsset : AssetId

/-- `bitasset_options::validate`. -/
def BitassetOptions.Valid (o : BitassetOptions) : Prop :=
  0 < o.minimumFeeds ∧ o.forceSettlementOffsetPercent ≤ 10000 ∧
    o.maximumForceSettlementVolume ≤ 10000

instance (o : BitassetOptions) : Decidable o.Valid := inferInstanceAs (Decidable (_ ∧ _ ∧ _))

/-! ## Assets -/

/-- `asset_bitasset_data_object`, as far as options and feeds go. -/
structure Bitasset where
  /-- `options`. -/
  options : BitassetOptions
  /-- `feeds`, in the order of the publishers. -/
  feeds : List (AccountId × ℕ × PublishedFeed)
  /-- `current_feed`. -/
  currentFeed : PublishedFeed
  /-- `current_feed_publication_time`. -/
  currentFeedPublicationTime : ℕ
  /-- `settlement_price`. -/
  settlementPrice : Price

namespace Bitasset

variable (b : Bitasset)

/-- `has_settlement`. -/
def hasSettlement : Bool := !b.settlementPrice.isNull

/-- What the median is taken over. -/
def feedData : FeedData where
  feeds := b.feeds
  minimumFeeds := b.options.minimumFeeds
  feedLifetimeSec := b.options.feedLifetimeSec
  currentFeed := b.currentFeed
  currentFeedPublicationTime := b.currentFeedPublicationTime

/-- `update_median_feeds`.  There is a median, see `FeedData.updateMedianFeeds`. -/
def updateMedianFeeds (N : NthElement PublishedFeed) (currentTime : ℕ) : Bitasset :=
  match b.feedData.updateMedianFeeds currentTime N with
  | some d => { b with
      currentFeed := d.currentFeed
      currentFeedPublicationTime := d.currentFeedPublicationTime }
  | none => b

/-- `feed_expiration_time`, a sum of two `uint32_t`s. -/
def feedExpirationTime : ℕ := (b.currentFeedPublicationTime + b.options.feedLifetimeSec) % 2 ^ 32

/-- `feed_is_expired`. -/
def feedIsExpired (currentTime : ℕ) : Bool := b.feedExpirationTime ≤ currentTime

end Bitasset

/-- `asset_object`, with what is kept beside it. -/
structure IssuedAsset where
  /-- `issuer`. -/
  issuer : AccountId
  /-- `options`. -/
  options : AssetOptions
  /-- `current_supply` of its dynamic data. -/
  currentSupply : ℤ
  /-- `bitasset_data_id`, if the asset is market-issued. -/
  bitasset : Option Bitasset

/-- What evaluators read and write of the database. -/
structure AssetChain where
  /-- `head_block_time()`. -/
  headBlockTime : ℕ
  /-- `maximum_asset_whitelist_authorities` of the chain parameters. -/
  maximumAssetWhitelistAuthorities : ℕ
  /-- `maximum_asset_feed_publishers` of the chain parameters. -/
  maximumAssetFeedPublishers : ℕ
  /-- The accounts there are. -/
  accounts : Finset AccountId
  /-- `active.account_auths` of `GRAPHENE_WITNESS_ACCOUNT`. -/
  witnessAuths : Finset AccountId
  /-- `active.account_auths` of `GRAPHENE_COMMITTEE_ACCOUNT`. -/
  committeeAuths : Finset AccountId
  /-- The `asset_object`s. -/
  assets : AssetId → Option IssuedAsset

/-! ## Operations -/

/-- `asset_update_operation`. -/
structure AssetUpdate where
  /-- `issuer`. -/
  issuer : AccountId
  /-- `asset_to_update`. -/
  assetToUpdate : AssetId
  /-- `new_issuer`. -/
  newIssuer : Option AccountId
  /-- `new_options`. -/
  newOptions : AssetOptions

/-- `asset_update_bitasset_operation`. -/
structure AssetUpdateBitasset where
  /-- `issuer`. -/
  issuer : AccountId
  /-- `asset_to_update`. -/
  assetToUpdate : AssetId
  /-- `new_options`. -/
  newOptions : BitassetOptions

/-- `asset_update_feed_producers_operation`. -/
structure AssetUpdateFeedProducers where
  /-- `issuer`. -/
  issuer : AccountId
  /-- `asset_to_update`. -/
  assetToUpdate : AssetId
  /-- `new_feed_producers`. -/
  newFeedProducers : Finset AccountId

/-- `asset_publish_feed_operation`. -/
structure AssetPublishFeed where
  /-- `publisher`. -/
  publisher : AccountId
  /-- `asset_id`. -/
  assetId : AssetId
  /-- `feed`. -/
  feed : PublishedFeed
  /-- Amounts are `int64_t`s. -/
  settlementPrice_fits :
    FitsInt64 feed.settlementPrice.base.amount ∧ FitsInt64 feed.settlementPrice.quote.amount
  /-- Amounts are `int64_t`s. -/
  coreExchangeRate_fits :
    FitsInt64 feed.coreExchangeRate.base.amount ∧ FitsInt64 feed.coreExchangeRate.quote.amount

/-- An asset that is not market-issued has no force settlement or global settlement. -/
def AssetOptions.NotMarketIssued (o : AssetOptions) : Prop :=
  (o.flags &&& disableForceSettleFlag = 0 ∧ o.flags &&& globalSettleFlag = 0) ∧
    o.issuerPermissions &&& disableForceSettleFlag = 0 ∧
      o.issuerPermissions &&& globalSettleFlag = 0

instance (o : AssetOptions) : Decidable o.NotMarketIssued :=
  inferInstanceAs (Decidable ((_ ∧ _) ∧ _ ∧ _))

/-- What is asked of the backing of a blockchain-controlled asset: it is core, or backed by core. -/
def AssetChain.checkBacking (s : AssetChain) (b : Bitasset) : Option Unit := do
  let backing ← s.assets b.options.shortBackingAsset
  match backing.bitasset with
  | some backingBitasset =>
    let _ ← s.assets backingBitasset.options.shortBackingAsset
    guard (backingBitasset.options.shortBackingAsset = coreAsset)
  | none => guard (b.options.shortBackingAsset = coreAsset)

namespace AssetUpdate

variable (op : AssetUpdate) (s : AssetChain) (a : IssuedAsset)

/-- `validate`. -/
def Valid : Prop :=
  op.newIssuer ≠ some op.issuer ∧ op.newOptions.Valid ∧
    ((⟨1, op.assetToUpdate⟩ : Asset).mulPrice op.newOptions.coreExchangeRate).any
      (·.assetId = coreAsset)

instance : Decidable op.Valid := inferInstanceAs (Decidable (_ ∧ _ ∧ _))

/-- `if( o.new_issuer )`, in `do_evaluate`. -/
def checkNewIssuer : Option Unit :=
  match op.newIssuer, a.bitasset with
  | none, _ => some ()
  | some newIssuer, none => guard (newIssuer ∈ s.accounts)
  | some newIssuer, some b => do
    guard (newIssuer ∈ s.accounts)
    if newIssuer = committeeAccount then s.checkBacking b else some ()

/-- `do_evaluate`. -/
def doEvaluate : Option Unit := do
  guard (s.headBlockTime < hardfork1Time)
  guard (a.bitasset.isNone → op.newOptions.NotMarketIssued)
  op.checkNewIssuer s a
  guard (a.currentSupply ≠ 0 →
    op.newOptions.issuerPermissions &&& ~~~a.options.issuerPermissions = 0)
  guard ((op.newOptions.flags ^^^ a.options.flags) &&& ~~~a.options.issuerPermissions = 0)
  guard (op.issuer = a.issuer)
  guard (op.newOptions.whitelistAuthorities.card ≤ s.maximumAssetWhitelistAuthorities ∧
    op.newOptions.whitelistAuthorities ⊆ s.accounts)
  guard (op.newOptions.blacklistAuthorities.card ≤ s.maximumAssetWhitelistAuthorities ∧
    op.newOptions.blacklistAuthorities ⊆ s.accounts)

/-- `do_apply`. -/
def doApply : IssuedAsset :=
  { a with
    issuer := op.newIssuer.getD a.issuer
    options := op.newOptions }

end AssetUpdate

namespace AssetUpdateBitasset

variable (N : NthElement PublishedFeed) (op : AssetUpdateBitasset) (s : AssetChain)
  (a : IssuedAsset) (b : Bitasset)

/-- What is asked of another backing.  It is the one that the asset has so far that is checked. -/
def checkNewBacking : Option Unit :=
  if op.newOptions.shortBackingAsset = b.options.shortBackingAsset then some ()
  else do
    guard (a.currentSupply = 0)
    guard (s.assets op.newOptions.shortBackingAsset).isSome
    if a.issuer = committeeAccount then s.checkBacking b else some ()

/-- `do_evaluate`. -/
def doEvaluate : Option Bitasset := do
  guard (s.headBlockTime < hardfork1Time)
  let b ← a.bitasset
  guard (b.hasSettlement = false)
  op.checkNewBacking s a b
  guard (op.issuer = a.issuer)
  return b

/-- `do_apply`.  The median is taken anew only for another number of feeds. -/
def doApply : IssuedAsset :=
  let b' := { b with options := op.newOptions }
  { a with
    bitasset := some
      (if op.newOptions.minimumFeeds ≠ b.options.minimumFeeds then
        b'.updateMedianFeeds N s.headBlockTime
      else b') }

end AssetUpdateBitasset

/-- `feeds[publisher] = make_pair(time, feed)`. -/
def setFeed (f : AccountId × ℕ × PublishedFeed) :
    List (AccountId × ℕ × PublishedFeed) → List (AccountId × ℕ × PublishedFeed)
  | [] => [f]
  | g :: feeds =>
    if f.1 < g.1 then f :: g :: feeds
    else if f.1 = g.1 then f :: feeds
    else g :: setFeed f feeds

/-- `feeds[publisher]`, where the publisher has none. -/
def addProducer (feeds : List (AccountId × ℕ × PublishedFeed)) (publisher : AccountId) :
    List (AccountId × ℕ × PublishedFeed) :=
  if feeds.any (·.1 = publisher) then feeds else setFeed (publisher, 0, .null) feeds

namespace AssetUpdateFeedProducers

variable (N : NthElement PublishedFeed) (op : AssetUpdateFeedProducers) (s : AssetChain)
  (a : IssuedAsset) (b : Bitasset)

/-- `do_evaluate`. -/
def doEvaluate : Option Bitasset := do
  guard (s.headBlockTime < hardfork1Time)
  guard (op.newFeedProducers.card ≤ s.maximumAssetFeedPublishers)
  guard (op.newFeedProducers ⊆ s.accounts)
  let b ← a.bitasset
  guard (a.options.flags &&& committeeFedFlag = 0)
  guard (a.options.flags &&& witnessFedFlag = 0)
  guard (a.issuer = op.issuer)
  return b

/-- The feeds of those who stay, and none of those who come. -/
def newFeeds : List (AccountId × ℕ × PublishedFeed) :=
  (op.newFeedProducers.sort (· ≤ ·)).foldl addProducer
    (b.feeds.filter fun f ↦ f.1 ∈ op.newFeedProducers)

/-- `do_apply`. -/
def doApply : IssuedAsset :=
  { a with
    bitasset := some ({ b with feeds := op.newFeeds b }.updateMedianFeeds N s.headBlockTime) }

end AssetUpdateFeedProducers

/-- `price_feed::validate`. -/
def PublishedFeed.Valid (feed : PublishedFeed) : Prop :=
  (feed.settlementPrice.isNull = false → feed.settlementPrice.Valid) ∧
    (1001 ≤ feed.maximumShortSqueezeRatio ∧ feed.maximumShortSqueezeRatio ≤ 32000) ∧
    (1001 ≤ feed.maintenanceCollateralRatio ∧ feed.maintenanceCollateralRatio ≤ 32000) ∧
    feed.toPriceFeed.maxShortSqueezePrice.isSome

instance (feed : PublishedFeed) : Decidable feed.Valid :=
  inferInstanceAs (Decidable (_ ∧ (_ ∧ _) ∧ (_ ∧ _) ∧ _))

/-- `price_feed::is_for`. -/
def PublishedFeed.isFor (feed : PublishedFeed) (assetId : AssetId) : Bool :=
  if feed.settlementPrice.isNull = false then feed.settlementPrice.base.assetId = assetId
  else if feed.coreExchangeRate.isNull = false then feed.coreExchangeRate.base.assetId = assetId
  else true

namespace AssetPublishFeed

variable (N : NthElement PublishedFeed) (op : AssetPublishFeed) (s : AssetChain)
  (a : IssuedAsset) (b : Bitasset)

/-- `validate`. -/
def Valid : Prop :=
  op.feed.Valid ∧ (op.feed.coreExchangeRate.isNull = false → op.feed.coreExchangeRate.Valid) ∧
    (op.feed.settlementPrice.isNull = false → op.feed.coreExchangeRate.isNull = false →
      op.feed.settlementPrice.base.assetId = op.feed.coreExchangeRate.base.assetId) ∧
    op.feed.settlementPrice.isNull = false ∧ op.feed.coreExchangeRate.isNull = false ∧
    op.feed.isFor op.assetId

instance : Decidable op.Valid := inferInstanceAs (Decidable (_ ∧ _ ∧ _ ∧ _ ∧ _ ∧ _))

/-- Whether the publisher is authoritative to publish a feed. -/
def MayPublish : Prop :=
  if a.options.flags &&& witnessFedFlag ≠ 0 then op.publisher ∈ s.witnessAuths
  else if a.options.flags &&& committeeFedFlag ≠ 0 then op.publisher ∈ s.committeeAuths
  else op.publisher ∈ b.feeds.map Prod.fst

instance : Decidable (op.MayPublish s a b) := by
  unfold MayPublish
  infer_instance

/-- `do_evaluate`. -/
def doEvaluate : Option Bitasset := do
  guard (s.headBlockTime < hardfork1Time)
  let b ← a.bitasset
  guard (b.hasSettlement = false)
  guard (op.feed.settlementPrice.quote.assetId = b.options.shortBackingAsset)
  guard (op.feed.coreExchangeRate.isNull = false →
    op.feed.coreExchangeRate.quote.assetId = coreAsset)
  guard (op.MayPublish s a b)
  return b

/-- `do_apply`. -/
def doApply : IssuedAsset :=
  let b' := { b with feeds := setFeed (op.publisher, s.headBlockTime, op.feed) b.feeds }
  { a with bitasset := some (b'.updateMedianFeeds N s.headBlockTime) }

end AssetPublishFeed

/-- `modify`, of an asset. -/
def AssetChain.setAsset (s : AssetChain) (id : AssetId) (a : IssuedAsset) : AssetChain :=
  { s with assets := Function.update s.assets id (some a) }

@[simp] theorem AssetChain.headBlockTime_setAsset (s : AssetChain) (id : AssetId)
    (a : IssuedAsset) : (s.setAsset id a).headBlockTime = s.headBlockTime := rfl

theorem AssetChain.assets_setAsset (s : AssetChain) (id : AssetId) (a : IssuedAsset)
    (id' : AssetId) : (s.setAsset id a).assets id' = if id' = id then some a else s.assets id' :=
  Function.update_apply ..

/-- The operations that write options or feeds. -/
inductive AssetOperation where
  /-- `asset_update_operation`. -/
  | update (op : AssetUpdate)
  /-- `asset_update_bitasset_operation`. -/
  | updateBitasset (op : AssetUpdateBitasset)
  /-- `asset_update_feed_producers_operation`. -/
  | updateFeedProducers (op : AssetUpdateFeedProducers)
  /-- `asset_publish_feed_operation`. -/
  | publishFeed (op : AssetPublishFeed)

namespace AssetOperation

variable (N : NthElement PublishedFeed) (s : AssetChain)

/-- The asset that an operation names. -/
def asset : AssetOperation → AssetId
  | update op => op.assetToUpdate
  | updateBitasset op => op.assetToUpdate
  | updateFeedProducers op => op.assetToUpdate
  | publishFeed op => op.assetId

/-- `validate`, apart from the fee. -/
def Valid : AssetOperation → Prop
  | update op => op.Valid
  | updateBitasset op => op.newOptions.Valid
  | updateFeedProducers _ => True
  | publishFeed op => op.Valid

instance : (op : AssetOperation) → Decidable op.Valid
  | update op => inferInstanceAs (Decidable op.Valid)
  | updateBitasset op => inferInstanceAs (Decidable op.newOptions.Valid)
  | updateFeedProducers _ => inferInstanceAs (Decidable True)
  | publishFeed op => inferInstanceAs (Decidable op.Valid)

/-- What an operation makes of its asset. -/
def rewrite (a : IssuedAsset) : AssetOperation → Option IssuedAsset
  | update op => (op.doEvaluate s a).map fun _ ↦ op.doApply a
  | updateBitasset op => (op.doEvaluate s a).map fun b ↦ op.doApply N s a b
  | updateFeedProducers op => (op.doEvaluate s a).map fun b ↦ op.doApply N s a b
  | publishFeed op => (op.doEvaluate s a).map fun b ↦ op.doApply N s a b

/-- An operation. -/
def apply (op : AssetOperation) : Option AssetChain := do
  guard op.Valid
  let a ← s.assets op.asset
  let a' ← op.rewrite N s a
  return s.setAsset op.asset a'

end AssetOperation

/-! ## Blocks -/

/-- `update_expired_feeds`, of one asset. -/
def IssuedAsset.updateExpiredFeeds (N : NthElement PublishedFeed) (now : ℕ) (a : IssuedAsset) :
    IssuedAsset :=
  match a.bitasset with
  | none => a
  | some b =>
    let b := if b.feedIsExpired now then b.updateMedianFeeds N now else b
    let rate := b.currentFeed.coreExchangeRate
    { a with
      bitasset := some b
      options :=
        if rate.isNull = false ∧ a.options.coreExchangeRate.equal rate = false then
          { a.options with coreExchangeRate := rate }
        else a.options }

/-- What the rest of the chain does to what is read here: accounts come, the witnesses, the
committee and the parameters change, there is more or less of an asset, and assets are settled. -/
structure Outside where
  /-- The parameter. -/
  maximumAssetWhitelistAuthorities : ℕ
  /-- The parameter. -/
  maximumAssetFeedPublishers : ℕ
  /-- The accounts there are. -/
  accounts : Finset AccountId
  /-- The witnesses. -/
  witnessAuths : Finset AccountId
  /-- The committee. -/
  committeeAuths : Finset AccountId
  /-- The supplies. -/
  currentSupply : AssetId → ℤ
  /-- The settlement prices. -/
  settlementPrice : AssetId → Price

/-- What happens on the chain. -/
inductive AssetEvent where
  /-- An operation. -/
  | operation (op : AssetOperation)
  /-- `update_global_dynamic_data`, for a block with this time.  Operations may still come after
  it: those of the proposals that have expired. -/
  | updateGlobalDynamicData (time : ℕ)
  /-- `update_expired_feeds`, at the end of a block. -/
  | updateExpiredFeeds
  /-- What else happens. -/
  | other (o : Outside)

namespace AssetChain

variable (N : NthElement PublishedFeed) (s : AssetChain)

/-- What else happens. -/
def changed (o : Outside) : AssetChain where
  headBlockTime := s.headBlockTime
  maximumAssetWhitelistAuthorities := o.maximumAssetWhitelistAuthorities
  maximumAssetFeedPublishers := o.maximumAssetFeedPublishers
  accounts := o.accounts
  witnessAuths := o.witnessAuths
  committeeAuths := o.committeeAuths
  assets id := (s.assets id).map fun a ↦
    { a with
      currentSupply := o.currentSupply id
      bitasset := a.bitasset.map fun b ↦ { b with settlementPrice := o.settlementPrice id } }

/-- `update_expired_feeds`. -/
def updateExpiredFeeds : AssetChain :=
  { s with assets := fun id ↦ (s.assets id).map (IssuedAsset.updateExpiredFeeds N s.headBlockTime) }

/-- What happens.  The time of a block is later than that of the one before. -/
def step : AssetEvent → Option AssetChain
  | .operation op => op.apply N s
  | .updateGlobalDynamicData time =>
    if s.headBlockTime < time then some { s with headBlockTime := time } else none
  | .updateExpiredFeeds => some (s.updateExpiredFeeds N)
  | .other o => some (s.changed o)

end AssetChain

/-! ## What an operation does -/

section cases

variable {N : NthElement PublishedFeed} {s s' : AssetChain} {a a' : IssuedAsset}

/-- **All that an operation does**: it rewrites its asset. -/
theorem AssetOperation.apply_eq_some {op : AssetOperation} : op.apply N s = some s' ↔
    op.Valid ∧ ∃ a a', s.assets op.asset = some a ∧ op.rewrite N s a = some a' ∧
      s' = s.setAsset op.asset a' := by
  simp only [apply, Option.bind_eq_bind, Option.bind_eq_some_iff, Option.guard_eq_some',
    Option.pure_def, Option.some.injEq, exists_const]
  constructor
  · rintro ⟨hvalid, a, ha, a', ha', rfl⟩
    exact ⟨hvalid, a, a', ha, ha', rfl⟩
  · rintro ⟨hvalid, a, a', ha, ha', rfl⟩
    exact ⟨hvalid, a, ha, a', ha', rfl⟩

theorem AssetUpdate.doEvaluate_eq_some {op : AssetUpdate} {u : Unit} :
    op.doEvaluate s a = some u ↔ s.headBlockTime < hardfork1Time ∧
      (a.bitasset.isNone → op.newOptions.NotMarketIssued) ∧ op.checkNewIssuer s a = some () ∧
      (a.currentSupply ≠ 0 →
        op.newOptions.issuerPermissions &&& ~~~a.options.issuerPermissions = 0) ∧
      (op.newOptions.flags ^^^ a.options.flags) &&& ~~~a.options.issuerPermissions = 0 ∧
      op.issuer = a.issuer ∧
      (op.newOptions.whitelistAuthorities.card ≤ s.maximumAssetWhitelistAuthorities ∧
        op.newOptions.whitelistAuthorities ⊆ s.accounts) ∧
      op.newOptions.blacklistAuthorities.card ≤ s.maximumAssetWhitelistAuthorities ∧
        op.newOptions.blacklistAuthorities ⊆ s.accounts := by
  simp [doEvaluate, Option.bind_eq_some_iff, Unique.exists_iff]

theorem AssetUpdateBitasset.doEvaluate_eq_some {op : AssetUpdateBitasset} {b : Bitasset} :
    op.doEvaluate s a = some b ↔ s.headBlockTime < hardfork1Time ∧ a.bitasset = some b ∧
      b.hasSettlement = false ∧ op.checkNewBacking s a b = some () ∧ op.issuer = a.issuer := by
  simp only [doEvaluate, Option.bind_eq_bind, Option.bind_eq_some_iff, Option.guard_eq_some',
    exists_const, Option.pure_def, Option.some.injEq]
  constructor
  · rintro ⟨hfork, b, hb, hsettled, _, hbacking, hissuer, rfl⟩
    exact ⟨hfork, hb, hsettled, hbacking, hissuer⟩
  · rintro ⟨hfork, hb, hsettled, hbacking, hissuer⟩
    exact ⟨hfork, b, hb, hsettled, (), hbacking, hissuer, rfl⟩

theorem AssetUpdateFeedProducers.doEvaluate_eq_some {op : AssetUpdateFeedProducers}
    {b : Bitasset} : op.doEvaluate s a = some b ↔ s.headBlockTime < hardfork1Time ∧
      op.newFeedProducers.card ≤ s.maximumAssetFeedPublishers ∧ op.newFeedProducers ⊆ s.accounts ∧
      a.bitasset = some b ∧ a.options.flags &&& committeeFedFlag = 0 ∧
      a.options.flags &&& witnessFedFlag = 0 ∧ a.issuer = op.issuer := by
  simp only [doEvaluate, Option.bind_eq_bind, Option.bind_eq_some_iff, Option.guard_eq_some',
    exists_const, Option.pure_def, Option.some.injEq]
  constructor
  · rintro ⟨hfork, hcard, haccounts, b, hb, hcommittee, hwitness, hissuer, rfl⟩
    exact ⟨hfork, hcard, haccounts, hb, hcommittee, hwitness, hissuer⟩
  · rintro ⟨hfork, hcard, haccounts, hb, hcommittee, hwitness, hissuer⟩
    exact ⟨hfork, hcard, haccounts, b, hb, hcommittee, hwitness, hissuer, rfl⟩

theorem AssetPublishFeed.doEvaluate_eq_some {op : AssetPublishFeed} {b : Bitasset} :
    op.doEvaluate s a = some b ↔ s.headBlockTime < hardfork1Time ∧ a.bitasset = some b ∧
      b.hasSettlement = false ∧
      op.feed.settlementPrice.quote.assetId = b.options.shortBackingAsset ∧
      (op.feed.coreExchangeRate.isNull = false →
        op.feed.coreExchangeRate.quote.assetId = coreAsset) ∧ op.MayPublish s a b := by
  simp only [doEvaluate, Option.bind_eq_bind, Option.bind_eq_some_iff, Option.guard_eq_some',
    exists_const, Option.pure_def, Option.some.injEq]
  constructor
  · rintro ⟨hfork, b, hb, hsettled, hbacking, hrate, hpublisher, rfl⟩
    exact ⟨hfork, hb, hsettled, hbacking, hrate, hpublisher⟩
  · rintro ⟨hfork, hb, hsettled, hbacking, hrate, hpublisher⟩
    exact ⟨hfork, b, hb, hsettled, hbacking, hrate, hpublisher, rfl⟩

/-- **What becomes of an asset** when something happens. -/
inductive IssuedAsset.Becomes (N : NthElement PublishedFeed) (s : AssetChain) (id : AssetId)
    (a : IssuedAsset) : AssetEvent → IssuedAsset → Prop where
  /-- An operation rewrites it. -/
  | rewritten {op : AssetOperation} {a' : IssuedAsset} (hvalid : op.Valid) (hid : op.asset = id)
      (h : op.rewrite N s a = some a') : Becomes N s id a (.operation op) a'
  /-- An operation is about another. -/
  | kept {op : AssetOperation} (hid : op.asset ≠ id) : Becomes N s id a (.operation op) a
  /-- Time passes. -/
  | updateGlobalDynamicData {time : ℕ} (h : s.headBlockTime < time) :
      Becomes N s id a (.updateGlobalDynamicData time) a
  /-- A block ends. -/
  | updateExpiredFeeds :
      Becomes N s id a .updateExpiredFeeds (a.updateExpiredFeeds N s.headBlockTime)
  /-- Something else happens. -/
  | other {o : Outside} : Becomes N s id a (.other o)
      { a with
        currentSupply := o.currentSupply id
        bitasset := a.bitasset.map fun b ↦ { b with settlementPrice := o.settlementPrice id } }

theorem AssetChain.step_updateGlobalDynamicData {time : ℕ} :
    s.step N (.updateGlobalDynamicData time) = some s' ↔
      s.headBlockTime < time ∧ { s with headBlockTime := time } = s' := by
  rw [step]
  split_ifs with h <;> simp [h]

/-- An asset does not come from nothing. -/
theorem AssetChain.exists_becomes {e : AssetEvent} (h : s.step N e = some s') {id : AssetId}
    (ha' : s'.assets id = some a') : ∃ a, s.assets id = some a ∧ a.Becomes N s id e a' := by
  cases e with
  | operation op =>
    obtain ⟨hvalid, a, a₁, ha, hrewrite, rfl⟩ := AssetOperation.apply_eq_some.1 h
    rw [AssetChain.assets_setAsset] at ha'
    split at ha'
    next hid =>
      subst hid
      obtain rfl := Option.some.inj ha'
      exact ⟨a, ha, .rewritten hvalid rfl hrewrite⟩
    next hid => exact ⟨a', ha', .kept (Ne.symm hid)⟩
  | updateGlobalDynamicData time =>
    obtain ⟨hlt, rfl⟩ := AssetChain.step_updateGlobalDynamicData.1 h
    exact ⟨a', ha', .updateGlobalDynamicData hlt⟩
  | updateExpiredFeeds =>
    obtain rfl := Option.some.inj h
    obtain ⟨a, ha, rfl⟩ := Option.map_eq_some_iff.1 ha'
    exact ⟨a, ha, .updateExpiredFeeds⟩
  | other o =>
    obtain rfl := Option.some.inj h
    obtain ⟨a, ha, rfl⟩ := Option.map_eq_some_iff.1 ha'
    exact ⟨a, ha, .other⟩

/-- Nor does it go. -/
theorem AssetChain.exists_assets {e : AssetEvent} (h : s.step N e = some s') {id : AssetId}
    (ha : s.assets id = some a) : ∃ a', s'.assets id = some a' := by
  cases e with
  | operation op =>
    obtain ⟨-, a₁, a₂, -, -, rfl⟩ := AssetOperation.apply_eq_some.1 h
    rw [AssetChain.assets_setAsset]
    split
    · exact ⟨a₂, rfl⟩
    · exact ⟨a, ha⟩
  | updateGlobalDynamicData time =>
    obtain ⟨-, rfl⟩ := AssetChain.step_updateGlobalDynamicData.1 h
    exact ⟨a, ha⟩
  | updateExpiredFeeds =>
    obtain rfl := Option.some.inj h
    exact ⟨_, Option.map_eq_some_iff.2 ⟨a, ha, rfl⟩⟩
  | other o =>
    obtain rfl := Option.some.inj h
    exact ⟨_, Option.map_eq_some_iff.2 ⟨a, ha, rfl⟩⟩

theorem IssuedAsset.options_updateExpiredFeeds (now : ℕ) :
    (a.updateExpiredFeeds N now).options.issuerPermissions = a.options.issuerPermissions ∧
      (a.updateExpiredFeeds N now).options.flags = a.options.flags := by
  rw [updateExpiredFeeds]
  split
  · exact ⟨rfl, rfl⟩
  · dsimp only
    split_ifs <;> exact ⟨rfl, rfl⟩

end cases

/-! ## Permissions -/

section permissions

variable {N : NthElement PublishedFeed} {s t : AssetChain}

/-- `!(p & ~q)`: what is allowed by `p` is by `q`. -/
theorem and_not_eq_zero_iff {p q : BitVec 16} :
    p &&& ~~~q = 0 ↔ ∀ i, p.getLsbD i = true → q.getLsbD i = true := by
  constructor
  · intro h i hp
    have hi : i < 16 := BitVec.lt_of_getLsbD hp
    have hbit := congrArg (BitVec.getLsbD · i) h
    simpa [hp, hi] using hbit
  · intro h
    refine BitVec.eq_of_getLsbD_eq fun i hi ↦ ?_
    have hbit := h i
    cases hp : p.getLsbD i <;> simp_all

/-- The options are within permissions and flags that there once were: no permission has come back,
and flags differ only where they could be changed. -/
structure AssetOptions.Within (o : AssetOptions) (permissions flags : BitVec 16) : Prop where
  /-- The permissions. -/
  issuerPermissions : o.issuerPermissions &&& ~~~permissions = 0
  /-- The flags. -/
  flags : (o.flags ^^^ flags) &&& ~~~permissions = 0

theorem AssetOptions.within_self (o : AssetOptions) : o.Within o.issuerPermissions o.flags :=
  ⟨by simp, by simp⟩

theorem AssetOptions.Within.trans {o o' : AssetOptions} {permissions flags : BitVec 16}
    (h : o.Within permissions flags) (h' : o'.Within o.issuerPermissions o.flags) :
    o'.Within permissions flags := by
  have hpermissions := and_not_eq_zero_iff.1 h.issuerPermissions
  refine ⟨and_not_eq_zero_iff.2 fun i hi ↦
    hpermissions i (and_not_eq_zero_iff.1 h'.issuerPermissions i hi),
    and_not_eq_zero_iff.2 fun i hi ↦ ?_⟩
  have hone := and_not_eq_zero_iff.1 h.flags i
  have htwo := and_not_eq_zero_iff.1 h'.flags i
  rw [BitVec.getLsbD_xor] at hi hone htwo
  -- a flag that differs from what it was, differs from what it was in between, or did so then
  by_cases heq : o.flags.getLsbD i = flags.getLsbD i
  · exact hpermissions i (htwo (by rw [heq]; exact hi))
  · exact hone (by simpa using heq)

/-- There is some of the asset whenever its options are updated. -/
def Supplied (id : AssetId) (s : AssetChain) : AssetEvent → Prop
  | .operation (.update op) => op.assetToUpdate = id →
      ∀ a, s.assets id = some a → a.currentSupply ≠ 0
  | _ => True

/-- **Permissions that the issuer has given up do not come back** as long as there is some of the
asset, and the flags they were about stay as they were. -/
theorem permissions_revoked {es : List AssetEvent} (h : applied (AssetChain.step N) s es = some t)
    {id : AssetId} {a : IssuedAsset} (ha : s.assets id = some a)
    (hsupplied : Throughout (AssetChain.step N) (Supplied id) s es) :
    ∃ a', t.assets id = some a' ∧
      a'.options.Within a.options.issuerPermissions a.options.flags := by
  refine @Throughout.inv _ _ _ (fun s ↦ ∃ a', s.assets id = some a' ∧
      a'.options.Within a.options.issuerPermissions a.options.flags) (fun _ ↦ True) _ _ _ _
    hsupplied (fun _ _ ↦ trivial) ?_ ⟨a, ha, a.options.within_self⟩ h
  rintro s e s' ⟨a₁, ha₁, hwithin⟩ - hsupplied hstep
  obtain ⟨a₂, ha₂⟩ := AssetChain.exists_assets hstep ha₁
  obtain ⟨a₁', ha₁', hbecomes⟩ := AssetChain.exists_becomes hstep ha₂
  obtain rfl := Option.some.inj (ha₁.symm.trans ha₁')
  refine ⟨a₂, ha₂, ?_⟩
  cases hbecomes with
  | @rewritten op _ hvalid hid hrewrite =>
    cases op with
    | update op =>
      obtain ⟨_, hevaluate, rfl⟩ := Option.map_eq_some_iff.1 hrewrite
      obtain ⟨-, -, -, hpermissions, hflags, -⟩ := AssetUpdate.doEvaluate_eq_some.1 hevaluate
      exact hwithin.trans ⟨hpermissions (hsupplied hid a₁ ha₁), hflags⟩
    | updateBitasset op =>
      obtain ⟨_, -, rfl⟩ := Option.map_eq_some_iff.1 hrewrite
      exact hwithin
    | updateFeedProducers op =>
      obtain ⟨_, -, rfl⟩ := Option.map_eq_some_iff.1 hrewrite
      exact hwithin
    | publishFeed op =>
      obtain ⟨_, -, rfl⟩ := Option.map_eq_some_iff.1 hrewrite
      exact hwithin
  | kept => exact hwithin
  | updateGlobalDynamicData => exact hwithin
  | updateExpiredFeeds =>
    obtain ⟨hpermissions, hflags⟩ :=
      IssuedAsset.options_updateExpiredFeeds (N := N) (a := a₁) s.headBlockTime
    exact ⟨hpermissions ▸ hwithin.1, hflags ▸ hwithin.2⟩
  | other => exact hwithin

end permissions

/-- The options of an asset that its issuer may settle globally, or not, and whose force settlement
can be disabled. -/
def settleableOptions (permissions flags : BitVec 16) : AssetOptions where
  maxSupply := 1000
  marketFeePercent := 0
  maxMarketFee := 0
  issuerPermissions := permissions
  flags := flags
  coreExchangeRate := ⟨⟨1, 1⟩, ⟨2, coreAsset⟩⟩
  whitelistAuthorities := ∅
  blacklistAuthorities := ∅
  whitelistMarkets := ∅
  blacklistMarkets := ∅

/-- A market-issued asset of account 7, of which there is some, and core behind it. -/
def settleableChain : AssetChain where
  headBlockTime := 100
  maximumAssetWhitelistAuthorities := 10
  maximumAssetFeedPublishers := 10
  accounts := {0, 7}
  witnessAuths := ∅
  committeeAuths := ∅
  assets id :=
    if id = 1 then some
      { issuer := 7
        options := settleableOptions 0x30 0
        currentSupply := 50
        bitasset := some
          { options := ⟨86400, 1, 0, 0, 0, coreAsset⟩
            feeds := []
            currentFeed := .null
            currentFeedPublicationTime := 0
            settlementPrice := .null } }
    else if id = coreAsset then some ⟨0, settleableOptions 0 0, 1000, none⟩
    else none

/-- Force settlement is disabled, and the permission to settle globally is given up. -/
def giveUpSettlement : AssetUpdate where
  issuer := 7
  assetToUpdate := 1
  newIssuer := none
  newOptions := settleableOptions 0x10 0x10

theorem permissions_revoked_settlement : ∃ t a,
    applied (AssetChain.step .bySorting) settleableChain [.operation (.update giveUpSettlement)] =
      some t ∧ settleableChain.assets 1 = some a ∧ ∃ a', t.assets 1 = some a' ∧
        a'.options.Within a.options.issuerPermissions a.options.flags := by
  have hsupplied : Throughout (AssetChain.step .bySorting) (Supplied 1) settleableChain
      [.operation (.update giveUpSettlement)] := by
    refine ⟨fun _ a ha ↦ ?_, fun _ _ ↦ trivial⟩
    obtain rfl := Option.some.inj ha
    decide
  exact ⟨_, _, rfl, rfl, permissions_revoked (s := settleableChain) rfl rfl hsupplied⟩

end Graphene
