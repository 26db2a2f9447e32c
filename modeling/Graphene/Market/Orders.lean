import Graphene.Chain.Block
import Graphene.Lib.Table
import Graphene.Market.Prices

/-!
# Orders, and how they are filled

A limit order sells an amount of one asset for another.  A call order is a debt in a market-issued
asset and the collateral behind it.  A force settlement asks for collateral in exchange for a
market-issued asset.

* `LimitOrder`, `CallOrder`, `ForceSettlement` — the orders; `Market` — the database around them.
* `Market.cancelOrder`, `Market.maybeCullSmallOrder` — an order is taken back.
* `Market.fillLimitOrder`, `Market.fillCallOrder`, `Market.fillForceSettlement` — an order is
  filled, in whole or in part.
* `Market.matchLimitOrders`, `Market.matchForceSettlement` — two orders fill each other.

An order that is not there stands for a reference to an object that has been removed, and nothing
is said about what happens then.  Assertions that are not part of a release build are left out.
-/

set_option autoImplicit false

namespace Graphene

/-! ## The database -/

/-- `limit_order_object`. -/
structure LimitOrder where
  /-- `expiration`. -/
  expiration : ℕ
  /-- `seller`. -/
  seller : AccountId
  /-- `for_sale`. -/
  forSale : ℤ
  /-- `sell_price`. -/
  sellPrice : Price
  /-- `deferred_fee`. -/
  deferredFee : ℤ

namespace LimitOrder

variable (order : LimitOrder)

/-- `amount_for_sale`. -/
def amountForSale : Asset := ⟨order.forSale, order.sellPrice.base.assetId⟩

/-- `amount_to_receive`. -/
def amountToReceive : Option Asset := order.amountForSale.mulPrice order.sellPrice

end LimitOrder

/-- `call_order_object`. -/
structure CallOrder where
  /-- `borrower`. -/
  borrower : AccountId
  /-- `collateral`. -/
  collateral : ℤ
  /-- No more collateral is taken than there is. -/
  collateral_nonneg : 0 ≤ collateral
  /-- `debt`. -/
  debt : ℤ
  /-- `call_price`. -/
  callPrice : Price

namespace CallOrder

variable (order : CallOrder)

/-- `get_collateral`. -/
def getCollateral : Asset := ⟨order.collateral, order.callPrice.base.assetId⟩

/-- `get_debt`. -/
def getDebt : Asset := ⟨order.debt, order.callPrice.quote.assetId⟩

/-- `collateralization`. -/
def collateralization : Option Price := order.getCollateral.dividedBy order.getDebt

/-- The order after `receives` of the debt has been paid for `pays` of the collateral. -/
def pay (pays receives : ℤ) (h : pays ≤ order.collateral) : CallOrder :=
  { order with
    collateral := order.collateral - pays
    collateral_nonneg := Int.sub_nonneg_of_le h
    debt := order.debt - receives }

end CallOrder

/-- `force_settlement_object`. -/
structure ForceSettlement where
  /-- `owner`. -/
  owner : AccountId
  /-- `balance`. -/
  balance : Asset
  /-- `settlement_date`. -/
  settlementDate : ℕ

/-- What settlements and margin calls read of an `asset_bitasset_data_object`. -/
structure BitassetData where
  /-- `options.short_backing_asset`. -/
  shortBackingAsset : AssetId
  /-- `options.force_settlement_delay_sec`. -/
  forceSettlementDelaySec : ℕ
  /-- `current_feed`. -/
  currentFeed : PriceFeed
  /-- `is_prediction_market`. -/
  isPredictionMarket : Bool
  /-- `settlement_price`. -/
  settlementPrice : Price
  /-- `settlement_fund`. -/
  settlementFund : ℤ

/-- `has_settlement`. -/
def BitassetData.hasSettlement (b : BitassetData) : Bool := !b.settlementPrice.isNull

/-- What there is in the `options` of an `asset_object` about its markets. -/
structure MarketOptions where
  /-- The flag `charge_market_fee`. -/
  chargesMarketFees : Bool
  /-- `market_fee_percent`. -/
  marketFeePercent : ℕ
  /-- `max_market_fee`. -/
  maxMarketFee : ℤ
  /-- The flag `disable_force_settle` is not set. -/
  canForceSettle : Bool

/-- What the markets read and write of the database. -/
structure Market where
  /-- Balances, assets and fees. -/
  ledger : Ledger
  /-- `total_core_in_orders` of the `account_statistics_object`s. -/
  totalCoreInOrders : AccountId → ℤ
  /-- The `limit_order_object`s. -/
  limitOrders : Table LimitOrder
  /-- The `call_order_object`s. -/
  callOrders : Table CallOrder
  /-- The `force_settlement_object`s. -/
  forceSettlements : Table ForceSettlement
  /-- The id of the next `force_settlement_object`. -/
  nextSettlementId : ℕ
  /-- The `asset_bitasset_data_object`s of the assets that are market-issued. -/
  bitassets : AssetId → Option BitassetData
  /-- The market options of the assets. -/
  marketOptions : AssetId → MarketOptions

namespace Market

variable (m : Market)

/-! ## Balances and counters -/

/-- `adjust_balance`. -/
def adjustBalance (account : AccountId) (delta : Asset) : Option Market :=
  (m.ledger.adjustBalance account delta).map fun l ↦ { m with ledger := l }

/-- `total_core_in_orders` of an account grows by `amount`. -/
def addCoreInOrders (account : AccountId) (amount : ℤ) : Market :=
  { m with
    totalCoreInOrders :=
      Function.update m.totalCoreInOrders account (m.totalCoreInOrders account + amount) }

/-- `current_supply` of an asset. -/
def currentSupply (id : AssetId) : ℤ := (m.ledger.dynamicData id).currentSupply

/-- The dynamic data of an asset change. -/
def modifyDynamicData (id : AssetId) (f : AssetDynamicData → AssetDynamicData) : Market :=
  { m with
    ledger := { m.ledger with
      dynamicData := Function.update m.ledger.dynamicData id (f (m.ledger.dynamicData id)) } }

/-- `statistics.pay_fee`. -/
def payDeferredFee (account : AccountId) (fee : ℤ) : Market :=
  { m with
    ledger := { m.ledger with
      statistics := Function.update m.ledger.statistics account
        ((m.ledger.statistics account).payFee fee m.ledger.cashbackVestingThreshold) } }

/-! ## Orders that are taken back -/

/-- `cancel_order` of a limit order. -/
def cancelOrder (id : ℕ) : Option Market := do
  let order ← m.limitOrders.lookup id
  let refunded := order.amountForSale
  let _ ← m.ledger.accounts order.seller
  let m :=
    if refunded.assetId = coreAsset then m.addCoreInOrders order.seller (-refunded.amount) else m
  let m ← m.adjustBalance order.seller refunded
  let m ← m.adjustBalance order.seller ⟨order.deferredFee, coreAsset⟩
  return { m with limitOrders := m.limitOrders.erase id }

/-- `maybe_cull_small_order`. -/
def maybeCullSmallOrder (id : ℕ) : Option (Market × Bool) := do
  let order ← m.limitOrders.lookup id
  let receive ← order.amountToReceive
  if receive.amount = 0 then
    let m ← m.cancelOrder id
    return (m, true)
  else return (m, false)

/-! ## Orders that are filled -/

/-- `calculate_market_fee`. -/
def calculateMarketFee (tradeAmount : Asset) : Asset :=
  let options := m.marketOptions tradeAmount.assetId
  if !options.chargesMarketFees ∨ options.marketFeePercent = 0 then ⟨0, tradeAmount.assetId⟩
  else
    ⟨min (tradeAmount.amount * options.marketFeePercent / hundredPercent) options.maxMarketFee,
      tradeAmount.assetId⟩

/-- `pay_market_fees`. -/
def payMarketFees (receives : Asset) : Option (Market × Asset) := do
  let _ ← m.ledger.assets receives.assetId
  let issuerFees := m.calculateMarketFee receives
  if issuerFees.amount > 0 then
    return (m.modifyDynamicData receives.assetId fun d ↦
      { d with accumulatedFees := d.accumulatedFees + issuerFees.amount }, issuerFees)
  else return (m, issuerFees)

/-- `pay_order`. -/
def payOrder (receiver : AccountId) (receives pays : Asset) : Option Market :=
  let m := if pays.assetId = coreAsset then m.addCoreInOrders receiver (-pays.amount) else m
  m.adjustBalance receiver receives

/-- `fill_order` of a limit order: whether it is gone. -/
def fillLimitOrder (id : ℕ) (pays receives : Asset) (cullIfSmall : Bool) :
    Option (Market × Bool) := do
  let order ← m.limitOrders.lookup id
  guard (order.amountForSale.assetId = pays.assetId)
  guard (pays.assetId ≠ receives.assetId)
  let _ ← m.ledger.accounts order.seller
  let (m, issuerFees) ← m.payMarketFees receives
  let paid ← receives.sub issuerFees
  let m ← m.payOrder order.seller paid pays
  let m := if order.deferredFee > 0 then m.payDeferredFee order.seller order.deferredFee else m
  if pays = order.amountForSale then
    return ({ m with limitOrders := m.limitOrders.erase id }, true)
  else
    let m := { m with
      limitOrders := m.limitOrders.insert id
        { order with forSale := order.forSale - pays.amount, deferredFee := 0 } }
    if cullIfSmall then m.maybeCullSmallOrder id else return (m, false)

/-- The collateral that is freed goes to the borrower. -/
def freeCollateral (borrower : AccountId) (collateralFreed : Option Asset) : Option Market :=
  match collateralFreed with
  | none => some m
  | some freed => do
    let m ← m.adjustBalance borrower freed
    -- It is taken off the counter whatever asset it is.
    return if freed.amount > 0 then m.addCoreInOrders borrower (-freed.amount) else m

/-- `fill_order` of a call order: whether it is gone. -/
def fillCallOrder (id : ℕ) (pays receives : Asset) : Option (Market × Bool) := do
  let order ← m.callOrders.lookup id
  guard (order.getDebt.assetId = receives.assetId)
  guard (order.getCollateral.assetId = pays.assetId)
  if h : pays.amount ≤ order.collateral then
    let order := order.pay pays.amount receives.amount h
    let collateralFreed := if order.debt = 0 then some order.getCollateral else none
    let _ ← m.ledger.assets receives.assetId
    let m := m.modifyDynamicData receives.assetId fun d ↦
      { d with currentSupply := d.currentSupply - receives.amount }
    let _ ← m.ledger.accounts order.borrower
    let m ← m.freeCollateral order.borrower collateralFreed
    let m :=
      if pays.assetId = coreAsset then m.addCoreInOrders order.borrower (-pays.amount) else m
    return ({ m with
      callOrders :=
        if order.debt = 0 then m.callOrders.erase id else m.callOrders.insert id order },
      order.debt = 0)
  else none

variable {m}

/-- **All that filling a call order does.** -/
theorem fillCallOrder_spec {m' : Market} {id : ℕ} {pays receives : Asset} {filled : Bool}
    (h : m.fillCallOrder id pays receives = some (m', filled)) :
    ∃ order, ∃ hpays : pays.amount ≤ order.collateral, ∃ m₁,
      m.callOrders.lookup id = some order ∧
      order.callPrice.quote.assetId = receives.assetId ∧
      order.callPrice.base.assetId = pays.assetId ∧
      (m.modifyDynamicData receives.assetId fun d ↦
        { d with currentSupply := d.currentSupply - receives.amount }).freeCollateral order.borrower
          (if (order.pay pays.amount receives.amount hpays).debt = 0 then
            some (order.pay pays.amount receives.amount hpays).getCollateral
          else none) = some m₁ ∧
      m' = { (if pays.assetId = coreAsset then m₁.addCoreInOrders order.borrower (-pays.amount)
          else m₁) with
        callOrders :=
          if (order.pay pays.amount receives.amount hpays).debt = 0 then m₁.callOrders.erase id
          else m₁.callOrders.insert id (order.pay pays.amount receives.amount hpays) } := by
  simp only [fillCallOrder, Option.bind_eq_bind, Option.bind_eq_some_iff, Option.guard_eq_some',
    exists_const] at h
  obtain ⟨order, horder, hdebt, hasset, h⟩ := h
  by_cases hpays : pays.amount ≤ order.collateral
  · rw [dif_pos hpays] at h
    simp only [Option.bind_eq_some_iff] at h
    obtain ⟨-, -, -, -, m₁, hm₁, h⟩ := h
    obtain ⟨rfl, -⟩ := Prod.mk.inj (Option.some.inj h)
    refine ⟨order, hpays, m₁, horder, hdebt, hasset, hm₁, ?_⟩
    have hcalls : (if pays.assetId = coreAsset then m₁.addCoreInOrders order.borrower (-pays.amount)
        else m₁).callOrders = m₁.callOrders := by
      split_ifs <;> rfl
    rw [← hcalls]
    rfl
  · rw [dif_neg hpays] at h
    cases h

theorem orders_freeCollateral {m' : Market} {borrower : AccountId} {freed : Option Asset}
    (h : m.freeCollateral borrower freed = some m') :
    m'.limitOrders = m.limitOrders ∧ m'.callOrders = m.callOrders := by
  cases freed with
  | none =>
    obtain rfl := Option.some.inj h
    exact ⟨rfl, rfl⟩
  | some f =>
    obtain ⟨m₁, hm₁, h⟩ := Option.bind_eq_some_iff.1 h
    obtain ⟨l, -, rfl⟩ := Option.map_eq_some_iff.1 hm₁
    obtain rfl := Option.some.inj h
    split_ifs
    · exact ⟨rfl, rfl⟩
    · exact ⟨rfl, rfl⟩

/-- The other call orders are not touched. -/
theorem lookup_fillCallOrder {m' : Market} {id j : ℕ} {pays receives : Asset} {filled : Bool}
    (h : m.fillCallOrder id pays receives = some (m', filled)) (hj : j ≠ id) :
    m'.callOrders.lookup j = m.callOrders.lookup j := by
  obtain ⟨order, hpays, m₁, -, -, -, hm₁, rfl⟩ := fillCallOrder_spec h
  have hcalls : m₁.callOrders = m.callOrders := (orders_freeCollateral hm₁).2
  show AList.lookup j (if _ then _ else _) = _
  split_ifs
  · rw [hcalls, AList.lookup_erase_ne hj]
  · rw [hcalls, AList.lookup_insert_ne hj]

/-- Nor are the limit orders. -/
theorem limits_fillCallOrder {m' : Market} {id : ℕ} {pays receives : Asset} {filled : Bool}
    (h : m.fillCallOrder id pays receives = some (m', filled)) :
    m'.limitOrders = m.limitOrders := by
  obtain ⟨order, hpays, m₁, -, -, -, hm₁, rfl⟩ := fillCallOrder_spec h
  have hlimits : m₁.limitOrders = m.limitOrders := (orders_freeCollateral hm₁).1
  show (if pays.assetId = coreAsset then _ else m₁).limitOrders = _
  split_ifs
  · exact hlimits
  · exact hlimits

variable (m)

/-- `fill_order` of a force settlement: whether it is gone. -/
def fillForceSettlement (id : ℕ) (pays receives : Asset) : Option (Market × Bool) := do
  let settle ← m.forceSettlements.lookup id
  let (m, issuerFees) ← m.payMarketFees receives
  let partly ← pays.less settle.balance
  let paid ← receives.sub issuerFees
  let m ← m.adjustBalance settle.owner paid
  if partly then
    let balance ← settle.balance.sub pays
    return ({ m with
      forceSettlements := m.forceSettlements.insert id { settle with balance := balance } }, false)
  else return ({ m with forceSettlements := m.forceSettlements.erase id }, true)

/-! ## Orders that fill each other -/

/-- `match` of two limit orders, which are gone as the first and the second bit of the result
say. -/
def matchLimitOrders (usd core : ℕ) (matchPrice : Price) : Option (Market × Bool × Bool) := do
  let usdForSale := (← m.limitOrders.lookup usd).amountForSale
  let coreForSale := (← m.limitOrders.lookup core).amountForSale
  let coreWorth ← coreForSale.mulPrice matchPrice
  let less ← usdForSale.lessEq coreWorth
  let usdReceives ← (if less then usdForSale.mulPrice matchPrice else some coreForSale)
  let coreReceives := if less then usdForSale else coreWorth
  let (m, usdFilled) ← m.fillLimitOrder usd coreReceives usdReceives false
  let (m, coreFilled) ← m.fillLimitOrder core usdReceives coreReceives true
  return (m, usdFilled, coreFilled)

/-- `match` of a call order and a force settlement: what is settled. -/
def matchForceSettlement (call settle : ℕ) (matchPrice : Price) (maxSettlement : Asset) :
    Option (Market × Asset) := do
  let order ← m.callOrders.lookup call
  let settlement ← m.forceSettlements.lookup settle
  guard (order.getDebt.assetId = settlement.balance.assetId)
  guard (order.debt > 0 ∧ order.collateral > 0 ∧ settlement.balance.amount > 0)
  let settleForSale ← settlement.balance.minimum maxSettlement
  let callReceives ← settleForSale.minimum order.getDebt
  let callPays ← callReceives.mulPrice matchPrice
  guard (← callPays.less order.getCollateral)
  let (m, _) ← m.fillCallOrder call callPays callReceives
  let (m, _) ← m.fillForceSettlement settle callReceives callPays
  return (m, callReceives)

end Market

end Graphene
