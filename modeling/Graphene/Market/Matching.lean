import Graphene.Market.OrderBook
import Mathlib.Tactic.Linarith
import Mathlib.Tactic.Ring

/-!
# What a match exchanges

Two orders that are matched exchange what each of them pays for what the other one pays.

What an order holds is not in any balance, so conservation has two sides: what leaves the orders,
and what accounts, fees and supplies gain.  Each way of filling an order says of the second what it
adds to `Money`, and of the first what is left of the order; a match adds two of them up, and the
amounts cancel but for the fee.

* `Money` — what there is of the assets outside of orders: balances, fees and supplies.
* `moves_fillLimitOrder`, `moves_fillCallOrder`, `moves_fillForceSettlement` — what filling an order
  does to it; `fillLimitOrder_isSome` and its like — when an order can be filled.
* `Exchange`, `Market.LimitsMatched`, `Market.CallMatched` — what a match does.
* `matchLimitOrders_exchange`, `matchForceSettlement_exchange` — when a match returns, and that it
  does so.
* `match_conserves` — both.
-/

set_option autoImplicit false

namespace Graphene

/-! ## Money -/

/-- What the accounts have of the assets, what is collected of the fees, and the supplies. -/
abbrev Money := (AccountId → AssetId → ℤ) × (AssetId → ℤ) × (AssetId → ℤ)

namespace Money

/-- An account is paid. -/
def paid (account : AccountId) (amount : Asset) : Money :=
  (Pi.single account (Pi.single amount.assetId amount.amount), 0, 0)

/-- A fee is collected. -/
def collected (fee : Asset) : Money := (0, Pi.single fee.assetId fee.amount, 0)

/-- The supply grows. -/
def issued (amount : Asset) : Money := (0, 0, Pi.single amount.assetId amount.amount)

@[simp]
theorem paid_zero (account : AccountId) (id : AssetId) : paid account ⟨0, id⟩ = 0 := by
  rw [paid, Pi.single_zero, Pi.single_zero]
  rfl

@[simp]
theorem collected_zero (id : AssetId) : collected ⟨0, id⟩ = 0 := by
  rw [collected, Pi.single_zero]
  rfl

end Money

/-- `asset_options::validate` lets what it says about markets pass. -/
def MarketOptions.Valid (o : MarketOptions) : Prop :=
  o.marketFeePercent ≤ hundredPercent ∧ 0 ≤ o.maxMarketFee ∧ o.maxMarketFee ≤ maxShareSupply

namespace Market

variable {m m' m₁ : Market}

/-- What there is of the assets outside of orders. -/
def money (m : Market) : Money :=
  (m.ledger.getBalance, fun x ↦ (m.ledger.dynamicData x).accumulatedFees, m.currentSupply)

/-- Accounts, assets, options and the time are the same. -/
structure SameWorld (m m' : Market) : Prop where
  /-- The accounts are the same. -/
  accounts : m'.ledger.accounts = m.ledger.accounts
  /-- The assets are the same. -/
  assets : m'.ledger.assets = m.ledger.assets
  /-- The options are the same. -/
  options : m'.marketOptions = m.marketOptions
  /-- The market-issued assets are the same. -/
  bitassets : m'.bitassets = m.bitassets
  /-- The time is the same. -/
  time : m'.ledger.headBlockTime = m.ledger.headBlockTime

theorem SameWorld.refl (m : Market) : SameWorld m m := ⟨rfl, rfl, rfl, rfl, rfl⟩

theorem SameWorld.trans (h : SameWorld m m₁) (h' : SameWorld m₁ m') : SameWorld m m' :=
  ⟨h'.accounts.trans h.accounts, h'.assets.trans h.assets, h'.options.trans h.options,
    h'.bitassets.trans h.bitassets, h'.time.trans h.time⟩

/-- What there is of the assets changes by `change`, and the world does not. -/
structure Moves (change : Money) (m m' : Market) : Prop where
  /-- What there is of the assets. -/
  money : m'.money = m.money + change
  /-- The settlements are the same. -/
  settlements : m'.forceSettlements = m.forceSettlements
  /-- Everything else is the same. -/
  world : SameWorld m m'

namespace Moves

variable {change change' : Money}

theorem refl (m : Market) : Moves 0 m m := ⟨(add_zero _).symm, rfl, .refl m⟩

theorem trans (h : Moves change m m₁) (h' : Moves change' m₁ m') :
    Moves (change + change') m m' :=
  ⟨by rw [h'.money, h.money, add_assoc], h'.settlements.trans h.settlements, h.world.trans h'.world⟩

theorem congr (h : Moves change m m') (heq : change = change') : Moves change' m m' := heq ▸ h

/-- The limit orders are none of what moves. -/
theorem limits (h : Moves change m m') (orders : Table LimitOrder) :
    Moves change m { m' with limitOrders := orders } :=
  ⟨h.money, h.settlements, h.world.accounts, h.world.assets, h.world.options, h.world.bitassets,
    h.world.time⟩

/-- Nor are the call orders. -/
theorem calls (h : Moves change m m') (orders : Table CallOrder) :
    Moves change m { m' with callOrders := orders } :=
  ⟨h.money, h.settlements, h.world.accounts, h.world.assets, h.world.options, h.world.bitassets,
    h.world.time⟩

end Moves

/-! ## Balances and fees -/

theorem money_setBalance (m : Market) (account : AccountId) (id : AssetId) (amount : ℤ) :
    { m with ledger := m.ledger.setBalance account id amount }.money =
      m.money + .paid account ⟨amount - m.ledger.getBalance account id, id⟩ := by
  refine Prod.ext (funext fun a ↦ funext fun i ↦ ?_) (Prod.ext ?_ ?_)
  · show (m.ledger.setBalance account id amount).getBalance a i = m.ledger.getBalance a i +
      Pi.single (M := fun _ : AccountId ↦ AssetId → ℤ) account
        (Pi.single id (amount - m.ledger.getBalance account id)) a i
    rw [Ledger.getBalance_setBalance]
    rcases eq_or_ne a account with rfl | ha
    · rw [Pi.single_eq_same]
      rcases eq_or_ne i id with rfl | hi
      · rw [if_pos ⟨rfl, rfl⟩, Pi.single_eq_same]
        omega
      · rw [if_neg fun h ↦ hi h.2, Pi.single_eq_of_ne hi, add_zero]
    · rw [if_neg fun h ↦ ha h.1, Pi.single_eq_of_ne ha, Pi.zero_apply, add_zero]
  · exact (add_zero _).symm
  · exact (add_zero _).symm

theorem moves_adjustBalance {account : AccountId} {delta : Asset}
    (h : m.adjustBalance account delta = some m') : Moves (.paid account delta) m m' := by
  obtain ⟨l, hl, rfl⟩ := Option.map_eq_some_iff.1 h
  have hset : ∀ amount, amount = m.ledger.getBalance account delta.assetId + delta.amount →
      Moves (.paid account delta) m
        { m with ledger := m.ledger.setBalance account delta.assetId amount } := by
    rintro amount rfl
    refine ⟨?_, rfl, rfl, rfl, rfl, rfl, rfl⟩
    rw [money_setBalance, add_sub_cancel_left]
  rw [Ledger.adjustBalance] at hl
  by_cases hzero : delta.amount = 0
  · rw [if_pos hzero] at hl
    obtain rfl := Option.some.inj hl
    obtain ⟨amount, id⟩ := delta
    obtain rfl : amount = 0 := hzero
    exact (Moves.refl m).congr (Money.paid_zero account id).symm
  rw [if_neg hzero] at hl
  cases hbalance : m.ledger.balances account delta.assetId with
  | none =>
    rw [hbalance] at hl
    obtain ⟨-, heq⟩ := Option.ite_none_right_eq_some.1 hl
    obtain rfl := Option.some.inj heq
    exact hset _ (by rw [Ledger.getBalance, hbalance, Option.getD_none, zero_add])
  | some balance =>
    rw [hbalance] at hl
    obtain ⟨-, heq⟩ := Option.ite_none_left_eq_some.1 hl
    obtain rfl := Option.some.inj heq
    exact hset _ (by rw [Ledger.getBalance, hbalance, Option.getD_some])

/-- Nothing keeps an account from being paid. -/
theorem adjustBalance_isSome (m : Market) (account : AccountId) (delta : Asset)
    (h : 0 ≤ delta.amount) : ∃ m', m.adjustBalance account delta = some m' := by
  refine Option.isSome_iff_exists.1 ?_
  rw [adjustBalance, Option.isSome_map]
  rcases h.eq_or_lt with hzero | hpos
  · rw [Ledger.adjustBalance, if_pos hzero.symm]
    rfl
  · rw [Ledger.adjustBalance_credit _ hpos]
    rfl

theorem moves_addIf (c : Prop) [Decidable c] (account : AccountId) (x : ℤ) :
    Moves 0 m (if c then m.addCoreInOrders account x else m) := by
  split_ifs
  · exact ⟨(add_zero _).symm, rfl, rfl, rfl, rfl, rfl, rfl⟩
  · exact .refl m

theorem calculateMarketFee_bounds {trade : Asset} (hvalid : (m.marketOptions trade.assetId).Valid)
    (h : 0 ≤ trade.amount) :
    (m.calculateMarketFee trade).assetId = trade.assetId ∧
      0 ≤ (m.calculateMarketFee trade).amount ∧
        (m.calculateMarketFee trade).amount ≤ trade.amount := by
  obtain ⟨hpercent, hmax, -⟩ := hvalid
  rw [calculateMarketFee]
  split_ifs
  · exact ⟨rfl, le_rfl, h⟩
  · have hshare : 0 ≤ trade.amount * (m.marketOptions trade.assetId).marketFeePercent /
        hundredPercent := Int.ediv_nonneg (mul_nonneg h (Int.natCast_nonneg _)) (by decide)
    refine ⟨rfl, le_min hshare hmax, (min_le_left _ _).trans ?_⟩
    refine Int.ediv_le_of_le_mul (by decide) (mul_le_mul_of_nonneg_left ?_ h)
    exact_mod_cast hpercent

theorem money_modifyDynamicData (id : AssetId) (f : AssetDynamicData → AssetDynamicData)
    (x y : ℤ) (hfees : (f (m.ledger.dynamicData id)).accumulatedFees =
      (m.ledger.dynamicData id).accumulatedFees + x)
    (hsupply : (f (m.ledger.dynamicData id)).currentSupply =
      (m.ledger.dynamicData id).currentSupply + y) :
    Moves (.collected ⟨x, id⟩ + .issued ⟨y, id⟩) m (m.modifyDynamicData id f) := by
  refine ⟨Prod.ext ?_ (Prod.ext (funext fun i ↦ ?_) (funext fun i ↦ ?_)), rfl, rfl, rfl, rfl, rfl,
    rfl⟩
  · exact (add_zero _).symm
  · show (Function.update m.ledger.dynamicData id _ i).accumulatedFees =
      (m.ledger.dynamicData i).accumulatedFees + (Pi.single (M := fun _ ↦ ℤ) id x i + 0)
    rw [add_zero]
    rcases eq_or_ne i id with rfl | hi
    · rw [Function.update_self, Pi.single_eq_same, hfees]
    · rw [Function.update_of_ne hi, Pi.single_eq_of_ne hi, add_zero]
  · show (Function.update m.ledger.dynamicData id _ i).currentSupply =
      (m.ledger.dynamicData i).currentSupply + (0 + Pi.single (M := fun _ ↦ ℤ) id y i)
    rw [zero_add]
    rcases eq_or_ne i id with rfl | hi
    · rw [Function.update_self, Pi.single_eq_same, hsupply]
    · rw [Function.update_of_ne hi, Pi.single_eq_of_ne hi, add_zero]

theorem moves_payMarketFees {receives fees : Asset}
    (hvalid : (m.marketOptions receives.assetId).Valid) (hpos : 0 ≤ receives.amount)
    (h : m.payMarketFees receives = some (m', fees)) :
    fees.assetId = receives.assetId ∧ 0 ≤ fees.amount ∧ fees.amount ≤ receives.amount ∧
      Moves (.collected fees) m m' := by
  obtain ⟨hid, hnonneg, hle⟩ := calculateMarketFee_bounds hvalid hpos
  simp only [payMarketFees, Option.bind_eq_bind, Option.bind_eq_some_iff] at h
  obtain ⟨-, -, h⟩ := h
  split_ifs at h with hfee
  · obtain ⟨rfl, rfl⟩ := Prod.mk.inj (Option.some.inj h)
    refine ⟨hid, hnonneg, hle, (money_modifyDynamicData receives.assetId _ _ 0 rfl
      (add_zero _).symm).congr ?_⟩
    rw [Money.issued, Pi.single_zero, ← hid]
    exact add_zero _
  · obtain ⟨rfl, rfl⟩ := Prod.mk.inj (Option.some.inj h)
    refine ⟨hid, hnonneg, hle, (Moves.refl m).congr ?_⟩
    have hzero : (m.calculateMarketFee receives).amount = 0 := by omega
    rw [Money.collected, hzero, Pi.single_zero]
    rfl

theorem payMarketFees_isSome {receives : Asset} {asset : AssetObject}
    (h : m.ledger.assets receives.assetId = some asset) :
    ∃ r, m.payMarketFees receives = some r := by
  rw [payMarketFees, h, Option.bind_eq_bind, Option.bind_some]
  dsimp only
  split_ifs
  · exact ⟨_, rfl⟩
  · exact ⟨_, rfl⟩

/-! ## Limit orders -/

/-- What is for sale of an order, if it is there. -/
def forSaleOf (m : Market) (id : ℕ) : ℤ := (m.limitOrders.lookup id).elim 0 LimitOrder.forSale

theorem moves_cancelOrder {id : ℕ} {order : LimitOrder}
    (horder : m.limitOrders.lookup id = some order) (h : m.cancelOrder id = some m') :
    Moves (.paid order.seller order.amountForSale +
      .paid order.seller ⟨order.deferredFee, coreAsset⟩) m m' := by
  simp only [cancelOrder, horder, Option.bind_eq_bind, Option.bind_eq_some_iff, Option.some.injEq,
    exists_eq_left'] at h
  obtain ⟨-, -, m₁, hm₁, m₂, hm₂, h⟩ := h
  obtain rfl := Option.some.inj h
  have hmoves := ((moves_addIf _ _ _).trans (moves_adjustBalance hm₁)).trans
    (moves_adjustBalance hm₂)
  exact (hmoves.limits _).congr (by rw [zero_add])

theorem moves_maybeCullSmallOrder {id : ℕ} {order : LimitOrder} {culled : Bool}
    (horder : m.limitOrders.lookup id = some order) (hfee : order.deferredFee = 0)
    (h : m.maybeCullSmallOrder id = some (m', culled)) :
    Moves (if culled then .paid order.seller order.amountForSale else 0) m m' := by
  simp only [maybeCullSmallOrder, horder, Option.bind_eq_bind, Option.bind_eq_some_iff,
    Option.some.injEq, exists_eq_left'] at h
  obtain ⟨receive, -, h⟩ := h
  split_ifs at h
  · obtain ⟨m₁, hm₁, h⟩ := Option.bind_eq_some_iff.1 h
    obtain ⟨rfl, rfl⟩ := Prod.mk.inj (Option.some.inj h)
    refine (moves_cancelOrder horder hm₁).congr ?_
    rw [hfee, Money.paid_zero, add_zero]
    rfl
  · obtain ⟨rfl, rfl⟩ := Prod.mk.inj (Option.some.inj h)
    exact .refl m

/-- **What filling a limit order moves**: its seller is paid, less a fee, and is given back what is
too small to be sold. -/
theorem moves_fillLimitOrder {id : ℕ} {order : LimitOrder} {pays receives : Asset}
    {cull filled : Bool} (h : m.fillLimitOrder id pays receives cull = some (m', filled))
    (horder : m.limitOrders.lookup id = some order)
    (hvalid : (m.marketOptions receives.assetId).Valid) (hpos : 0 ≤ receives.amount)
    (hle : pays.amount ≤ order.forSale) :
    ∃ fee refund, 0 ≤ fee ∧ fee ≤ receives.amount ∧ 0 ≤ refund ∧
      Moves (.paid order.seller ⟨receives.amount - fee, receives.assetId⟩ +
        .collected ⟨fee, receives.assetId⟩ + .paid order.seller ⟨refund, pays.assetId⟩) m m' ∧
      m'.forSaleOf id = order.forSale - pays.amount - refund ∧
      (refund = 0 ∨ cull = true ∧ m'.limitOrders.lookup id = none) := by
  simp only [fillLimitOrder, horder, Option.bind_eq_bind, Option.bind_eq_some_iff,
    Option.guard_eq_some', exists_const, Option.some.injEq, exists_eq_left'] at h
  obtain ⟨hasset, -, -, -, ⟨m₁, fees⟩, hfees, paid, hpaid, m₂, hm₂, h⟩ := h
  obtain ⟨hid, hfee, hfeele, hmoves₁⟩ := moves_payMarketFees hvalid hpos hfees
  obtain ⟨fee, _⟩ := fees
  obtain rfl := hid
  rw [Asset.sub, if_pos rfl] at hpaid
  obtain rfl := Option.some.inj hpaid
  have hmoves₂ := hmoves₁.trans (((moves_addIf _ _ _).trans (moves_adjustBalance hm₂)))
  -- The deferred fee is none of the money that is counted.
  have hmoves₃ : Moves (.paid order.seller ⟨receives.amount - fee, receives.assetId⟩ +
      .collected ⟨fee, receives.assetId⟩) m
      (if order.deferredFee > 0 then m₂.payDeferredFee order.seller order.deferredFee
        else m₂) := by
    have hdeferred : Moves 0 m₂ (if order.deferredFee > 0 then
        m₂.payDeferredFee order.seller order.deferredFee else m₂) := by
      split_ifs
      · exact ⟨(add_zero _).symm, rfl, rfl, rfl, rfl, rfl, rfl⟩
      · exact .refl m₂
    exact (hmoves₂.trans hdeferred).congr (by abel)
  generalize (if order.deferredFee > 0 then _ else m₂) = m₃ at hmoves₃ h
  refine ⟨fee, ?_⟩
  split_ifs at h with hall hcull
  · obtain ⟨rfl, -⟩ := Prod.mk.inj (Option.some.inj h)
    refine ⟨0, hfee, hfeele, le_rfl, ?_, ?_, .inl rfl⟩
    · exact (hmoves₃.limits _).congr (by rw [Money.paid_zero, add_zero])
    · rw [forSaleOf, AList.lookup_erase, hall, sub_zero]
      exact (sub_self order.forSale).symm
  · let rest := order.pay pays.amount
    have hmoves₄ := hmoves₃.limits (m₃.limitOrders.insert id rest)
    have hrest : { m₃ with limitOrders := m₃.limitOrders.insert id rest }.limitOrders.lookup id =
        some rest := AList.lookup_insert _
    have hculled := moves_maybeCullSmallOrder hrest rfl h
    obtain ⟨-, ⟨rfl, hgone, -⟩ | ⟨-, rfl, -⟩⟩ := lookup_maybeCullSmallOrder h
    · refine ⟨rest.forSale, hfee, hfeele, Int.sub_nonneg_of_le hle, ?_, ?_, .inr ⟨hcull, hgone⟩⟩
      · rw [← hasset]
        exact hmoves₄.trans hculled
      · rw [forSaleOf, hgone]
        exact (sub_self _).symm
    · refine ⟨0, hfee, hfeele, le_rfl, hmoves₄.congr (by rw [Money.paid_zero, add_zero]), ?_,
        .inl rfl⟩
      rw [forSaleOf, AList.lookup_insert]
      exact (sub_zero _).symm
  · obtain ⟨rfl, -⟩ := Prod.mk.inj (Option.some.inj h)
    refine ⟨0, hfee, hfeele, le_rfl, ?_, ?_, .inl rfl⟩
    · exact (hmoves₃.limits _).congr (by rw [Money.paid_zero, add_zero])
    · rw [forSaleOf, AList.lookup_insert]
      exact (sub_zero _).symm

/-- An order counts as filled exactly if it is gone, as it is when all that was for sale is paid. -/
theorem filled_iff_gone {id : ℕ} {order : LimitOrder} {pays receives : Asset} {cull filled : Bool}
    (h : m.fillLimitOrder id pays receives cull = some (m', filled))
    (horder : m.limitOrders.lookup id = some order) :
    (filled = true ↔ m'.limitOrders.lookup id = none) ∧
      (pays = order.amountForSale → filled = true) := by
  obtain ⟨order', horder', -, -, hfilled⟩ := lookup_fillLimitOrder h
  obtain rfl := Option.some.inj (horder.symm.trans horder')
  rcases hfilled with ⟨rfl, hnone, -⟩ | ⟨rfl, hpart, hsome, -⟩
  · exact ⟨iff_of_true rfl hnone, fun _ ↦ rfl⟩
  · refine ⟨iff_of_false Bool.false_ne_true ?_, fun hall ↦ absurd hall hpart⟩
    rw [hsome]
    exact Option.some_ne_none _

theorem cancelOrder_isSome {id : ℕ} {order : LimitOrder} {account : AccountObject}
    (horder : m.limitOrders.lookup id = some order)
    (haccount : m.ledger.accounts order.seller = some account) (hsale : 0 ≤ order.forSale)
    (hfee : 0 ≤ order.deferredFee) : ∃ m', m.cancelOrder id = some m' := by
  simp only [cancelOrder, horder, haccount, Option.bind_eq_bind, Option.bind_some]
  obtain ⟨m₁, hm₁⟩ := adjustBalance_isSome
    (if order.amountForSale.assetId = coreAsset then
      m.addCoreInOrders order.seller (-order.amountForSale.amount) else m)
    order.seller order.amountForSale hsale
  obtain ⟨m₂, hm₂⟩ := adjustBalance_isSome m₁ order.seller ⟨order.deferredFee, coreAsset⟩ hfee
  rw [hm₁, Option.bind_some, hm₂]
  exact ⟨_, rfl⟩

/-- **A limit order can be filled** whose seller and assets are there; if the rest may be too small
to be sold, what is to be received for it is an amount. -/
theorem fillLimitOrder_isSome {id : ℕ} {order : LimitOrder} {account : AccountObject}
    {asset : AssetObject} (pays receives : Asset) (cull : Bool)
    (horder : m.limitOrders.lookup id = some order)
    (haccount : m.ledger.accounts order.seller = some account)
    (hasset : m.ledger.assets receives.assetId = some asset)
    (hvalid : (m.marketOptions receives.assetId).Valid) (hpos : 0 ≤ receives.amount)
    (hid : order.amountForSale.assetId = pays.assetId) (hne : pays.assetId ≠ receives.assetId)
    (hle : pays.amount ≤ order.forSale)
    (hcull : cull = true → ∃ receive, (order.pay pays.amount).amountToReceive = some receive) :
    ∃ r, m.fillLimitOrder id pays receives cull = some r := by
  obtain ⟨⟨m₁, fees⟩, hfees⟩ := payMarketFees_isSome hasset
  obtain ⟨hfid, -, hfeele, hmoves₁⟩ := moves_payMarketFees hvalid hpos hfees
  obtain ⟨m₂, hm₂⟩ : ∃ m₂, m₁.payOrder order.seller
      ⟨receives.amount - fees.amount, receives.assetId⟩ pays = some m₂ :=
    adjustBalance_isSome _ _ _ (Int.sub_nonneg_of_le hfeele)
  have hworld := hmoves₁.world.trans ((moves_addIf _ _ _).trans (moves_adjustBalance hm₂)).world
  simp only [fillLimitOrder, horder, haccount, hfees, Asset.sub, if_pos hfid.symm, hm₂, guard,
    if_pos hid, if_pos hne, Option.bind_eq_bind, Option.bind_some, Option.pure_def]
  have hworld₃ : SameWorld m (if order.deferredFee > 0 then
      m₂.payDeferredFee order.seller order.deferredFee else m₂) := by
    refine hworld.trans ?_
    split_ifs
    · exact ⟨rfl, rfl, rfl, rfl, rfl⟩
    · exact .refl m₂
  generalize (if order.deferredFee > 0 then _ else m₂) = m₃ at hworld₃ ⊢
  by_cases hall : pays = order.amountForSale
  · rw [if_pos hall]
    exact ⟨_, rfl⟩
  rw [if_neg hall]
  by_cases hcull' : cull = true
  · rw [if_pos hcull']
    let rest := order.pay pays.amount
    have hrest : { m₃ with limitOrders := m₃.limitOrders.insert id rest }.limitOrders.lookup id =
        some rest := AList.lookup_insert _
    obtain ⟨receive, hreceive⟩ : ∃ receive, rest.amountToReceive = some receive := hcull hcull'
    obtain ⟨m₄, hm₄⟩ := cancelOrder_isSome hrest (hworld₃.accounts ▸ haccount)
      (Int.sub_nonneg_of_le hle) le_rfl
    show ∃ r, maybeCullSmallOrder { m₃ with limitOrders := m₃.limitOrders.insert id rest } id =
      some r
    simp only [maybeCullSmallOrder, hrest, hreceive, hm₄, Option.bind_eq_bind, Option.bind_some]
    split_ifs
    · exact ⟨_, rfl⟩
    · exact ⟨_, rfl⟩
  · rw [if_neg hcull']
    exact ⟨_, rfl⟩

end Market

/-! ## Limit orders that are matched -/

/-- What two orders that are matched pay, and what becomes of it. -/
structure Exchange where
  /-- What the first pays. -/
  usdPays : ℤ
  /-- What the second pays. -/
  corePays : ℤ
  /-- The fee that is kept of what the first receives. -/
  usdFee : ℤ
  /-- The fee that is kept of what the second receives. -/
  coreFee : ℤ
  /-- What is given back of the second because it is too small to be sold. -/
  refund : ℤ

namespace Market

/-- Two limit orders that go in opposite directions, and a price that is as good as what either
asks for. -/
structure Opposed (m : Market) (usd core : ℕ) (u c : LimitOrder) (matchPrice : Price) : Prop where
  /-- They are two. -/
  ne : usd ≠ core
  /-- The first is there. -/
  usd_mem : m.limitOrders.lookup usd = some u
  /-- So is the second. -/
  core_mem : m.limitOrders.lookup core = some c
  /-- Something is for sale of the first. -/
  usd_pos : 0 < u.forSale
  /-- Something is for sale of the second, and no more than there can be. -/
  core_pos : 0 < c.forSale ∧ c.forSale ≤ maxShareSupply
  /-- The first has a price. -/
  usd_valid : u.sellPrice.Valid
  /-- So has the second. -/
  core_valid : c.sellPrice.Valid
  /-- What they are matched at is a price. -/
  match_valid : matchPrice.Valid
  /-- It is one of the second. -/
  match_of : matchPrice.Of c.sellPrice.base.assetId c.sellPrice.quote.assetId
  /-- The second sells what the first asks for. -/
  opposite : c.sellPrice.Of u.sellPrice.quote.assetId u.sellPrice.base.assetId
  /-- The first asks for no more. -/
  usd_limit : u.sellPrice.inverse.lessEq matchPrice = true
  /-- The second asks for no more. -/
  core_limit : matchPrice.lessEq c.sellPrice = true
  /-- The sellers are there. -/
  sellers : (m.ledger.accounts u.seller).isSome ∧ (m.ledger.accounts c.seller).isSome
  /-- The assets are there. -/
  assets : (m.ledger.assets u.sellPrice.base.assetId).isSome ∧
    (m.ledger.assets c.sellPrice.base.assetId).isSome
  /-- Their options are valid. -/
  options : (m.marketOptions u.sellPrice.base.assetId).Valid ∧
    (m.marketOptions c.sellPrice.base.assetId).Valid

/-- **What a match of two limit orders does.** -/
structure LimitsMatched (m m' : Market) (usd core : ℕ) (u c : LimitOrder) (filled : Bool × Bool)
    (e : Exchange) : Prop where
  /-- What the second pays goes to the seller of the first, less a fee, and the other way round. -/
  money : m'.money = m.money +
    (.paid u.seller ⟨e.corePays - e.usdFee, c.sellPrice.base.assetId⟩ +
      .collected ⟨e.usdFee, c.sellPrice.base.assetId⟩) +
    (.paid c.seller ⟨e.usdPays - e.coreFee, u.sellPrice.base.assetId⟩ +
      .collected ⟨e.coreFee, u.sellPrice.base.assetId⟩) +
    .paid c.seller ⟨e.refund, c.sellPrice.base.assetId⟩
  /-- A fee is a part of what is received. -/
  fees : 0 ≤ e.usdFee ∧ e.usdFee ≤ e.corePays ∧ 0 ≤ e.coreFee ∧ e.coreFee ≤ e.usdPays
  /-- What the first pays is taken off what it has for sale. -/
  usd_left : m'.forSaleOf usd = u.forSale - e.usdPays
  /-- What the second pays is taken off what it has for sale, and so is what it is given back. -/
  core_left : m'.forSaleOf core = c.forSale - e.corePays - e.refund
  /-- The first pays no more than it has for sale. -/
  usd_pays : 0 ≤ e.usdPays ∧ e.usdPays ≤ u.forSale
  /-- The second pays no more than it has for sale. -/
  core_pays : 0 ≤ e.corePays ∧ e.corePays ≤ c.forSale
  /-- An order that is given something back is gone. -/
  refunded : 0 ≤ e.refund ∧ (e.refund = 0 ∨ m'.limitOrders.lookup core = none)
  /-- The result says which of them is gone. -/
  filled_iff : (filled.1 = true ↔ m'.limitOrders.lookup usd = none) ∧
    (filled.2 = true ↔ m'.limitOrders.lookup core = none)
  /-- One of them is gone, since it has paid all that it had for sale. -/
  filled_one : filled.1 = true ∧ e.usdPays = u.forSale ∨ filled.2 = true ∧ e.corePays = c.forSale
  /-- The first is paid what it asks for, but for one unit. -/
  usd_fair : e.usdPays * u.sellPrice.quote.amount < (e.corePays + 1) * u.sellPrice.base.amount
  /-- The second is paid what it asks for, but for one unit. -/
  core_fair : e.corePays * c.sellPrice.quote.amount < (e.usdPays + 1) * c.sellPrice.base.amount
  /-- The other limit orders are the same. -/
  others : ∀ j, j ≠ usd → j ≠ core → m'.limitOrders.lookup j = m.limitOrders.lookup j
  /-- The call orders are the same. -/
  calls : m'.callOrders = m.callOrders
  /-- The settlements are the same. -/
  settlements : m'.forceSettlements = m.forceSettlements

/-- **The amounts of a match**: who pays all that it has is paid what it asks for, but for one unit
that is lost in rounding, and the other one is paid no less than what it asks for. -/
theorem fair_of_floor {x b q bp qp bo qo : ℤ} (hx : 0 ≤ x) (hb : 0 < b) (hq : 0 < q)
    (hp : q * qp ≤ bp * b) (ho : qo * b ≤ q * bo) (hbp : 0 < bp) (hbo : 0 < bo) :
    0 ≤ x * b / q ∧ x * qp < (x * b / q + 1) * bp ∧ x * b / q * qo < (x + 1) * bo := by
  obtain ⟨y, hy⟩ : ∃ y, y = x * b / q := ⟨_, rfl⟩
  have hle : y * q ≤ x * b := hy ▸ Int.ediv_mul_le _ hq.ne'
  have hlt : x * b < (y + 1) * q := by
    rw [hy, mul_comm _ q]
    exact Int.lt_mul_ediv_self_add hq |>.trans_eq (by ring)
  rw [← hy]
  have hnonneg : 0 ≤ y := hy ▸ Int.ediv_nonneg (mul_nonneg hx hb.le) hq.le
  refine ⟨hnonneg, ?_, ?_⟩
  · have hscaled : x * qp * q < (y + 1) * bp * q :=
      calc x * qp * q = x * (q * qp) := by ring
        _ ≤ x * (bp * b) := mul_le_mul_of_nonneg_left hp hx
        _ = bp * (x * b) := by ring
        _ < bp * ((y + 1) * q) := mul_lt_mul_of_pos_left hlt hbp
        _ = (y + 1) * bp * q := by ring
    exact lt_of_mul_lt_mul_right hscaled hq.le
  · have hscaled : y * qo * b ≤ x * bo * b :=
      calc y * qo * b = y * (qo * b) := by ring
        _ ≤ y * (q * bo) := mul_le_mul_of_nonneg_left ho hnonneg
        _ = bo * (y * q) := by ring
        _ ≤ bo * (x * b) := mul_le_mul_of_nonneg_left hle hbo.le
        _ = x * bo * b := by ring
    have hle := le_of_mul_le_mul_right hscaled hb
    linarith

/-- An amount of the base of a price. -/
theorem mulPrice_base {a w : Asset} {p : Price} (hid : a.assetId = p.base.assetId) :
    a.mulPrice p = some w ↔ 0 < p.base.amount ∧ 0 ≤ a.amount * p.quote.amount ∧
      a.amount * p.quote.amount / p.base.amount ≤ maxShareSupply ∧
        w = ⟨a.amount * p.quote.amount / p.base.amount, p.quote.assetId⟩ := by
  rw [Asset.mulPrice, if_pos hid]
  exact Asset.convert_eq_some

/-- An amount of the quote of a price. -/
theorem mulPrice_quote {a w : Asset} {p : Price} (hne : p.base.assetId ≠ p.quote.assetId)
    (hid : a.assetId = p.quote.assetId) :
    a.mulPrice p = some w ↔ 0 < p.quote.amount ∧ 0 ≤ a.amount * p.base.amount ∧
      a.amount * p.base.amount / p.quote.amount ≤ maxShareSupply ∧
        w = ⟨a.amount * p.base.amount / p.quote.amount, p.base.assetId⟩ := by
  rw [Asset.mulPrice, if_neg (by rw [hid]; exact hne.symm), if_pos hid]
  exact Asset.convert_eq_some

section Opposed

variable {m m' : Market} {usd core : ℕ} {u c : LimitOrder} {matchPrice : Price}

theorem Opposed.core_worth (h : m.Opposed usd core u c matchPrice) {worth : Asset} :
    c.amountForSale.mulPrice matchPrice = some worth ↔
      c.forSale * matchPrice.quote.amount / matchPrice.base.amount ≤ maxShareSupply ∧
        worth = ⟨c.forSale * matchPrice.quote.amount / matchPrice.base.amount,
          u.sellPrice.base.assetId⟩ := by
  have hid : c.amountForSale.assetId = matchPrice.base.assetId := h.match_of.1.symm
  have hnonneg : 0 ≤ c.amountForSale.amount * matchPrice.quote.amount :=
    mul_nonneg h.core_pos.1.le h.match_valid.2.1.le
  rw [mulPrice_base hid, and_iff_right h.match_valid.1, and_iff_right hnonneg,
    h.match_of.2.trans h.opposite.2]
  rfl

theorem Opposed.usd_worth (h : m.Opposed usd core u c matchPrice)
    (hle : u.forSale * matchPrice.base.amount / matchPrice.quote.amount ≤ maxShareSupply) :
    u.amountForSale.mulPrice matchPrice =
      some ⟨u.forSale * matchPrice.base.amount / matchPrice.quote.amount,
        c.sellPrice.base.assetId⟩ := by
  have hquote : u.amountForSale.assetId = matchPrice.quote.assetId :=
    (h.match_of.2.trans h.opposite.2).symm
  rw [mulPrice_quote h.match_valid.2.2 hquote, ← h.match_of.1]
  exact ⟨h.match_valid.2.1, mul_nonneg h.usd_pos.le h.match_valid.1.le, hle, rfl⟩

/-- What is left of the second order can be priced. -/
theorem Opposed.rest_worth (h : m.Opposed usd core u c matchPrice) {received : ℤ}
    (hfits : c.forSale * matchPrice.quote.amount / matchPrice.base.amount ≤ maxShareSupply)
    (hnonneg : 0 ≤ received) (hle : received ≤ c.forSale) :
    ∃ receive, (c.pay received).amountToReceive = some receive := by
  obtain ⟨hb, hq, -⟩ := h.match_valid
  obtain ⟨hbc, hqc, -⟩ := h.core_valid
  have hlimit := (Price.lessEq_iff h.match_of).1 h.core_limit
  refine ⟨_, (mulPrice_base (a := (c.pay received).amountForSale) (p := c.sellPrice) rfl).2
    ⟨hbc, mul_nonneg (Int.sub_nonneg_of_le hle) hqc.le, le_trans ?_ hfits, rfl⟩⟩
  show (c.forSale - received) * c.sellPrice.quote.amount / c.sellPrice.base.amount ≤ _
  rw [Int.le_ediv_iff_mul_le hb]
  have hrest := Int.ediv_mul_le ((c.forSale - received) * c.sellPrice.quote.amount) hbc.ne'
  generalize (c.forSale - received) * c.sellPrice.quote.amount / c.sellPrice.base.amount = t
    at hrest ⊢
  have hscaled : t * matchPrice.base.amount * c.sellPrice.base.amount ≤
      c.forSale * matchPrice.quote.amount * c.sellPrice.base.amount :=
    calc t * matchPrice.base.amount * c.sellPrice.base.amount
        = matchPrice.base.amount * (t * c.sellPrice.base.amount) := by ring
      _ ≤ matchPrice.base.amount * ((c.forSale - received) * c.sellPrice.quote.amount) :=
        mul_le_mul_of_nonneg_left hrest hb.le
      _ = (c.forSale - received) * (c.sellPrice.quote.amount * matchPrice.base.amount) := by ring
      _ ≤ c.forSale * (c.sellPrice.quote.amount * matchPrice.base.amount) :=
        mul_le_mul_of_nonneg_right (by linarith) (mul_pos hqc hb).le
      _ ≤ c.forSale * (matchPrice.quote.amount * c.sellPrice.base.amount) :=
        mul_le_mul_of_nonneg_left hlimit h.core_pos.1.le
      _ = c.forSale * matchPrice.quote.amount * c.sellPrice.base.amount := by ring
  exact le_of_mul_le_mul_right hscaled hbc

/-- **What two orders pay each other**, and that `match` fills them with it. -/
theorem Opposed.amounts (h : m.Opposed usd core u c matchPrice)
    (hfits : c.forSale * matchPrice.quote.amount / matchPrice.base.amount ≤ maxShareSupply) :
    ∃ paid received : ℤ, (paid = u.forSale ∨ received = c.forSale) ∧
      (0 ≤ paid ∧ paid ≤ u.forSale) ∧ (0 ≤ received ∧ received ≤ c.forSale) ∧
      paid * u.sellPrice.quote.amount < (received + 1) * u.sellPrice.base.amount ∧
      received * c.sellPrice.quote.amount < (paid + 1) * c.sellPrice.base.amount ∧
      m.matchLimitOrders usd core matchPrice =
        (m.fillLimitOrder usd ⟨paid, u.sellPrice.base.assetId⟩
            ⟨received, c.sellPrice.base.assetId⟩ false).bind fun r ↦
          (r.1.fillLimitOrder core ⟨received, c.sellPrice.base.assetId⟩
              ⟨paid, u.sellPrice.base.assetId⟩ true).bind fun r' ↦ some (r'.1, r.2, r'.2) := by
  obtain ⟨hb, hq, -⟩ := h.match_valid
  have husd := (Price.lessEq_iff (a := u.sellPrice.inverse)
    ⟨h.opposite.1.symm.trans h.match_of.1.symm, h.opposite.2.symm.trans h.match_of.2.symm⟩).1
    h.usd_limit
  have hcore := (Price.lessEq_iff h.match_of).1 h.core_limit
  have hworth := h.core_worth.2 ⟨hfits, rfl⟩
  by_cases hless : u.forSale ≤ c.forSale * matchPrice.quote.amount / matchPrice.base.amount
  · -- The first order is used up.
    obtain ⟨hnonneg, hfair, hfair'⟩ := fair_of_floor h.usd_pos.le hb hq husd hcore h.usd_valid.1
      h.core_valid.1
    have hle : u.forSale * matchPrice.base.amount / matchPrice.quote.amount ≤ c.forSale :=
      Int.ediv_le_of_le_mul hq ((Int.le_ediv_iff_mul_le hb).1 hless)
    have hlessEq : u.amountForSale.lessEq
        ⟨c.forSale * matchPrice.quote.amount / matchPrice.base.amount,
          u.sellPrice.base.assetId⟩ = some true :=
      Asset.lessEq_eq_some.2 ⟨rfl, decide_eq_true hless⟩
    refine ⟨u.forSale, _, .inl rfl, ⟨h.usd_pos.le, le_rfl⟩, ⟨hnonneg, hle⟩, hfair, hfair', ?_⟩
    simp only [matchLimitOrders, h.usd_mem, h.core_mem, Option.bind_eq_bind, Option.bind_some,
      hworth, hlessEq, if_true, h.usd_worth (hle.trans h.core_pos.2)]
    rfl
  · -- The second order is used up.
    rw [mul_comm, mul_comm matchPrice.quote.amount] at hcore
    rw [mul_comm, mul_comm u.sellPrice.inverse.quote.amount] at husd
    obtain ⟨hnonneg, hfair, hfair'⟩ := fair_of_floor h.core_pos.1.le hq hb hcore husd
      h.core_valid.1 h.usd_valid.1
    refine ⟨_, c.forSale, .inr rfl, ⟨hnonneg, (not_le.1 hless).le⟩, ⟨h.core_pos.1.le, le_rfl⟩,
      hfair', hfair, ?_⟩
    have hlessEq : u.amountForSale.lessEq
        ⟨c.forSale * matchPrice.quote.amount / matchPrice.base.amount,
          u.sellPrice.base.assetId⟩ = some false :=
      Asset.lessEq_eq_some.2 ⟨rfl, decide_eq_false hless⟩
    simp only [matchLimitOrders, h.usd_mem, h.core_mem, Option.bind_eq_bind, Option.bind_some,
      hworth, hlessEq, Bool.false_eq_true, if_false]
    rfl

/-- **A match of two limit orders returns** if what the second is worth is an amount. -/
theorem matchLimitOrders_exchange (h : m.Opposed usd core u c matchPrice) {worth : Asset}
    (hworth : c.amountForSale.mulPrice matchPrice = some worth) :
    ∃ m' filled e, m.matchLimitOrders usd core matchPrice = some (m', filled) ∧
      LimitsMatched m m' usd core u c filled e := by
  obtain ⟨hfits, -⟩ := h.core_worth.1 hworth
  obtain ⟨paid, received, hall, hpaid, hreceived, husd, hcore, hmatch⟩ := h.amounts hfits
  obtain ⟨seller, hseller⟩ := Option.isSome_iff_exists.1 h.sellers.1
  obtain ⟨seller', hseller'⟩ := Option.isSome_iff_exists.1 h.sellers.2
  obtain ⟨asset, hasset⟩ := Option.isSome_iff_exists.1 h.assets.1
  obtain ⟨asset', hasset'⟩ := Option.isSome_iff_exists.1 h.assets.2
  have hne : u.sellPrice.base.assetId ≠ c.sellPrice.base.assetId := by
    rw [h.opposite.1]
    exact h.usd_valid.2.2
  -- The first order is filled, ...
  obtain ⟨⟨m₁, filled⟩, hm₁⟩ := fillLimitOrder_isSome ⟨paid, u.sellPrice.base.assetId⟩
    ⟨received, c.sellPrice.base.assetId⟩ false h.usd_mem hseller hasset' h.options.2 hreceived.1 rfl
    hne hpaid.2 fun hcull ↦ absurd hcull Bool.false_ne_true
  obtain ⟨usdFee, zero, hfee, hfeele, -, hmoves₁, hleft₁, hzero⟩ :=
    moves_fillLimitOrder hm₁ h.usd_mem h.options.2 hreceived.1 hpaid.2
  obtain rfl : zero = 0 := hzero.resolve_right fun hcull ↦ Bool.false_ne_true hcull.1
  obtain ⟨-, -, -, htouches₁, -⟩ := lookup_fillLimitOrder hm₁
  obtain ⟨hiff₁, hall₁⟩ := filled_iff_gone hm₁ h.usd_mem
  have hcore₁ : m₁.limitOrders.lookup core = some c :=
    (htouches₁.others core h.ne.symm).trans h.core_mem
  -- ... and then the second is.
  have hworld := hmoves₁.world
  obtain ⟨⟨m₂, filled'⟩, hm₂⟩ := fillLimitOrder_isSome ⟨received, c.sellPrice.base.assetId⟩
    ⟨paid, u.sellPrice.base.assetId⟩ true hcore₁ (hworld.accounts ▸ hseller')
    (hworld.assets ▸ hasset) (hworld.options ▸ h.options.1) hpaid.1 rfl hne.symm hreceived.2
    fun _ ↦ h.rest_worth hfits hreceived.1 hreceived.2
  obtain ⟨coreFee, refund, hfee', hfeele', hrefund, hmoves₂, hleft₂, hgone⟩ :=
    moves_fillLimitOrder hm₂ hcore₁ (hworld.options ▸ h.options.1) hpaid.1 hreceived.2
  obtain ⟨-, -, -, htouches₂, -⟩ := lookup_fillLimitOrder hm₂
  obtain ⟨hiff₂, hall₂⟩ := filled_iff_gone hm₂ hcore₁
  have husd₂ : m₂.limitOrders.lookup usd = m₁.limitOrders.lookup usd := htouches₂.others usd h.ne
  refine ⟨m₂, (filled, filled'), ⟨paid, received, usdFee, coreFee, refund⟩, ?_, ?_⟩
  · rw [hmatch, hm₁, Option.bind_some, hm₂]
    rfl
  have hmoves := hmoves₁.trans hmoves₂
  refine
    { money := ?_
      fees := ⟨hfee, hfeele, hfee', hfeele'⟩
      usd_left := ?_
      core_left := hleft₂
      usd_pays := hpaid
      core_pays := hreceived
      refunded := ⟨hrefund, hgone.imp_right And.right⟩
      filled_iff := ⟨by rw [husd₂]; exact hiff₁, hiff₂⟩
      filled_one := ?_
      usd_fair := husd
      core_fair := hcore
      others := fun j hu hc ↦ (htouches₂.others j hc).trans (htouches₁.others j hu)
      calls := htouches₂.calls.trans htouches₁.calls
      settlements := hmoves.settlements }
  · rw [hmoves.money, Money.paid_zero]
    abel
  · rw [forSaleOf, husd₂]
    exact hleft₁.trans (sub_zero _)
  · rcases hall with rfl | rfl
    · exact .inl ⟨hall₁ rfl, rfl⟩
    · exact .inr ⟨hall₂ rfl, rfl⟩

end Opposed

/-! ## Call orders and settlements -/

/-- The call orders after `receives` of the debt of one has been paid for `pays` of its collateral:
it is gone if no debt is left. -/
def callsLeft (calls : Table CallOrder) (id : ℕ) (order : CallOrder) (pays receives : ℤ)
    (h : pays ≤ order.collateral) : Table CallOrder :=
  if receives = order.debt then calls.erase id else calls.insert id (order.pay pays receives h)

/-- The settlements after `pays` of the balance of one has been paid: it is gone if nothing is
left. -/
def settlementsLeft (settlements : Table ForceSettlement) (id : ℕ) (s : ForceSettlement)
    (pays : ℤ) : Table ForceSettlement :=
  if pays < s.balance.amount then
    settlements.insert id { s with balance := ⟨s.balance.amount - pays, s.balance.assetId⟩ }
  else settlements.erase id

/-- What remains of a call order. -/
theorem lookup_callsLeft {t : Table CallOrder} {call j : ℕ} {order c : CallOrder}
    {pays receives : ℤ} {hle : pays ≤ order.collateral} (horder : t.lookup call = some order)
    (h : (callsLeft t call order pays receives hle).lookup j = some c) :
    ∃ c₀, t.lookup j = some c₀ ∧ c.borrower = c₀.borrower ∧ c.callPrice = c₀.callPrice ∧
      (c = c₀ ∨ c₀ = order ∧ receives ≠ order.debt ∧ c.debt = order.debt - receives ∧
        c.collateral = order.collateral - pays) := by
  rw [callsLeft] at h
  rcases eq_or_ne j call with rfl | hj
  · split_ifs at h with hall
    · rw [AList.lookup_erase] at h
      cases h
    · rw [AList.lookup_insert] at h
      obtain rfl := Option.some.inj h
      exact ⟨order, horder, rfl, rfl, .inr ⟨rfl, hall, rfl, rfl⟩⟩
  · have hsame : t.lookup j = some c := by
      split_ifs at h
      · rwa [AList.lookup_erase_ne hj] at h
      · rwa [AList.lookup_insert_ne hj] at h
    exact ⟨c, hsame, rfl, rfl, .inl rfl⟩

/-- What is left of the call orders after one of them has been filled in part or as a whole. -/
theorem lookup_callsLeft_of {t : Table CallOrder} {call : ℕ} {c : CallOrder} {pays : ℤ}
    (receives : ℤ) (hle : pays ≤ c.collateral) (hc : t.lookup call = some c) :
    (∀ j ≠ call, (callsLeft t call c pays receives hle).lookup j = t.lookup j) ∧
      (receives = c.debt → (callsLeft t call c pays receives hle).lookup call = none) ∧
      (receives ≠ c.debt → ∀ j, ((callsLeft t call c pays receives hle).lookup j).map
        CallOrder.callPrice = (t.lookup j).map CallOrder.callPrice) := by
  rw [callsLeft]
  refine ⟨fun j hj ↦ ?_, fun hall ↦ ?_, fun hpart j ↦ ?_⟩
  · split_ifs
    · exact AList.lookup_erase_ne hj
    · exact AList.lookup_insert_ne hj
  · rw [if_pos hall]
    exact AList.lookup_erase _ _
  · rw [if_neg hpart]
    rcases eq_or_ne j call with rfl | hj
    · rw [AList.lookup_insert, hc]
      rfl
    · rw [AList.lookup_insert_ne hj]

/-- **What filling a call order moves**: what is paid back is no longer there, and what is left of
the collateral goes to the borrower if nothing is left of the debt. -/
theorem moves_fillCallOrder {m m' : Market} {id : ℕ} {order : CallOrder} {pays receives : Asset}
    {filled : Bool} (h : m.fillCallOrder id pays receives = some (m', filled))
    (horder : m.callOrders.lookup id = some order) :
    ∃ hle : pays.amount ≤ order.collateral,
      Moves (.issued ⟨-receives.amount, receives.assetId⟩ + .paid order.borrower
        ⟨if receives.amount = order.debt then order.collateral - pays.amount else 0,
          order.callPrice.base.assetId⟩) m m' ∧
      m'.callOrders = callsLeft m.callOrders id order pays.amount receives.amount hle ∧
      m'.limitOrders = m.limitOrders := by
  obtain ⟨order', hle, m₁, horder', -, -, hm₁, rfl⟩ := fillCallOrder_spec h
  obtain rfl := Option.some.inj (horder.symm.trans horder')
  have hdebt : (order.pay pays.amount receives.amount hle).debt = 0 ↔
      receives.amount = order.debt := by
    show order.debt - receives.amount = 0 ↔ _
    omega
  have hburned : Moves (.issued ⟨-receives.amount, receives.assetId⟩) m
      (m.modifyDynamicData receives.assetId fun d ↦
        { d with currentSupply := d.currentSupply - receives.amount }) :=
    (money_modifyDynamicData receives.assetId _ 0 (-receives.amount) (add_zero _).symm
      (sub_eq_add_neg _ _)).congr (by rw [Money.collected_zero, zero_add])
  obtain ⟨hlimits, hcalls⟩ := orders_freeCollateral hm₁
  refine ⟨hle, ?_, ?_, ?_⟩
  · refine ((hburned.trans (?_ : Moves _ _ m₁)).trans (moves_addIf _ _ _)).calls _ |>.congr
      (add_zero _)
    by_cases hgone : receives.amount = order.debt
    · rw [if_pos (hdebt.2 hgone)] at hm₁
      rw [if_pos hgone]
      obtain ⟨m₂, hm₂, hm₁⟩ := Option.bind_eq_some_iff.1 hm₁
      obtain rfl := Option.some.inj hm₁
      exact ((moves_adjustBalance hm₂).trans (moves_addIf _ _ _)).congr (add_zero _)
    · rw [if_neg (mt hdebt.1 hgone)] at hm₁
      rw [if_neg hgone, Money.paid_zero]
      obtain rfl := Option.some.inj hm₁
      exact .refl _
  · show (if _ then _ else _) = _
    rw [callsLeft, hcalls]
    by_cases hgone : receives.amount = order.debt
    · rw [if_pos (hdebt.2 hgone), if_pos hgone]
      rfl
    · rw [if_neg (mt hdebt.1 hgone), if_neg hgone]
      rfl
  · exact (limitOrders_addIf _ _ _).trans hlimits

/-- **A call order can be filled** whose borrower and asset are there. -/
theorem fillCallOrder_isSome {m : Market} {id : ℕ} {order : CallOrder} {account : AccountObject}
    {asset : AssetObject} (pays receives : Asset) (horder : m.callOrders.lookup id = some order)
    (haccount : m.ledger.accounts order.borrower = some account)
    (hasset : m.ledger.assets receives.assetId = some asset)
    (hdebt : order.callPrice.quote.assetId = receives.assetId)
    (hcollateral : order.callPrice.base.assetId = pays.assetId)
    (hle : pays.amount ≤ order.collateral) : ∃ r, m.fillCallOrder id pays receives = some r := by
  have hfree : ∀ (m₁ : Market) (freed : Option Asset), (∀ f ∈ freed, 0 ≤ f.amount) →
      ∃ m₂, m₁.freeCollateral order.borrower freed = some m₂ := by
    intro m₁ freed hfreed
    cases freed with
    | none => exact ⟨m₁, rfl⟩
    | some f =>
      obtain ⟨m₂, hm₂⟩ := adjustBalance_isSome m₁ order.borrower f (hfreed f rfl)
      exact ⟨_, by rw [freeCollateral, hm₂]; rfl⟩
  obtain ⟨m₂, hm₂⟩ := hfree (m.modifyDynamicData receives.assetId fun d ↦
      { d with currentSupply := d.currentSupply - receives.amount })
    (if (order.pay pays.amount receives.amount hle).debt = 0 then
      some (order.pay pays.amount receives.amount hle).getCollateral else none) (by
    intro f hf
    obtain ⟨-, hf⟩ := Option.ite_none_right_eq_some.1 hf
    obtain rfl := Option.some.inj hf
    exact Int.sub_nonneg_of_le hle)
  have haccount' : (m.modifyDynamicData receives.assetId fun d ↦
      { d with currentSupply := d.currentSupply - receives.amount }).ledger.accounts
        order.borrower = some account := haccount
  have hdebt' : order.getDebt.assetId = receives.assetId := hdebt
  have hcollateral' : order.getCollateral.assetId = pays.assetId := hcollateral
  have hborrower : (order.pay pays.amount receives.amount hle).borrower = order.borrower := rfl
  simp only [fillCallOrder, horder, guard, if_pos hdebt', if_pos hcollateral', dif_pos hle, hasset,
    haccount', hborrower, hm₂, Option.bind_eq_bind, Option.bind_some, Option.pure_def]
  exact ⟨_, rfl⟩

/-- **What filling a settlement moves**: its owner is paid, less a fee. -/
theorem moves_fillForceSettlement {m m' : Market} {id : ℕ} {s : ForceSettlement}
    {pays receives : Asset} {filled : Bool}
    (h : m.fillForceSettlement id pays receives = some (m', filled))
    (hs : m.forceSettlements.lookup id = some s)
    (hvalid : (m.marketOptions receives.assetId).Valid) (hpos : 0 ≤ receives.amount) :
    ∃ fee m₁, 0 ≤ fee ∧ fee ≤ receives.amount ∧
      Moves (.paid s.owner ⟨receives.amount - fee, receives.assetId⟩ +
        .collected ⟨fee, receives.assetId⟩) m m₁ ∧ SameOrders m m₁ ∧
      m' = { m₁ with
        forceSettlements := settlementsLeft m.forceSettlements id s pays.amount } := by
  simp only [fillForceSettlement, hs, Option.bind_eq_bind, Option.bind_eq_some_iff,
    Option.some.injEq, exists_eq_left'] at h
  obtain ⟨⟨m₁, fees⟩, hfees, partly, hpartly, paid, hpaid, m₂, hm₂, h⟩ := h
  obtain ⟨hid, hfee, hfeele, hmoves₁⟩ := moves_payMarketFees hvalid hpos hfees
  obtain ⟨fee, _⟩ := fees
  obtain rfl := hid
  rw [Asset.sub, if_pos rfl] at hpaid
  obtain rfl := Option.some.inj hpaid
  have hmoves := hmoves₁.trans (moves_adjustBalance hm₂)
  have horders := (sameOrders_payMarketFees hfees).trans (sameOrders_adjustBalance hm₂)
  obtain ⟨hsame, rfl⟩ := Asset.less_eq_some.1 hpartly
  refine ⟨fee, m₂, hfee, hfeele, hmoves.congr (add_comm _ _), horders, ?_⟩
  rw [← hmoves.settlements, settlementsLeft]
  split_ifs at h with hless
  · obtain ⟨balance, hbalance, h⟩ := Option.bind_eq_some_iff.1 h
    rw [Asset.sub, if_pos hsame.symm] at hbalance
    obtain rfl := Option.some.inj hbalance
    obtain ⟨rfl, -⟩ := Prod.mk.inj (Option.some.inj h)
    rw [if_pos (of_decide_eq_true hless)]
  · obtain ⟨rfl, -⟩ := Prod.mk.inj (Option.some.inj h)
    rw [if_neg fun hlt ↦ hless (decide_eq_true hlt)]

/-- **A settlement can be filled** in its asset, for an asset that is there. -/
theorem fillForceSettlement_isSome {m : Market} {id : ℕ} {s : ForceSettlement} {asset : AssetObject}
    (pays receives : Asset) (hs : m.forceSettlements.lookup id = some s)
    (hasset : m.ledger.assets receives.assetId = some asset)
    (hvalid : (m.marketOptions receives.assetId).Valid) (hpos : 0 ≤ receives.amount)
    (hid : pays.assetId = s.balance.assetId) :
    ∃ r, m.fillForceSettlement id pays receives = some r := by
  obtain ⟨⟨m₁, fees⟩, hfees⟩ := payMarketFees_isSome hasset
  obtain ⟨hfid, -, hfeele, hmoves₁⟩ := moves_payMarketFees hvalid hpos hfees
  obtain ⟨m₂, hm₂⟩ := adjustBalance_isSome m₁ s.owner
    ⟨receives.amount - fees.amount, receives.assetId⟩ (Int.sub_nonneg_of_le hfeele)
  simp only [fillForceSettlement, hs, hfees, Asset.less_eq_some.2 ⟨hid, rfl⟩, Asset.sub,
    if_pos hfid.symm, if_pos hid.symm, hm₂, Option.bind_eq_bind, Option.bind_some]
  split_ifs
  · exact ⟨_, rfl⟩
  · exact ⟨_, rfl⟩

end Market

/-! ## A call order and a settlement that are matched -/

/-- What a call order and a settlement that are matched pay, and what becomes of it. -/
structure CallExchange where
  /-- What the settlement pays. -/
  settlePays : ℤ
  /-- What the call order pays. -/
  callPays : ℤ
  /-- The fee that is kept of what the settlement receives. -/
  fee : ℤ

namespace Market

/-- A call order and a settlement of its debt, and a price of the debt in collateral. -/
structure Settling (m : Market) (call settle : ℕ) (order : CallOrder) (s : ForceSettlement)
    (matchPrice : Price) (maxSettlement : Asset) : Prop where
  /-- The call order is there. -/
  call_mem : m.callOrders.lookup call = some order
  /-- So is the settlement. -/
  settle_mem : m.forceSettlements.lookup settle = some s
  /-- The settlement is one of the debt. -/
  debt_id : order.callPrice.quote.assetId = s.balance.assetId
  /-- So is what is settled at most. -/
  max_id : maxSettlement.assetId = s.balance.assetId
  /-- There is debt. -/
  debt_pos : 0 < order.debt
  /-- There is collateral. -/
  collateral_pos : 0 < order.collateral
  /-- There is something to settle. -/
  balance_pos : 0 < s.balance.amount
  /-- What is settled at most is an amount. -/
  max_nonneg : 0 ≤ maxSettlement.amount
  /-- What they are matched at is a price, of no collateral at worst. -/
  match_valid : 0 < matchPrice.base.amount ∧ 0 ≤ matchPrice.quote.amount
  /-- It is one of the debt. -/
  match_of : matchPrice.Of s.balance.assetId order.callPrice.base.assetId
  /-- The borrower is there. -/
  borrower : (m.ledger.accounts order.borrower).isSome
  /-- The assets are there. -/
  assets : (m.ledger.assets s.balance.assetId).isSome ∧
    (m.ledger.assets order.callPrice.base.assetId).isSome
  /-- The options of the collateral are valid. -/
  options : (m.marketOptions order.callPrice.base.assetId).Valid

/-- What a call order and a settlement are filled with. -/
def settledAmount (order : CallOrder) (s : ForceSettlement) (maxSettlement : Asset) : ℤ :=
  min (min s.balance.amount maxSettlement.amount) order.debt

/-- **What a match of a call order and a settlement does.** -/
structure CallMatched (m m' : Market) (call settle : ℕ) (order : CallOrder) (s : ForceSettlement)
    (matchPrice : Price) (maxSettlement : Asset) (e : CallExchange) : Prop where
  /-- What the call order pays goes to the owner of the settlement, less a fee; what that pays is
  taken from the supply; and the collateral of a debt that is paid goes to its borrower. -/
  money : m'.money = m.money + .issued ⟨-e.settlePays, s.balance.assetId⟩ +
    .paid order.borrower ⟨if e.settlePays = order.debt then order.collateral - e.callPays else 0,
      order.callPrice.base.assetId⟩ +
    (.paid s.owner ⟨e.callPays - e.fee, order.callPrice.base.assetId⟩ +
      .collected ⟨e.fee, order.callPrice.base.assetId⟩)
  /-- A fee is a part of what is received. -/
  fees : 0 ≤ e.fee ∧ e.fee ≤ e.callPays
  /-- What the settlement pays is taken off the debt. -/
  call_left : ∃ hle : e.callPays ≤ order.collateral,
    m'.callOrders = callsLeft m.callOrders call order e.callPays e.settlePays hle
  /-- It is taken off the balance of the settlement. -/
  settle_left : m'.forceSettlements = settlementsLeft m.forceSettlements settle s e.settlePays
  /-- The settlement pays no more than its balance, than the debt and than is settled at most. -/
  settle_pays : 0 ≤ e.settlePays ∧ e.settlePays ≤ s.balance.amount ∧ e.settlePays ≤ order.debt ∧
    e.settlePays ≤ maxSettlement.amount
  /-- The call order pays less than its collateral. -/
  call_pays : 0 ≤ e.callPays ∧ e.callPays < order.collateral
  /-- One of them is gone, or all is settled that can be settled. -/
  filled_one : e.settlePays = order.debt ∨ e.settlePays = s.balance.amount ∨
    e.settlePays = maxSettlement.amount
  /-- The settlement is paid at the price, but for one unit. -/
  fair : e.callPays * matchPrice.base.amount ≤ e.settlePays * matchPrice.quote.amount ∧
    e.settlePays * matchPrice.quote.amount < (e.callPays + 1) * matchPrice.base.amount
  /-- The limit orders are the same. -/
  limits : m'.limitOrders = m.limitOrders
  /-- The accounts, the assets and their options are the same. -/
  world : SameWorld m m'

/-- The lesser of two amounts of one asset. -/
theorem minimum_of_eq {a b : Asset} (hid : b.assetId = a.assetId) :
    a.minimum b = some ⟨min a.amount b.amount, a.assetId⟩ := by
  obtain ⟨x, i⟩ := a
  obtain ⟨y, j⟩ := b
  obtain rfl : j = i := hid
  have hless : (⟨y, j⟩ : Asset).less ⟨x, j⟩ = some (decide (y < x)) :=
    Asset.less_eq_some.2 ⟨rfl, rfl⟩
  rw [Asset.minimum, hless, Option.map_some, Option.some_inj]
  by_cases hlt : y < x
  · rw [if_pos (decide_eq_true hlt), min_eq_right hlt.le]
  · rw [if_neg fun h ↦ hlt (of_decide_eq_true h), min_eq_left (not_lt.1 hlt)]

section Settling

variable {m m' : Market} {call settle : ℕ} {order : CallOrder} {s : ForceSettlement}
  {matchPrice : Price} {maxSettlement : Asset}

/-- **What `match` does to a call order and a settlement.** -/
theorem Settling.matchForceSettlement (h : m.Settling call settle order s matchPrice maxSettlement)
    {pays : Asset}
    (hpays : (⟨settledAmount order s maxSettlement, s.balance.assetId⟩ : Asset).mulPrice
      matchPrice = some pays) :
    m.matchForceSettlement call settle matchPrice maxSettlement =
      if pays.amount < order.collateral then
        (m.fillCallOrder call pays ⟨settledAmount order s maxSettlement, s.balance.assetId⟩).bind
          fun r ↦ (r.1.fillForceSettlement settle
            ⟨settledAmount order s maxSettlement, s.balance.assetId⟩ pays).bind fun r' ↦
              some (r'.1, ⟨settledAmount order s maxSettlement, s.balance.assetId⟩)
      else none := by
  have hdebt : order.getDebt.assetId = s.balance.assetId := h.debt_id
  have hpos : order.debt > 0 ∧ order.collateral > 0 ∧ s.balance.amount > 0 :=
    ⟨h.debt_pos, h.collateral_pos, h.balance_pos⟩
  have hsale : (⟨min s.balance.amount maxSettlement.amount, s.balance.assetId⟩ : Asset).minimum
      order.getDebt = some ⟨settledAmount order s maxSettlement, s.balance.assetId⟩ :=
    minimum_of_eq hdebt
  have hless : pays.less order.getCollateral = some (decide (pays.amount < order.collateral)) := by
    obtain ⟨-, -, -, rfl⟩ := (mulPrice_base
      (a := ⟨settledAmount order s maxSettlement, s.balance.assetId⟩) h.match_of.1.symm).1 hpays
    exact Asset.less_eq_some.2 ⟨h.match_of.2, rfl⟩
  simp only [Market.matchForceSettlement, h.call_mem, h.settle_mem, guard, if_pos hdebt,
    if_pos hpos, minimum_of_eq h.max_id, hsale, hpays, hless, Option.bind_eq_bind,
    Option.bind_some, Option.pure_def]
  by_cases hlt : pays.amount < order.collateral
  · rw [if_pos (decide_eq_true hlt), if_pos hlt]
    rfl
  · rw [if_neg (fun hd ↦ hlt (of_decide_eq_true hd)), if_neg hlt]
    rfl

theorem Settling.settledAmount_bounds
    (h : m.Settling call settle order s matchPrice maxSettlement) :
    let x := settledAmount order s maxSettlement
    (0 ≤ x ∧ x ≤ s.balance.amount ∧ x ≤ order.debt ∧ x ≤ maxSettlement.amount) ∧
      (x = order.debt ∨ x = s.balance.amount ∨ x = maxSettlement.amount) := by
  have hdebt := h.debt_pos
  have hbalance := h.balance_pos
  have hmax := h.max_nonneg
  dsimp only [settledAmount]
  omega

/-- **A match of a call order and a settlement returns** if what is to be paid is an amount, and
less than the collateral. -/
theorem matchForceSettlement_exchange
    (h : m.Settling call settle order s matchPrice maxSettlement) {pays : Asset}
    (hpays : (⟨settledAmount order s maxSettlement, s.balance.assetId⟩ : Asset).mulPrice
      matchPrice = some pays) (hlt : pays.amount < order.collateral) :
    ∃ m' e, m.matchForceSettlement call settle matchPrice maxSettlement =
        some (m', ⟨e.settlePays, s.balance.assetId⟩) ∧
      CallMatched m m' call settle order s matchPrice maxSettlement e := by
  have hmatch := h.matchForceSettlement hpays
  obtain ⟨hbounds, hone⟩ := h.settledAmount_bounds
  obtain ⟨x, hx⟩ : ∃ x, x = settledAmount order s maxSettlement := ⟨_, rfl⟩
  rw [← hx] at hpays hmatch hbounds hone
  obtain ⟨hb, -, -, rfl⟩ := (mulPrice_base (a := ⟨x, s.balance.assetId⟩) h.match_of.1.symm).1 hpays
  have hnonneg : 0 ≤ x * matchPrice.quote.amount := mul_nonneg hbounds.1 h.match_valid.2
  obtain ⟨y, hy⟩ : ∃ y, y = x * matchPrice.quote.amount / matchPrice.base.amount := ⟨_, rfl⟩
  replace hlt : y < order.collateral := hy ▸ hlt
  have hynonneg : 0 ≤ y := hy ▸ Int.ediv_nonneg hnonneg hb.le
  rw [← hy, h.match_of.2, if_pos hlt] at hmatch
  obtain ⟨borrower, hborrower⟩ := Option.isSome_iff_exists.1 h.borrower
  obtain ⟨asset, hasset⟩ := Option.isSome_iff_exists.1 h.assets.1
  obtain ⟨asset', hasset'⟩ := Option.isSome_iff_exists.1 h.assets.2
  -- The call order is filled, ...
  obtain ⟨⟨m₁, filled⟩, hm₁⟩ := fillCallOrder_isSome ⟨y, order.callPrice.base.assetId⟩
    ⟨x, s.balance.assetId⟩ h.call_mem hborrower hasset h.debt_id rfl hlt.le
  obtain ⟨hle, hmoves₁, hleft, hlimits⟩ := moves_fillCallOrder hm₁ h.call_mem
  have hsettle₁ : m₁.forceSettlements.lookup settle = some s :=
    hmoves₁.settlements ▸ h.settle_mem
  have hvalid : (m₁.marketOptions order.callPrice.base.assetId).Valid :=
    hmoves₁.world.options ▸ h.options
  -- ... and then the settlement is.
  obtain ⟨⟨m₂, filled'⟩, hm₂⟩ := fillForceSettlement_isSome ⟨x, s.balance.assetId⟩
    ⟨y, order.callPrice.base.assetId⟩ hsettle₁ (hmoves₁.world.assets ▸ hasset') hvalid hynonneg rfl
  obtain ⟨fee, m₃, hfee, hfeele, hmoves₂, horders, heq⟩ := moves_fillForceSettlement hm₂ hsettle₁
    hvalid hynonneg
  refine ⟨m₂, ⟨x, y, fee⟩, ?_, ?_⟩
  · rw [hmatch, hm₁, Option.bind_some, hm₂, Option.bind_some]
  obtain rfl := heq
  have hmoves := hmoves₁.trans hmoves₂
  refine
    { money := ?_
      fees := ⟨hfee, hfeele⟩
      call_left := ⟨hle, horders.calls.trans hleft⟩
      settle_left := ?_
      settle_pays := hbounds
      call_pays := ⟨hynonneg, hlt⟩
      filled_one := hone
      fair := ⟨hy ▸ Int.ediv_mul_le _ hb.ne', ?_⟩
      limits := horders.limits.trans hlimits
      world := hmoves.world.trans ⟨rfl, rfl, rfl, rfl, rfl⟩ }
  · show m₃.money = _
    rw [hmoves.money]
    abel
  · rw [← hmoves₁.settlements]
  · rw [hy, mul_comm _ matchPrice.base.amount, mul_add_one]
    exact Int.lt_mul_ediv_self_add hb

end Settling

end Market

/-! ## Both kinds of match -/

open Market in
/-- **A match conserves and respects limits.**  Two limit orders that cross are matched if what the
second is worth is an amount; each is paid what the other pays, less a fee, neither pays more than
it has for sale, one of them is used up, and neither is paid worse than at its own price but for one
unit.  So are a call order and a settlement, if the call order has the collateral; one of them is
used up, or all is settled that can be settled. -/
theorem match_conserves (m : Market) :
    (∀ usd core u c matchPrice, m.Opposed usd core u c matchPrice →
      ((m.matchLimitOrders usd core matchPrice).isSome ↔
        (c.amountForSale.mulPrice matchPrice).isSome) ∧
      ∀ m' filled, m.matchLimitOrders usd core matchPrice = some (m', filled) →
        ∃ e, LimitsMatched m m' usd core u c filled e) ∧
    ∀ call settle order s matchPrice maxSettlement,
      m.Settling call settle order s matchPrice maxSettlement →
      ((m.matchForceSettlement call settle matchPrice maxSettlement).isSome ↔
        ∃ pays, (⟨settledAmount order s maxSettlement, s.balance.assetId⟩ : Asset).mulPrice
          matchPrice = some pays ∧ pays.amount < order.collateral) ∧
      ∀ m' settled, m.matchForceSettlement call settle matchPrice maxSettlement =
          some (m', settled) →
        ∃ e, settled = ⟨e.settlePays, s.balance.assetId⟩ ∧
          CallMatched m m' call settle order s matchPrice maxSettlement e := by
  refine ⟨fun usd core u c matchPrice h ↦ ?_,
    fun call settle order s matchPrice maxSettlement h ↦ ?_⟩
  · have hworth : ∀ r, m.matchLimitOrders usd core matchPrice = some r →
        ∃ worth, c.amountForSale.mulPrice matchPrice = some worth := by
      intro r hr
      simp only [matchLimitOrders, h.usd_mem, h.core_mem, Option.bind_eq_bind, Option.bind_some,
        Option.bind_eq_some_iff] at hr
      obtain ⟨worth, hworth, -⟩ := hr
      exact ⟨worth, hworth⟩
    constructor
    · rw [Option.isSome_iff_exists, Option.isSome_iff_exists]
      refine ⟨fun hsome ↦ hsome.elim hworth, ?_⟩
      rintro ⟨worth, hw⟩
      obtain ⟨m', filled, -, hmatch, -⟩ := matchLimitOrders_exchange h hw
      exact ⟨_, hmatch⟩
    · intro m' filled hr
      obtain ⟨worth, hw⟩ := hworth _ hr
      obtain ⟨m₁, filled₁, e, hmatch, he⟩ := matchLimitOrders_exchange h hw
      obtain ⟨rfl, rfl⟩ := Prod.mk.inj (Option.some.inj (hmatch.symm.trans hr))
      exact ⟨e, he⟩
  · have hpays : ∀ r, m.matchForceSettlement call settle matchPrice maxSettlement = some r →
        ∃ pays, (⟨settledAmount order s maxSettlement, s.balance.assetId⟩ : Asset).mulPrice
          matchPrice = some pays ∧ pays.amount < order.collateral := by
      intro r hr
      have hsale : (⟨min s.balance.amount maxSettlement.amount, s.balance.assetId⟩ : Asset).minimum
          order.getDebt = some ⟨settledAmount order s maxSettlement, s.balance.assetId⟩ :=
        minimum_of_eq h.debt_id
      have hpays : ∃ pays, (⟨settledAmount order s maxSettlement, s.balance.assetId⟩ :
          Asset).mulPrice matchPrice = some pays := by
        simp only [matchForceSettlement, h.call_mem, h.settle_mem, minimum_of_eq h.max_id, hsale,
          Option.bind_eq_bind, Option.bind_some, Option.bind_eq_some_iff] at hr
        obtain ⟨-, -, -, -, pays, hpays, -⟩ := hr
        exact ⟨pays, hpays⟩
      obtain ⟨pays, hpays⟩ := hpays
      rw [h.matchForceSettlement hpays] at hr
      exact ⟨pays, hpays, (Option.ite_none_right_eq_some.1 hr).1⟩
    constructor
    · rw [Option.isSome_iff_exists]
      refine ⟨fun hsome ↦ hsome.elim hpays, ?_⟩
      rintro ⟨pays, hmul, hlt⟩
      obtain ⟨m', e, hmatch, -⟩ := matchForceSettlement_exchange h hmul hlt
      exact ⟨_, hmatch⟩
    · intro m' settled hr
      obtain ⟨pays, hmul, hlt⟩ := hpays _ hr
      obtain ⟨m₁, e, hmatch, he⟩ := matchForceSettlement_exchange h hmul hlt
      obtain ⟨rfl, rfl⟩ := Prod.mk.inj (Option.some.inj (hmatch.symm.trans hr))
      exact ⟨e, rfl, he⟩

/-! ## A market with both -/

/-- Ten of the first asset are owed, for thirty core. -/
def owedOrder : CallOrder := ⟨6, 30, by decide, 10, ⟨⟨1, coreAsset⟩, ⟨1, 1⟩⟩⟩

/-- Five of the first asset are to be settled. -/
def fiveToSettle : ForceSettlement := ⟨7, ⟨5, 1⟩, 0⟩

/-- The market of two sellers and a buyer, with a position and a settlement. -/
def busyMarket : Market :=
  { twoSellers.addOrder 2 buyOrder with
    callOrders := AList.singleton 0 owedOrder
    forceSettlements := AList.singleton 0 fiveToSettle }

theorem busyMarket_opposed : busyMarket.Opposed 2 1 buyOrder cheapOrder cheapOrder.sellPrice :=
  ⟨by decide, rfl, rfl, by decide, by decide, by decide, by decide, by decide, ⟨rfl, rfl⟩,
    ⟨rfl, rfl⟩, by decide, by decide, ⟨rfl, rfl⟩, ⟨rfl, rfl⟩,
    ⟨by decide, by decide, by decide⟩, by decide, by decide, by decide⟩

theorem busyMarket_settling :
    busyMarket.Settling 0 0 owedOrder fiveToSettle ⟨⟨1, 1⟩, ⟨2, coreAsset⟩⟩ ⟨5, 1⟩ :=
  ⟨rfl, rfl, rfl, rfl, by decide, by decide, by decide, by decide, by decide, ⟨rfl, rfl⟩, rfl,
    ⟨rfl, rfl⟩, by decide, by decide, by decide⟩

/-- The buyer uses up the cheap order, and the settlement is settled. -/
theorem match_conserves_busy :
    (∃ m' filled e, busyMarket.matchLimitOrders 2 1 cheapOrder.sellPrice = some (m', filled) ∧
      Market.LimitsMatched busyMarket m' 2 1 buyOrder cheapOrder filled e) ∧
    ∃ m' settled e, busyMarket.matchForceSettlement 0 0 ⟨⟨1, 1⟩, ⟨2, coreAsset⟩⟩ ⟨5, 1⟩ =
        some (m', settled) ∧
      Market.CallMatched busyMarket m' 0 0 owedOrder fiveToSettle ⟨⟨1, 1⟩, ⟨2, coreAsset⟩⟩ ⟨5, 1⟩
        e := by
  obtain ⟨hlimits, hcalls⟩ := match_conserves busyMarket
  obtain ⟨hreturns, hdoes⟩ := hlimits _ _ _ _ _ busyMarket_opposed
  obtain ⟨hreturns', hdoes'⟩ := hcalls _ _ _ _ _ _ busyMarket_settling
  obtain ⟨⟨m', filled⟩, hm'⟩ := Option.isSome_iff_exists.1 (hreturns.2 rfl)
  obtain ⟨⟨m₁, settled⟩, hm₁⟩ := Option.isSome_iff_exists.1
    (hreturns'.2 ⟨⟨10, coreAsset⟩, rfl, by decide⟩)
  obtain ⟨e, he⟩ := hdoes m' filled hm'
  obtain ⟨e', -, he'⟩ := hdoes' m₁ settled hm₁
  exact ⟨⟨m', filled, e, hm', he⟩, m₁, settled, e', hm₁, he'⟩

/-- Where no more may be settled, neither the call order nor the settlement is used up. -/
theorem match_leaves_both :
    ∃ m', busyMarket.matchForceSettlement 0 0 ⟨⟨1, 1⟩, ⟨2, coreAsset⟩⟩ ⟨1, 1⟩ =
        some (m', ⟨1, 1⟩) ∧
      (m'.callOrders.lookup 0).isSome ∧ (m'.forceSettlements.lookup 0).isSome := by
  have hsettled : (busyMarket.matchForceSettlement 0 0 ⟨⟨1, 1⟩, ⟨2, coreAsset⟩⟩ ⟨1, 1⟩).map
      (fun r ↦ (r.2, (r.1.callOrders.lookup 0).isSome, (r.1.forceSettlements.lookup 0).isSome)) =
        some (⟨1, 1⟩, true, true) := by decide +kernel
  obtain ⟨⟨m', settled⟩, hm', heq⟩ := Option.map_eq_some_iff.1 hsettled
  obtain ⟨rfl, hleft⟩ := Prod.mk.inj heq
  obtain ⟨hcall, hsettle⟩ := Prod.mk.inj hleft
  exact ⟨m', hm', hcall, hsettle⟩

end Graphene
