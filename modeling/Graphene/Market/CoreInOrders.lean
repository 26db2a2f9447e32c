import Graphene.Market.MarginCalls
import Mathlib.Algebra.Group.Pi.Basic
import Mathlib.Algebra.Order.Group.Int
import Mathlib.Algebra.Order.Pi
import Mathlib.Logic.Relation
import Mathlib.Tactic.Abel

/-!
# The core asset in orders

Every account has a counter of the core asset that it has in orders, next to the orders.  Filling a
call order completely gives back the collateral that is left, and takes it off the counter of the
borrower whatever asset it is.

The counters are part of what a vote is weighed by, and no operation compares them with the orders.
The difference between the two is a quantity of its own here: what each operation does to it can be
added up over a run, which cannot be said of whether the counters are right.

* `Market.coreInOrders` — what there is in the orders; `Market.Exact` — the counters say so.
* `Market.drift` — how far the counters are off.  No operation makes one larger, so that one which
  is off stays so.
* `MarketStep`, `Market.step` — what the markets can do; `Market.Clean` — no call order with
  collateral in another asset is filled completely with some of it left.
* `core_in_orders_iff` — the counters are exact after a step just if it is a clean one.
-/

set_option autoImplicit false

namespace Graphene

/-! ## What there is in orders -/

/-- An amount that an account holds, as far as it is in the core asset. -/
def coreHeld (id : AssetId) (account : AccountId) (amount : ℤ) : AccountId → ℤ :=
  if id = coreAsset then Pi.single account amount else 0

/-- What a limit order holds in the core asset. -/
def LimitOrder.core (order : LimitOrder) : AccountId → ℤ :=
  coreHeld order.sellPrice.base.assetId order.seller order.forSale

/-- What a call order holds in the core asset. -/
def CallOrder.core (order : CallOrder) : AccountId → ℤ :=
  coreHeld order.callPrice.base.assetId order.borrower order.collateral

namespace Market

/-- What the orders hold in the core asset, by account. -/
def coreInOrders (m : Market) : AccountId → ℤ :=
  m.limitOrders.sumOf LimitOrder.core + m.callOrders.sumOf CallOrder.core

/-- Every counter says what there is. -/
def Exact (m : Market) : Prop := ∀ a, m.totalCoreInOrders a = m.coreInOrders a

/-- How far the counters are off. -/
def drift (m : Market) : AccountId → ℤ := m.totalCoreInOrders - m.coreInOrders

theorem exact_iff (m : Market) : m.Exact ↔ m.drift = 0 := by
  rw [drift, sub_eq_zero]
  exact funext_iff.symm

end Market

theorem coreHeld_sub (id : AssetId) (account : AccountId) (x y : ℤ) :
    coreHeld id account (x - y) = coreHeld id account x - coreHeld id account y := by
  rw [coreHeld, coreHeld, coreHeld]
  split_ifs
  · exact Pi.single_sub (f := fun _ : AccountId ↦ ℤ) account x y
  · rw [sub_zero]

namespace Market

variable {m m' : Market}

/-! ## What leaves the counters alone -/

/-- Nothing has happened to the counters and the orders that they count. -/
structure SameOrders (m m' : Market) : Prop where
  /-- The counters are the same. -/
  total : m'.totalCoreInOrders = m.totalCoreInOrders
  /-- The limit orders are the same. -/
  limits : m'.limitOrders = m.limitOrders
  /-- The call orders are the same. -/
  calls : m'.callOrders = m.callOrders

theorem SameOrders.trans {m₁ : Market} (h : SameOrders m m₁) (h' : SameOrders m₁ m') :
    SameOrders m m' :=
  ⟨h'.total.trans h.total, h'.limits.trans h.limits, h'.calls.trans h.calls⟩

theorem SameOrders.drift (h : SameOrders m m') : m'.drift = m.drift := by
  rw [Market.drift, Market.drift, coreInOrders, coreInOrders, h.total, h.limits, h.calls]

theorem sameOrders_adjustBalance {account : AccountId} {delta : Asset}
    (h : m.adjustBalance account delta = some m') : SameOrders m m' := by
  obtain ⟨l, -, rfl⟩ := Option.map_eq_some_iff.1 h
  exact ⟨rfl, rfl, rfl⟩

theorem sameOrders_payMarketFees {receives fees : Asset}
    (h : m.payMarketFees receives = some (m', fees)) : SameOrders m m' := by
  simp only [payMarketFees, Option.bind_eq_bind, Option.bind_eq_some_iff] at h
  obtain ⟨-, -, h⟩ := h
  split_ifs at h
  · obtain ⟨rfl, -⟩ := Prod.mk.inj (Option.some.inj h)
    exact ⟨rfl, rfl, rfl⟩
  · obtain ⟨rfl, -⟩ := Prod.mk.inj (Option.some.inj h)
    exact ⟨rfl, rfl, rfl⟩

theorem totalCoreInOrders_add (account : AccountId) (x : ℤ) :
    (m.addCoreInOrders account x).totalCoreInOrders =
      m.totalCoreInOrders + Pi.single account x := by
  funext a
  rw [Pi.add_apply]
  show Function.update m.totalCoreInOrders account _ a = _
  rcases eq_or_ne a account with rfl | ha
  · rw [Function.update_self, Pi.single_eq_same]
  · rw [Function.update_of_ne ha, Pi.single_eq_of_ne ha, add_zero]

/-- What is core is taken off the counter. -/
theorem totalCoreInOrders_release (id : AssetId) (account : AccountId) (x : ℤ) :
    (if id = coreAsset then m.addCoreInOrders account (-x) else m).totalCoreInOrders =
      m.totalCoreInOrders - coreHeld id account x := by
  rw [coreHeld]
  split_ifs
  · rw [totalCoreInOrders_add, Pi.single_neg, sub_eq_add_neg]
  · rw [sub_zero]

theorem limitOrders_addIf (c : Prop) [Decidable c] (account : AccountId) (x : ℤ) :
    (if c then m.addCoreInOrders account x else m).limitOrders = m.limitOrders := by
  split_ifs <;> rfl

theorem callOrders_addIf (c : Prop) [Decidable c] (account : AccountId) (x : ℤ) :
    (if c then m.addCoreInOrders account x else m).callOrders = m.callOrders := by
  split_ifs <;> rfl

/-- What leaves the orders of an account leaves its counter, or the counter drifts. -/
theorem drift_of_released (m : Market) (x y z : AccountId → ℤ)
    (htotal : m'.totalCoreInOrders = m.totalCoreInOrders - x)
    (hlimits : m'.limitOrders.sumOf LimitOrder.core = m.limitOrders.sumOf LimitOrder.core - y)
    (hcalls : m'.callOrders.sumOf CallOrder.core = m.callOrders.sumOf CallOrder.core - z) :
    m'.drift = m.drift - (x - y - z) := by
  rw [drift, drift, coreInOrders, coreInOrders, htotal, hlimits, hcalls]
  abel

/-! ## Limit orders -/

/-- What is taken off the counter leaves with the order. -/
theorem drift_removeLimit {m₁ : Market} {id : ℕ} {order : LimitOrder}
    (horder : m.limitOrders.lookup id = some order)
    (htotal : m₁.totalCoreInOrders = m.totalCoreInOrders - order.core)
    (hlimits : m₁.limitOrders = m.limitOrders) (hcalls : m₁.callOrders = m.callOrders) :
    { m₁ with limitOrders := m₁.limitOrders.erase id }.drift = m.drift := by
  refine (drift_of_released m order.core order.core 0 ?_ ?_ ?_).trans ?_
  · exact htotal
  · dsimp only
    rw [hlimits, AList.sumOf_erase horder]
  · dsimp only
    rw [hcalls, sub_zero]
  · rw [sub_self, sub_zero, sub_zero]

/-- What is taken off the counter leaves the order. -/
theorem drift_reduceLimit {m₁ : Market} {id : ℕ} {order : LimitOrder} {amount : ℤ}
    (horder : m.limitOrders.lookup id = some order)
    (htotal : m₁.totalCoreInOrders =
      m.totalCoreInOrders - coreHeld order.sellPrice.base.assetId order.seller amount)
    (hlimits : m₁.limitOrders = m.limitOrders) (hcalls : m₁.callOrders = m.callOrders) :
    { m₁ with
      limitOrders := m₁.limitOrders.insert id
        { order with forSale := order.forSale - amount, deferredFee := 0 } }.drift = m.drift := by
  let held := coreHeld order.sellPrice.base.assetId order.seller amount
  refine (drift_of_released m held held 0 ?_ ?_ ?_).trans ?_
  · exact htotal
  · dsimp only
    rw [hlimits, AList.sumOf_insert horder]
    show _ - order.core + coreHeld _ order.seller (order.forSale - amount) = _
    rw [coreHeld_sub]
    exact sub_add_sub_cancel (m.limitOrders.sumOf LimitOrder.core) order.core held
  · dsimp only
    rw [hcalls, sub_zero]
  · rw [sub_self, sub_zero, sub_zero]

/-- Taking an order back leaves the counters as far off as they were. -/
theorem drift_cancelOrder {id : ℕ} (h : m.cancelOrder id = some m') : m'.drift = m.drift := by
  simp only [cancelOrder, Option.bind_eq_bind, Option.bind_eq_some_iff] at h
  obtain ⟨order, horder, -, -, m₁, hm₁, m₂, hm₂, h⟩ := h
  obtain rfl := Option.some.inj h
  have hsame := (sameOrders_adjustBalance hm₁).trans (sameOrders_adjustBalance hm₂)
  exact drift_removeLimit horder (hsame.total.trans (totalCoreInOrders_release _ _ _))
    (hsame.limits.trans (limitOrders_addIf _ _ _)) (hsame.calls.trans (callOrders_addIf _ _ _))

theorem drift_maybeCullSmallOrder {id : ℕ} {culled : Bool}
    (h : m.maybeCullSmallOrder id = some (m', culled)) : m'.drift = m.drift := by
  simp only [maybeCullSmallOrder, Option.bind_eq_bind, Option.bind_eq_some_iff] at h
  obtain ⟨order, -, receive, -, h⟩ := h
  split_ifs at h
  · obtain ⟨m₁, hm₁, h⟩ := Option.bind_eq_some_iff.1 h
    obtain ⟨rfl, -⟩ := Prod.mk.inj (Option.some.inj h)
    exact drift_cancelOrder hm₁
  · obtain ⟨rfl, -⟩ := Prod.mk.inj (Option.some.inj h)
    rfl

/-- What an order pays is taken off the counter if it is core. -/
theorem payOrder_spec {receiver : AccountId} {receives pays : Asset}
    (h : m.payOrder receiver receives pays = some m') :
    m'.totalCoreInOrders = m.totalCoreInOrders - coreHeld pays.assetId receiver pays.amount ∧
      m'.limitOrders = m.limitOrders ∧ m'.callOrders = m.callOrders := by
  have hsame := sameOrders_adjustBalance h
  exact ⟨hsame.total.trans (totalCoreInOrders_release _ _ _),
    hsame.limits.trans (limitOrders_addIf _ _ _), hsame.calls.trans (callOrders_addIf _ _ _)⟩

/-- **Filling a limit order** leaves the counters as far off as they were. -/
theorem drift_fillLimitOrder {id : ℕ} {pays receives : Asset} {cull filled : Bool}
    (h : m.fillLimitOrder id pays receives cull = some (m', filled)) : m'.drift = m.drift := by
  simp only [fillLimitOrder, Option.bind_eq_bind, Option.bind_eq_some_iff, Option.guard_eq_some',
    exists_const] at h
  obtain ⟨order, horder, hasset, -, -, -, ⟨m₁, fees⟩, hfees, paid, -, m₂, hm₂, h⟩ := h
  have hsame := sameOrders_payMarketFees hfees
  obtain ⟨htotal, hlimits, hcalls⟩ := payOrder_spec hm₂
  have hpaid : SameOrders m₂
      (if order.deferredFee > 0 then m₂.payDeferredFee order.seller order.deferredFee else m₂) := by
    split_ifs
    · exact ⟨rfl, rfl, rfl⟩
    · exact ⟨rfl, rfl, rfl⟩
  generalize (if order.deferredFee > 0 then _ else m₂) = m₃ at hpaid h
  have htotal : m₃.totalCoreInOrders =
      m.totalCoreInOrders - coreHeld order.sellPrice.base.assetId order.seller pays.amount := by
    rw [hpaid.total, htotal, hsame.total, ← hasset]
    rfl
  have hlimits : m₃.limitOrders = m.limitOrders :=
    hpaid.limits.trans (hlimits.trans hsame.limits)
  have hcalls : m₃.callOrders = m.callOrders := hpaid.calls.trans (hcalls.trans hsame.calls)
  split_ifs at h with hall hcull
  · obtain ⟨rfl, -⟩ := Prod.mk.inj (Option.some.inj h)
    refine drift_removeLimit horder ?_ hlimits hcalls
    rw [htotal, hall]
    rfl
  · rw [drift_maybeCullSmallOrder h]
    exact drift_reduceLimit horder htotal hlimits hcalls
  · obtain ⟨rfl, -⟩ := Prod.mk.inj (Option.some.inj h)
    exact drift_reduceLimit horder htotal hlimits hcalls

/-! ## Call orders -/

end Market

/-- What a call order that pays takes off the counter beyond what it held in the core asset: what
is left of collateral in another asset once it is filled completely. -/
def CallOrder.overdrawn (order : CallOrder) (pays receives : ℤ) : AccountId → ℤ :=
  if order.debt = receives ∧ order.callPrice.base.assetId ≠ coreAsset then
    Pi.single order.borrower (order.collateral - pays)
  else 0

/-- A call order is filled without collateral in another asset being left. -/
def CallOrder.FilledClean (order : CallOrder) (pays receives : ℤ) : Prop :=
  order.callPrice.base.assetId = coreAsset ∨ order.debt ≠ receives ∨ order.collateral = pays

theorem CallOrder.overdrawn_nonneg {order : CallOrder} {pays receives : ℤ}
    (h : pays ≤ order.collateral) : 0 ≤ order.overdrawn pays receives := by
  rw [overdrawn]
  split_ifs
  · exact Pi.single_nonneg.2 (Int.sub_nonneg_of_le h)
  · exact le_rfl

theorem CallOrder.overdrawn_eq_zero {order : CallOrder} {pays receives : ℤ} :
    order.overdrawn pays receives = 0 ↔ order.FilledClean pays receives := by
  rw [overdrawn, FilledClean]
  split_ifs with h
  · rw [Pi.single_eq_zero_iff, sub_eq_zero, or_iff_right h.2, or_iff_right (not_not.2 h.1)]
  · rw [iff_true_left rfl]
    by_cases hcore : order.callPrice.base.assetId = coreAsset
    · exact .inl hcore
    · exact .inr (.inl fun hdebt ↦ h ⟨hdebt, hcore⟩)

namespace Market

variable {m m' : Market}

/-- What is freed is taken off the counter of the borrower. -/
theorem total_freeCollateral {borrower : AccountId} {freed : Option Asset}
    (h : m.freeCollateral borrower freed = some m') (hfreed : ∀ f ∈ freed, 0 ≤ f.amount) :
    m'.totalCoreInOrders =
      m.totalCoreInOrders - freed.elim 0 (fun f ↦ Pi.single borrower f.amount) := by
  cases freed with
  | none =>
    obtain rfl := Option.some.inj h
    exact (sub_zero _).symm
  | some f =>
    obtain ⟨m₁, hm₁, h⟩ := Option.bind_eq_some_iff.1 h
    obtain rfl := Option.some.inj h
    rw [Option.elim_some, ← (sameOrders_adjustBalance hm₁).total]
    split_ifs with hpos
    · rw [totalCoreInOrders_add, Pi.single_neg, sub_eq_add_neg]
    · have hzero : f.amount = 0 := le_antisymm (not_lt.1 hpos) (hfreed f rfl)
      rw [hzero, Pi.single_zero, sub_zero]

/-- What is given back and what is paid, less what was held in the core asset. -/
theorem overdrawn_of_filled (order : CallOrder) (pays receives : ℤ)
    (hfilled : order.debt = receives) :
    Pi.single order.borrower (order.collateral - pays) +
        coreHeld order.callPrice.base.assetId order.borrower pays - order.core =
      order.overdrawn pays receives := by
  rw [CallOrder.core, CallOrder.overdrawn, coreHeld, coreHeld]
  by_cases hcore : order.callPrice.base.assetId = coreAsset
  · rw [if_pos hcore, if_pos hcore, if_neg fun h ↦ h.2 hcore, ← Pi.single_add, sub_add_cancel,
      sub_self]
  · rw [if_neg hcore, if_neg hcore, if_pos ⟨hfilled, hcore⟩, add_zero, sub_zero]

/-- **Filling a call order** makes the counter of the borrower too small by what is overdrawn. -/
theorem drift_fillCallOrder {id : ℕ} {pays receives : Asset} {filled : Bool}
    (h : m.fillCallOrder id pays receives = some (m', filled)) :
    ∃ order, m.callOrders.lookup id = some order ∧ pays.amount ≤ order.collateral ∧
      m'.drift = m.drift - order.overdrawn pays.amount receives.amount := by
  obtain ⟨order, hpays, m₁, horder, -, hasset, hm₁, rfl⟩ := fillCallOrder_spec h
  refine ⟨order, horder, hpays, ?_⟩
  obtain ⟨hlimits, hcalls⟩ := orders_freeCollateral hm₁
  have htotal := total_freeCollateral hm₁ fun f hf ↦ by
    split_ifs at hf
    · obtain rfl := Option.some.inj hf
      exact Int.sub_nonneg_of_le hpays
    · cases hf
  have hpaid := totalCoreInOrders_release (m := m₁) pays.assetId order.borrower pays.amount
  rw [htotal, ← hasset] at hpaid
  rw [← hasset]
  have hlimits' := (limitOrders_addIf (m := m₁) (order.callPrice.base.assetId = coreAsset)
    order.borrower (-pays.amount)).trans hlimits
  generalize (if order.callPrice.base.assetId = coreAsset then
    m₁.addCoreInOrders order.borrower (-pays.amount) else m₁) = m₂ at hpaid hlimits' ⊢
  have hlimits : m₂.limitOrders = m.limitOrders := hlimits'
  have hcalls : m₁.callOrders = m.callOrders := hcalls
  let held := coreHeld order.callPrice.base.assetId order.borrower pays.amount
  by_cases hfilled : (order.pay pays.amount receives.amount hpays).debt = 0
  · have hdebt : order.debt = receives.amount := Int.sub_eq_zero.1 hfilled
    rw [if_pos hfilled, Option.elim_some] at hpaid
    rw [if_pos hfilled]
    let freed : AccountId → ℤ := Pi.single order.borrower (order.collateral - pays.amount)
    refine (drift_of_released m (freed + held) 0 order.core ?_ ?_ ?_).trans ?_
    · exact hpaid.trans (sub_sub _ freed held)
    · dsimp only
      rw [hlimits, sub_zero]
    · dsimp only
      rw [hcalls, AList.sumOf_erase horder]
    · rw [sub_zero, ← overdrawn_of_filled order pays.amount receives.amount hdebt]
  · have hdebt : order.debt ≠ receives.amount := fun h ↦ hfilled (Int.sub_eq_zero.2 h)
    rw [if_neg hfilled, Option.elim_none, sub_zero] at hpaid
    rw [if_neg hfilled]
    refine (drift_of_released m held 0 held ?_ ?_ ?_).trans ?_
    · exact hpaid
    · dsimp only
      rw [hlimits, sub_zero]
    · dsimp only
      rw [hcalls, AList.sumOf_insert horder]
      show _ - order.core + coreHeld _ order.borrower (order.collateral - pays.amount) = _
      rw [coreHeld_sub]
      exact sub_add_sub_cancel (m.callOrders.sumOf CallOrder.core) order.core held
    · rw [sub_zero, sub_self, CallOrder.overdrawn, if_neg fun h ↦ hdebt h.1]

/-! ## Counters that fall behind -/

/-- No counter is farther ahead than it was, and all are as far off as they were just if `clean`. -/
def Drifts (m m' : Market) (clean : Prop) : Prop :=
  m'.drift ≤ m.drift ∧ (m'.drift = m.drift ↔ clean)

namespace Drifts

variable {c d : Prop} {m₁ : Market}

theorem of_eq (h : m'.drift = m.drift) (hc : c) : Drifts m m' c := ⟨h.le, iff_of_true h hc⟩

theorem congr (h : Drifts m m' c) (hcd : c ↔ d) : Drifts m m' d := ⟨h.1, h.2.trans hcd⟩

/-- What has fallen behind does not catch up. -/
theorem trans (h : Drifts m m₁ c) (h' : Drifts m₁ m' d) : Drifts m m' (c ∧ d) := by
  refine ⟨h'.1.trans h.1, fun heq ↦ ?_, fun ⟨hc, hd⟩ ↦ (h'.2.2 hd).trans (h.2.2 hc)⟩
  have hfirst : m₁.drift = m.drift := le_antisymm h.1 (heq ▸ h'.1)
  exact ⟨h.2.1 hfirst, h'.2.1 (heq.trans hfirst.symm)⟩

end Drifts

theorem drifts_fillCallOrder {id : ℕ} {pays receives : Asset} {filled : Bool}
    (h : m.fillCallOrder id pays receives = some (m', filled)) :
    Drifts m m'
      (∀ order ∈ m.callOrders.lookup id, order.FilledClean pays.amount receives.amount) := by
  obtain ⟨order, horder, hpays, hdrift⟩ := drift_fillCallOrder h
  constructor
  · rw [hdrift]
    exact sub_le_self _ (CallOrder.overdrawn_nonneg hpays)
  · rw [hdrift, sub_eq_self, CallOrder.overdrawn_eq_zero, horder]
    exact ⟨fun hclean o ho ↦ Option.some.inj ho ▸ hclean, fun hclean ↦ hclean order rfl⟩

/-! ## Orders that fill each other -/

theorem drift_matchLimitOrders {usd core : ℕ} {matchPrice : Price} {filled : Bool × Bool}
    (h : m.matchLimitOrders usd core matchPrice = some (m', filled)) : m'.drift = m.drift := by
  simp only [matchLimitOrders, Option.bind_eq_bind, Option.bind_eq_some_iff] at h
  obtain ⟨_, -, _, -, _, -, _, -, _, -, ⟨m₁, _⟩, hm₁, ⟨m₂, _⟩, hm₂, h⟩ := h
  obtain ⟨rfl, -⟩ := Prod.mk.inj (Option.some.inj h)
  exact (drift_fillLimitOrder hm₂).trans (drift_fillLimitOrder hm₁)

theorem sameOrders_fillForceSettlement {id : ℕ} {pays receives : Asset} {filled : Bool}
    (h : m.fillForceSettlement id pays receives = some (m', filled)) : SameOrders m m' := by
  simp only [fillForceSettlement, Option.bind_eq_bind, Option.bind_eq_some_iff] at h
  obtain ⟨_, -, ⟨m₁, _⟩, hm₁, _, -, _, -, m₂, hm₂, h⟩ := h
  have hsame := (sameOrders_payMarketFees hm₁).trans (sameOrders_adjustBalance hm₂)
  split_ifs at h
  · obtain ⟨_, -, h⟩ := Option.bind_eq_some_iff.1 h
    obtain ⟨rfl, -⟩ := Prod.mk.inj (Option.some.inj h)
    exact hsame.trans ⟨rfl, rfl, rfl⟩
  · obtain ⟨rfl, -⟩ := Prod.mk.inj (Option.some.inj h)
    exact hsame.trans ⟨rfl, rfl, rfl⟩

/-- A settlement leaves some of the collateral, so that it is clean just if the collateral is core
or the debt is more than what is settled. -/
theorem drifts_matchForceSettlement {call settle : ℕ} {matchPrice : Price}
    {maxSettlement settled : Asset}
    (h : m.matchForceSettlement call settle matchPrice maxSettlement = some (m', settled)) :
    Drifts m m' (∀ order ∈ m.callOrders.lookup call,
      ∀ settlement ∈ m.forceSettlements.lookup settle,
        order.callPrice.base.assetId = coreAsset ∨
          settlement.balance.amount < order.debt ∨ maxSettlement.amount < order.debt) := by
  simp only [matchForceSettlement, Option.bind_eq_bind, Option.bind_eq_some_iff,
    Option.guard_eq_some', exists_const] at h
  obtain ⟨order, horder, settlement, hsettlement, -, -, forSale, hforSale, receives, hreceives,
    pays, hpays, less, hless, hleft, ⟨m₁, _⟩, hm₁, ⟨m₂, _⟩, hm₂, h⟩ := h
  obtain ⟨rfl, -⟩ := Prod.mk.inj (Option.some.inj h)
  have hdrifts := (drifts_fillCallOrder hm₁).trans
    (.of_eq (sameOrders_fillForceSettlement hm₂).drift trivial)
  refine hdrifts.congr ?_
  rw [horder, hsettlement, and_iff_left trivial]
  refine forall₂_congr fun o ho ↦ ?_
  obtain rfl := Option.some.inj ho
  obtain ⟨-, rfl⟩ := Asset.less_eq_some.1 hless
  have hleft : pays.amount < order.collateral := of_decide_eq_true hleft
  have hamount : receives.amount =
      min (min settlement.balance.amount maxSettlement.amount) order.debt := by
    rw [Asset.amount_minimum hreceives, Asset.amount_minimum hforSale]
    rfl
  simp only [Option.mem_def, Option.some.injEq, forall_eq', CallOrder.FilledClean]
  rw [or_iff_left hleft.ne', hamount]
  refine or_congr_right ?_
  omega

/-! ## Global settlement -/

end Market

/-- All the collateral is used up when the debt is paid at `price`, or it is core. -/
def CallOrder.UsedUpAt (order : CallOrder) (price : Price) : Prop :=
  order.callPrice.base.assetId = coreAsset ∨
    ∀ worth ∈ order.getDebt.mulPrice price, order.collateral ≤ worth.amount

theorem CallOrder.filledClean_iff {order : CallOrder} {price : Price} {worth : Asset} {less : Bool}
    (hworth : order.getDebt.mulPrice price = some worth)
    (hless : worth.lessEq order.getCollateral = some less) :
    order.FilledClean (if less then worth else order.getCollateral).amount order.debt ↔
      order.UsedUpAt price := by
  obtain ⟨-, rfl⟩ := Asset.lessEq_eq_some.1 hless
  rw [FilledClean, UsedUpAt, hworth, or_iff_right (not_not.2 rfl)]
  refine or_congr_right ?_
  simp only [Option.mem_def, Option.some.injEq, forall_eq']
  split_ifs with h
  · have hle : worth.amount ≤ order.collateral := of_decide_eq_true h
    exact ⟨le_of_eq, fun h ↦ le_antisymm h hle⟩
  · have hlt : order.collateral < worth.amount := not_le.1 fun hle ↦ h (decide_eq_true hle)
    exact iff_of_true rfl hlt.le

namespace Market

/-- At `price`, every call order of `mia` is used up. -/
def SettlesClean (m : Market) (mia : AssetId) (price : Price) : Prop :=
  ∀ bitasset ∈ m.bitassets mia, ∀ calls ∈ m.callsOf mia bitasset.shortBackingAsset,
    ∀ call ∈ calls, call.2.UsedUpAt price

variable {m m' : Market}

theorem drifts_settleCalls {price : Price} {ids : List ℕ} {gathered gathered' : Asset}
    (hids : ids.Nodup) (h : settleCalls price m gathered ids = some (m', gathered')) :
    Drifts m m' (∀ id ∈ ids, ∀ order ∈ m.callOrders.lookup id, order.UsedUpAt price) := by
  induction ids generalizing m gathered with
  | nil =>
    obtain ⟨rfl, -⟩ := Prod.mk.inj (Option.some.inj h)
    exact .of_eq rfl fun _ h ↦ absurd h List.not_mem_nil
  | cons id ids ih =>
    obtain ⟨hid, hids⟩ := List.nodup_cons.1 hids
    simp only [settleCalls, Option.bind_eq_bind, Option.bind_eq_some_iff, Option.guard_eq_some',
      exists_const] at h
    obtain ⟨order, horder, worth, hworth, less, hless, gathered₁, -, ⟨m₁, filled⟩, hm₁, -, h⟩ := h
    refine ((drifts_fillCallOrder hm₁).trans (ih hids h)).congr ?_
    rw [List.forall_mem_cons]
    refine and_congr ?_ (forall₂_congr fun j hj ↦ ?_)
    · rw [horder]
      exact forall₂_congr fun o ho ↦ Option.some.inj ho ▸ CallOrder.filledClean_iff hworth hless
    · rw [lookup_fillCallOrder hm₁ (ne_of_mem_of_not_mem hj hid)]

/-- **Global settlement** keeps the counters just if it uses up all the collateral. -/
theorem drifts_globallySettleAsset {mia : AssetId} {price : Price}
    (h : m.globallySettleAsset mia price = some m') : Drifts m m' (m.SettlesClean mia price) := by
  simp only [globallySettleAsset, Option.bind_eq_bind, Option.bind_eq_some_iff,
    Option.guard_eq_some', exists_const] at h
  obtain ⟨bitasset, hbitasset, -, -, -, calls, hcalls, ⟨m₁, gathered⟩, hm₁, p, -, h⟩ := h
  obtain rfl := Option.some.inj h
  obtain ⟨hnodup, hlookup⟩ := mem_callsOf hcalls
  refine (drifts_settleCalls hnodup hm₁).congr ?_
  constructor
  · intro hclean b hb calls' hcalls' call hcall
    obtain rfl := Option.some.inj (hb.symm.trans hbitasset)
    obtain rfl := Option.some.inj (hcalls'.symm.trans hcalls)
    exact hclean call.1 (List.mem_map_of_mem hcall) call.2 (hlookup call hcall)
  · intro hclean id hid order horder
    obtain ⟨call, hcall, rfl⟩ := List.mem_map.1 hid
    obtain rfl := Option.some.inj (horder.symm.trans (hlookup call hcall))
    exact hclean bitasset hbitasset calls hcalls call hcall

/-- If a settlement is due, it is a clean one. -/
def SwanClean (m : Market) (mia : AssetId) : Prop :=
  ∀ price, m.blackSwan mia = some (.due price) → m.SettlesClean mia price

theorem drifts_checkForBlackswan {mia : AssetId} {enable settled : Bool}
    (h : m.checkForBlackswan mia enable = some (m', settled)) :
    Drifts m m' (m.SwanClean mia) := by
  rcases checkForBlackswan_spec h with ⟨hswan, rfl, -⟩ | ⟨hswan, rfl, -⟩ | ⟨price, hswan, -, hm', -⟩
  · exact .of_eq rfl fun _ hdue ↦ by simp [hswan] at hdue
  · exact .of_eq rfl fun _ hdue ↦ by simp [hswan] at hdue
  · refine (drifts_globallySettleAsset hm').congr ⟨fun hclean p hp ↦ ?_, fun hclean ↦ ?_⟩
    · obtain rfl := Swan.due.inj (Option.some.inj (hp.symm.trans hswan))
      exact hclean
    · exact hclean price hswan

/-! ## Margin calls -/

end Market

namespace MarginCalls

/-- What an iteration does is clean. -/
def Clean (mia : AssetId) (s : MarginCalls) : Prop :=
  s.market.SwanClean mia ∧
    (s.market.blackSwan mia = some .calm → ∀ plan ∈ s.plan mia,
      match plan with
      | .stop => True
      | .settle price => s.market.SettlesClean mia price
      | .fill call _ pays receives _ _ =>
        ∀ order ∈ s.market.callOrders.lookup call, order.FilledClean pays.amount receives.amount)

/-- One iteration follows another. -/
def Next (mia : AssetId) (enableBlackSwan : Bool) (s s' : MarginCalls) : Prop :=
  s.next mia enableBlackSwan = some (.inr s')

/-- Every iteration from `s` on is clean. -/
def AllClean (mia : AssetId) (enableBlackSwan : Bool) (s : MarginCalls) : Prop :=
  ∀ s', Relation.ReflTransGen (Next mia enableBlackSwan) s s' → s'.Clean mia

variable {mia : AssetId} {enable : Bool} {s : MarginCalls}

/-- The database after an iteration. -/
def after : (Market × Bool) ⊕ MarginCalls → Market
  | .inl r => r.1
  | .inr s' => s'.market

/-- **One iteration** keeps the counters just if it is clean. -/
theorem drifts_next {r : (Market × Bool) ⊕ MarginCalls} (h : s.next mia enable = some r) :
    s.market.Drifts (after r) (s.Clean mia) := by
  obtain ⟨m, settled, hswan, hr⟩ := next_spec h
  refine (Market.drifts_checkForBlackswan hswan).trans ?_
  rcases hr with ⟨rfl, hstop⟩ | ⟨rfl, hr⟩
  · refine .of_eq rfl fun hcalm plan hplan ↦ ?_
    obtain rfl := Option.some.inj (hplan.symm.trans (hstop (Market.calm_iff hswan |>.1 hcalm)))
    trivial
  · have hcalm := (Market.calm_iff hswan).2 rfl
    obtain rfl := Market.eq_of_calm hswan rfl
    rcases hr with ⟨p, m', hplan, hm', rfl⟩ | hfill
    · refine (Market.drifts_globallySettleAsset hm').congr
        ⟨fun hclean _ plan hp ↦ ?_, fun hclean ↦ ?_⟩
      · obtain rfl := Option.some.inj (hp.symm.trans hplan)
        exact hclean
      · exact hclean hcalm _ hplan
    · obtain ⟨call, limit, pays, receives, _, _, m₁, _, m₂, _, hplan, hm₁, hm₂, rfl⟩ := hfill
      have hdrifts := (Market.drifts_fillCallOrder hm₁).trans
        (.of_eq (Market.drift_fillLimitOrder hm₂) trivial)
      refine hdrifts.congr ⟨fun hclean _ plan hp ↦ ?_, fun hclean ↦ ⟨?_, trivial⟩⟩
      · obtain rfl := Option.some.inj (hp.symm.trans hplan)
        exact hclean.1
      · exact hclean hcalm _ hplan

theorem allClean_iff :
    s.AllClean mia enable ↔
      s.Clean mia ∧ ∀ s', s.next mia enable = some (.inr s') → s'.AllClean mia enable := by
  constructor
  · exact fun hall ↦ ⟨hall s .refl, fun s' hs' t ht ↦ hall t (.head hs' ht)⟩
  · rintro ⟨hclean, hrest⟩ t ht
    rcases ht.cases_head with rfl | ⟨s', hs', ht⟩
    · exact hclean
    · exact hrest s' hs' t ht

/-- **The loop** keeps the counters just if every iteration does. -/
theorem drifts_run {r : Market × Bool} (h : s.run mia enable = some r) :
    s.market.Drifts r.1 (s.AllClean mia enable) := by
  induction s using run.induct mia enable with
  | case1 s hnext =>
    rw [run, hnext] at h
    cases h
  | case2 s r' hnext =>
    rw [run, hnext] at h
    obtain rfl := Option.some.inj h
    refine (drifts_next hnext).congr (allClean_iff.trans (and_iff_left fun s' hs' ↦ ?_)).symm
    cases hnext.symm.trans hs'
  | case3 s s' hnext ih =>
    rw [run, hnext] at h
    refine ((drifts_next hnext).trans (ih h)).congr (Iff.trans ?_ allClean_iff.symm)
    refine and_congr_right fun _ ↦ ⟨fun hrest t ht ↦ ?_, fun hrest ↦ hrest s' hnext⟩
    obtain rfl := Sum.inr.inj (Option.some.inj (ht.symm.trans hnext))
    exact hrest

end MarginCalls

namespace Market

variable {m m' : Market}

/-- Every call order that `check_call_orders` fills is filled cleanly. -/
def CallsClean (m : Market) (mia : AssetId) (enableBlackSwan : Bool) : Prop :=
  ∀ bitasset ∈ m.bitassets mia, m.SwanClean mia ∧
    (m.blackSwan mia = some .calm → ∀ s, m.startMarginCalls mia bitasset = some (some s) →
      s.AllClean mia enableBlackSwan)

/-- **Margin calls** keep the counters just if they are all clean. -/
theorem drifts_checkCallOrders {mia : AssetId} {enable called : Bool}
    (h : m.checkCallOrders mia enable = some (m', called)) :
    Drifts m m' (m.CallsClean mia enable) := by
  rcases checkCallOrders_spec h with ⟨hnone, rfl⟩ |
    ⟨bitasset, m₁, settled, hbitasset, hswan, hcases⟩
  · exact .of_eq rfl fun b hb ↦ by simp [hnone] at hb
  have hclean : m.CallsClean mia enable ↔ m.SwanClean mia ∧
      (m.blackSwan mia = some .calm → ∀ s, m.startMarginCalls mia bitasset = some (some s) →
        s.AllClean mia enable) := by
    refine ⟨fun hall ↦ hall bitasset hbitasset, fun hone b hb ↦ ?_⟩
    obtain rfl := Option.some.inj (hb.symm.trans hbitasset)
    exact hone
  refine ((drifts_checkForBlackswan hswan).trans ?_).congr hclean.symm
  rcases hcases with ⟨rfl, hstop⟩ | ⟨rfl, s, hstart, hrun⟩
  · refine .of_eq rfl fun hcalm s hs ↦ ?_
    have hfalse := (calm_iff hswan).1 hcalm
    obtain rfl := eq_of_calm hswan hfalse
    cases (hstop hfalse).symm.trans hs
  · have hcalm := (calm_iff hswan).2 rfl
    obtain rfl := eq_of_calm hswan rfl
    have hdrifts := MarginCalls.drifts_run hrun
    rw [market_of_startMarginCalls hstart] at hdrifts
    refine hdrifts.congr ⟨fun hall _ t ht ↦ ?_, fun hall ↦ hall hcalm s hstart⟩
    obtain rfl := Option.some.inj (Option.some.inj (ht.symm.trans hstart))
    exact hall

end Market

/-! ## Steps of the markets -/

/-- What the markets can do. -/
inductive MarketStep where
  /-- `cancel_order` of a limit order. -/
  | cancelOrder (id : ℕ)
  /-- `fill_order` of a limit order. -/
  | fillLimitOrder (id : ℕ) (pays receives : Asset) (cullIfSmall : Bool)
  /-- `fill_order` of a call order. -/
  | fillCallOrder (id : ℕ) (pays receives : Asset)
  /-- `match` of two limit orders. -/
  | matchLimitOrders (usd core : ℕ) (matchPrice : Price)
  /-- `match` of a call order and a force settlement. -/
  | matchForceSettlement (call settle : ℕ) (matchPrice : Price) (maxSettlement : Asset)
  /-- `check_call_orders`. -/
  | checkCallOrders (mia : AssetId) (enableBlackSwan : Bool)
  /-- `globally_settle_asset`. -/
  | globallySettleAsset (mia : AssetId) (settlementPrice : Price)
  /-- `do_apply` of a `call_order_update_operation`. -/
  | callOrderUpdate

namespace Market

/-- One step of the markets. -/
def step (m : Market) : MarketStep → Option Market
  | .cancelOrder id => m.cancelOrder id
  | .fillLimitOrder id pays receives cullIfSmall =>
    (m.fillLimitOrder id pays receives cullIfSmall).map Prod.fst
  | .fillCallOrder id pays receives => (m.fillCallOrder id pays receives).map Prod.fst
  | .matchLimitOrders usd core matchPrice => (m.matchLimitOrders usd core matchPrice).map Prod.fst
  | .matchForceSettlement call settle matchPrice maxSettlement =>
    (m.matchForceSettlement call settle matchPrice maxSettlement).map Prod.fst
  | .checkCallOrders mia enableBlackSwan => (m.checkCallOrders mia enableBlackSwan).map Prod.fst
  | .globallySettleAsset mia settlementPrice => m.globallySettleAsset mia settlementPrice
  -- `FC_ASSERT( false, "Call order update operation is not supported for now." )`
  | .callOrderUpdate => none

/-- The step does not fill a call order completely whose collateral is not core and not used up. -/
def Clean (m : Market) : MarketStep → Prop
  | .fillCallOrder id pays receives =>
    ∀ order ∈ m.callOrders.lookup id, order.FilledClean pays.amount receives.amount
  | .matchForceSettlement call settle _ maxSettlement =>
    ∀ order ∈ m.callOrders.lookup call, ∀ settlement ∈ m.forceSettlements.lookup settle,
      order.callPrice.base.assetId = coreAsset ∨
        settlement.balance.amount < order.debt ∨ maxSettlement.amount < order.debt
  | .checkCallOrders mia enableBlackSwan => m.CallsClean mia enableBlackSwan
  | .globallySettleAsset mia settlementPrice => m.SettlesClean mia settlementPrice
  | _ => True

variable {m m' : Market}

/-- **Every step** keeps the counters just if it is a clean one. -/
theorem drifts_step {s : MarketStep} (h : m.step s = some m') : Drifts m m' (m.Clean s) := by
  cases s with
  | cancelOrder id => exact .of_eq (drift_cancelOrder h) trivial
  | fillLimitOrder id pays receives cullIfSmall =>
    obtain ⟨r, hr, rfl⟩ := Option.map_eq_some_iff.1 h
    exact .of_eq (drift_fillLimitOrder hr) trivial
  | fillCallOrder id pays receives =>
    obtain ⟨r, hr, rfl⟩ := Option.map_eq_some_iff.1 h
    exact drifts_fillCallOrder hr
  | matchLimitOrders usd core matchPrice =>
    obtain ⟨r, hr, rfl⟩ := Option.map_eq_some_iff.1 h
    exact .of_eq (drift_matchLimitOrders hr) trivial
  | matchForceSettlement call settle matchPrice maxSettlement =>
    obtain ⟨r, hr, rfl⟩ := Option.map_eq_some_iff.1 h
    exact drifts_matchForceSettlement hr
  | checkCallOrders mia enableBlackSwan =>
    obtain ⟨r, hr, rfl⟩ := Option.map_eq_some_iff.1 h
    exact drifts_checkCallOrders hr
  | globallySettleAsset mia settlementPrice => exact drifts_globallySettleAsset h
  | callOrderUpdate => cases h

/-- **The core asset in orders is counted exactly** after a step, just if the step is a clean one:
no call order whose collateral is in another asset is filled completely with some of it left. -/
theorem core_in_orders_iff {s : MarketStep} (hexact : m.Exact) (h : m.step s = some m') :
    m'.Exact ↔ m.Clean s := by
  rw [exact_iff] at hexact ⊢
  rw [← hexact]
  exact (drifts_step h).2

end Market

/-! ## A market with collateral in another asset -/

/-- The price at which the fourth asset is settled in the third. -/
def swanPrice : Price := ⟨⟨10, 3⟩, ⟨4, 2⟩⟩

/-- An account owes ten of an asset whose collateral is not core, and has ten of that in it. -/
def foreignMarket : Market where
  ledger :=
    { headBlockTime := 0
      cashbackVestingThreshold := 0
      accounts := fun _ ↦ some ⟨none, ∅, ∅⟩
      statistics := fun _ ↦ ⟨0, 0⟩
      assets := fun _ ↦ some ⟨false, ∅, ∅, swanPrice⟩
      dynamicData := fun _ ↦ ⟨10, 0, 0⟩
      balances := fun _ _ ↦ none
      migrations := [] }
  totalCoreInOrders := 0
  limitOrders := ∅
  callOrders := AList.singleton 0
    { borrower := 5
      collateral := 10
      collateral_nonneg := by decide
      debt := 10
      callPrice := ⟨⟨1, 2⟩, ⟨2, 3⟩⟩ }
  forceSettlements := ∅
  nextSettlementId := 0
  bitassets := fun id ↦
    if id = 3 then
      some
        { shortBackingAsset := 2
          forceSettlementDelaySec := 0
          currentFeed := ⟨swanPrice, 1500⟩
          isPredictionMarket := false
          settlementPrice := ⟨⟨0, coreAsset⟩, ⟨0, coreAsset⟩⟩
          settlementFund := 0 }
    else none
  marketOptions := fun _ ↦ ⟨false, 0, 0, true⟩

theorem foreignMarket_exact : foreignMarket.Exact := fun _ ↦ rfl

/-- A call order that is filled in part keeps the counters, whatever its collateral is. -/
theorem core_in_orders_partly_filled :
    ∃ m', foreignMarket.step (.fillCallOrder 0 ⟨2, 2⟩ ⟨5, 3⟩) = some m' ∧ m'.Exact := by
  have hsome : (foreignMarket.step (.fillCallOrder 0 ⟨2, 2⟩ ⟨5, 3⟩)).isSome := rfl
  obtain ⟨m', hm'⟩ := Option.isSome_iff_exists.1 hsome
  refine ⟨m', hm', (Market.core_in_orders_iff foreignMarket_exact hm').2 fun order horder ↦ ?_⟩
  obtain rfl := Option.some.inj horder
  exact .inr (.inl (by decide))

/-- Global settlement takes six of the collateral off the counter, which are not core. -/
theorem foreign_collateral_uncounted :
    foreignMarket.Exact ∧
      ∃ m', foreignMarket.step (.globallySettleAsset 3 swanPrice) = some m' ∧ ¬ m'.Exact := by
  refine ⟨fun _ ↦ rfl, _, rfl, fun hexact ↦ ?_⟩
  have h := hexact 5
  revert h
  decide

end Graphene
