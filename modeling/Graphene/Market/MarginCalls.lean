import Graphene.Market.Orders

/-!
# Margin calls and global settlement

A call order whose collateral is worth too little is filled from the limit orders that sell its
debt.  When even the best of them asks for more than there is, the whole asset is settled: every
call order is filled at one price, and the collateral that they pay is put into a fund.

* `Market.limitsBetween`, `Market.callsBetween` — the orders of a market, in the order in which
  they are filled.
* `Market.globallySettleAsset` — all call orders of an asset are filled at one price.
* `Market.checkForBlackswan` — the asset is settled if its least collateralized order is due.
* `MarginCalls.next`, `Market.checkCallOrders` — call orders are filled one after the other.
-/

set_option autoImplicit false

namespace Graphene

namespace Market

variable (m : Market)

/-! ## The orders of a market -/

/-- The highest price comes first, then what was created first. -/
def dearestFirst (a b : (_ : ℕ) × LimitOrder) : Prop :=
  b.2.sellPrice.less a.2.sellPrice ∨ (¬ a.2.sellPrice.less b.2.sellPrice ∧ a.1 ≤ b.1)

instance : DecidableRel dearestFirst := fun _ _ ↦ inferInstanceAs (Decidable (_ ∨ _))

/-- What is called first comes first, then what was created first. -/
def calledFirst (a b : (_ : ℕ) × CallOrder) : Prop :=
  a.2.callPrice.less b.2.callPrice ∨ (¬ b.2.callPrice.less a.2.callPrice ∧ a.1 ≤ b.1)

instance : DecidableRel calledFirst := fun _ _ ↦ inferInstanceAs (Decidable (_ ∨ _))

/-- The limit orders from `lower_bound(highest)` to `upper_bound(lowest)`, by price. -/
def limitsBetween (highest lowest : Price) : List ((_ : ℕ) × LimitOrder) :=
  (m.limitOrders.entries.filter fun e ↦
    e.2.sellPrice.lessEq highest && lowest.lessEq e.2.sellPrice).insertionSort dearestFirst

/-- The call orders from `lower_bound(lowest)` to `upper_bound(highest)`, by call price. -/
def callsBetween (lowest highest : Price) : List ((_ : ℕ) × CallOrder) :=
  (m.callOrders.entries.filter fun e ↦
    lowest.lessEq e.2.callPrice && e.2.callPrice.lessEq highest).insertionSort calledFirst

/-- The call orders of `mia`, with `backing` as the collateral. -/
def callsOf (mia backing : AssetId) : Option (List ((_ : ℕ) × CallOrder)) := do
  return m.callsBetween (← Price.minimum backing mia) (← Price.maximum backing mia)

/-! ## Global settlement -/

/-- The call orders are filled at `price`, and what they pay is gathered. -/
def settleCalls (price : Price) : Market → Asset → List ℕ → Option (Market × Asset)
  | m, gathered, [] => some (m, gathered)
  | m, gathered, id :: ids => do
    let order ← m.callOrders.lookup id
    let worth ← order.getDebt.mulPrice price
    let pays := if ← worth.lessEq order.getCollateral then worth else order.getCollateral
    let gathered ← gathered.add pays
    let (m, filled) ← m.fillCallOrder id pays order.getDebt
    guard filled
    settleCalls price m gathered ids

/-- `globally_settle_asset`. -/
def globallySettleAsset (mia : AssetId) (settlementPrice : Price) : Option Market := do
  let bitasset ← m.bitassets mia
  guard !bitasset.hasSettlement
  let _ ← m.ledger.assets bitasset.shortBackingAsset
  let originalMiaSupply := m.currentSupply mia
  let calls ← m.callsOf mia bitasset.shortBackingAsset
  let (m, collateralGathered) ←
    settleCalls settlementPrice m ⟨0, bitasset.shortBackingAsset⟩ (calls.map Sigma.fst)
  let price ← Asset.dividedBy ⟨originalMiaSupply, mia⟩ collateralGathered
  let bitasset := { bitasset with
    settlementPrice := price
    settlementFund := collateralGathered.amount }
  let m := { m with bitassets := Function.update m.bitassets mia (some bitasset) }
  return m.modifyDynamicData mia fun d ↦ { d with currentSupply := originalMiaSupply }

/-- What `check_for_blackswan` finds. -/
inductive Swan where
  /-- Nothing is due. -/
  | calm
  /-- The asset has been settled before. -/
  | settled
  /-- The asset has to be settled at this price. -/
  | due (price : Price)

/-- `check_for_blackswan`, up to the settlement. -/
def blackSwan (mia : AssetId) : Option Swan := do
  match m.bitassets mia with
  | none => return .calm
  | some bitasset =>
    if bitasset.hasSettlement then return .settled
    else
      let settlePrice := bitasset.currentFeed.settlementPrice
      if settlePrice.isNull then return .calm
      else
        let highestPossibleBid ← Price.maximum mia bitasset.shortBackingAsset
        let lowestPossibleBid ← Price.minimum mia bitasset.shortBackingAsset
        let limits := m.limitsBetween highestPossibleBid lowestPossibleBid
        match ← m.callsOf mia bitasset.shortBackingAsset with
        | [] => return .calm
        | call :: _ =>
          let highest := match limits with
            | [] => settlePrice
            | limit :: _ =>
              if limit.2.sellPrice.less settlePrice then settlePrice else limit.2.sellPrice
          let leastCollateral ← call.2.collateralization
          if !leastCollateral.inverse.less highest then return .due leastCollateral.inverse
          else return .calm

/-- `check_for_blackswan`: whether the asset is settled. -/
def checkForBlackswan (mia : AssetId) (enableBlackSwan : Bool) : Option (Market × Bool) := do
  match ← m.blackSwan mia with
  | .calm => return (m, false)
  | .settled => return (m, true)
  | .due price =>
    guard enableBlackSwan
    let m ← m.globallySettleAsset mia price
    return (m, true)

variable {m}

/-- The objects of a market, by their ids. -/
theorem mem_callsOf {mia backing : AssetId} {calls : List ((_ : ℕ) × CallOrder)}
    (h : m.callsOf mia backing = some calls) :
    (calls.map Sigma.fst).Nodup ∧
      ∀ call ∈ calls, m.callOrders.lookup call.1 = some call.2 := by
  simp only [callsOf, Option.bind_eq_bind, Option.bind_eq_some_iff] at h
  obtain ⟨lowest, -, highest, -, h⟩ := h
  obtain rfl := Option.some.inj h
  have hperm := List.perm_insertionSort calledFirst (m.callOrders.entries.filter fun e ↦
    lowest.lessEq e.2.callPrice && e.2.callPrice.lessEq highest)
  constructor
  · exact ((hperm.map Sigma.fst).nodup_iff).2
      (m.callOrders.nodupKeys.sublist List.filter_sublist)
  · intro call hcall
    exact List.mem_dlookup m.callOrders.nodupKeys (List.mem_of_mem_filter (hperm.mem_iff.1 hcall))

/-- Nothing happens unless a settlement is due. -/
theorem checkForBlackswan_spec {m' : Market} {mia : AssetId} {enable settled : Bool}
    (h : m.checkForBlackswan mia enable = some (m', settled)) :
    (m.blackSwan mia = some .calm ∧ m' = m ∧ settled = false) ∨
      (m.blackSwan mia = some .settled ∧ m' = m ∧ settled = true) ∨
      ∃ price, m.blackSwan mia = some (.due price) ∧ enable = true ∧
        m.globallySettleAsset mia price = some m' ∧ settled = true := by
  simp only [checkForBlackswan, Option.bind_eq_bind, Option.bind_eq_some_iff] at h
  obtain ⟨swan, hswan, h⟩ := h
  cases swan with
  | calm =>
    obtain ⟨rfl, rfl⟩ := Prod.mk.inj (Option.some.inj h)
    exact .inl ⟨hswan, rfl, rfl⟩
  | settled =>
    obtain ⟨rfl, rfl⟩ := Prod.mk.inj (Option.some.inj h)
    exact .inr (.inl ⟨hswan, rfl, rfl⟩)
  | due price =>
    simp only [Option.bind_eq_some_iff, Option.guard_eq_some', exists_const] at h
    obtain ⟨henable, m₁, hm₁, h⟩ := h
    obtain ⟨rfl, rfl⟩ := Prod.mk.inj (Option.some.inj h)
    exact .inr (.inr ⟨price, hswan, henable, hm₁, rfl⟩)

theorem calm_iff {m' : Market} {mia : AssetId} {enable settled : Bool}
    (h : m.checkForBlackswan mia enable = some (m', settled)) :
    m.blackSwan mia = some .calm ↔ settled = false := by
  rcases checkForBlackswan_spec h with ⟨hswan, -, rfl⟩ | ⟨hswan, -, rfl⟩ | ⟨_, hswan, -, -, rfl⟩ <;>
    simp [hswan]

theorem eq_of_calm {m' : Market} {mia : AssetId} {enable settled : Bool}
    (h : m.checkForBlackswan mia enable = some (m', settled)) (hcalm : settled = false) :
    m' = m := by
  rcases checkForBlackswan_spec h with ⟨-, rfl, -⟩ | ⟨-, rfl, -⟩ | ⟨_, -, -, -, rfl⟩
  · rfl
  · rfl
  · cases hcalm

end Market

/-! ## Margin calls -/

/-- Where the loop of `check_call_orders` is. -/
structure MarginCalls where
  /-- The database. -/
  market : Market
  /-- The limit orders from `limit_itr` on. -/
  limits : List ℕ
  /-- The call orders from `call_itr` on. -/
  calls : List ℕ
  /-- `filled_limit`, which is never reset. -/
  filledLimit : Bool
  /-- `margin_called`. -/
  marginCalled : Bool

/-- What an iteration does with the first call order and the first limit order. -/
inductive MarginCalls.Plan where
  /-- There is no call, or none that can be filled. -/
  | stop
  /-- Even this limit order asks for more than there is, and the asset is settled. -/
  | settle (price : Price)
  /-- The orders fill each other: the call order pays, and receives. -/
  | fill (call limit : ℕ) (pays receives : Asset) (filledCall filledLimit : Bool)

namespace MarginCalls

variable (mia : AssetId) (enableBlackSwan : Bool) (s : MarginCalls)

/-- One iteration of `check_call_orders`, up to what it does. -/
def plan : Option Plan := do
  match s.calls, s.limits with
  | [], _ => return .stop
  | _ :: _, [] => return .stop
  | call :: _, limit :: _ =>
    let bitasset ← s.market.bitassets mia
    let order ← s.market.callOrders.lookup call
    let offer ← s.market.limitOrders.lookup limit
    let feedPrice := bitasset.currentFeed.settlementPrice
    let matchPrice := offer.sellPrice
    guard matchPrice.Valid
    let feedProtected := !feedPrice.lessEq order.callPrice.inverse
    if feedProtected ∨ !matchPrice.lessEq order.callPrice.inverse then return .stop
    else
      let usdForSale := offer.amountForSale
      let usdToBuy := order.getDebt
      let worth ← usdToBuy.mulPrice matchPrice
      if !(← worth.lessEq order.getCollateral) then return .settle feedPrice
      else if ← usdForSale.lessEq usdToBuy then
        let pays ← usdForSale.mulPrice matchPrice
        return .fill call limit pays usdForSale (usdToBuy = usdForSale) true
      -- `filled_limit` may be left from an iteration before.
      else return .fill call limit worth usdToBuy true s.filledLimit

/-- One iteration of `check_call_orders`: a result, or the next iteration. -/
def next : Option ((Market × Bool) ⊕ MarginCalls) := do
  let (m, settled) ← s.market.checkForBlackswan mia enableBlackSwan
  if settled then return .inl (m, s.marginCalled)
  else
    -- Nothing has changed where the asset is not settled.
    match ← s.plan mia with
    | .stop => return .inl (m, s.marginCalled)
    | .settle price =>
      guard enableBlackSwan
      let m ← m.globallySettleAsset mia price
      return .inl (m, true)
    | .fill call limit pays receives filledCall filledLimit =>
      let (m, _) ← m.fillCallOrder call pays receives
      let (m, _) ← m.fillLimitOrder limit receives pays true
      return .inr
        { market := m
          limits := if filledLimit then s.limits.tail else s.limits
          calls := if filledCall then s.calls.tail else s.calls
          filledLimit := filledLimit
          marginCalled := true }

variable {mia enableBlackSwan s}

/-- **What is filled** is the first call order and the first limit order, with as much as the lesser
of the two has. -/
theorem plan_fill_spec {call limit : ℕ} {pays receives : Asset} {filledCall filledLimit : Bool}
    (h : s.plan mia = some (.fill call limit pays receives filledCall filledLimit)) :
    ∃ calls limits c a, s.calls = call :: calls ∧ s.limits = limit :: limits ∧
      s.market.callOrders.lookup call = some c ∧ s.market.limitOrders.lookup limit = some a ∧
      a.amountForSale.assetId = c.getDebt.assetId ∧ 0 ≤ pays.amount ∧
      (receives = a.amountForSale ∧ a.forSale ≤ c.debt ∧
          (filledCall = true ↔ c.debt = a.forSale) ∧ filledLimit = true ∨
        receives = c.getDebt ∧ c.debt < a.forSale ∧ filledCall = true ∧
          filledLimit = s.filledLimit) := by
  rw [plan] at h
  rcases hcalls : s.calls with _ | ⟨call', calls⟩
  · simp [hcalls] at h
  rcases hlimits : s.limits with _ | ⟨limit', limits⟩
  · simp [hcalls, hlimits] at h
  simp only [hcalls, hlimits, Option.bind_eq_bind, Option.bind_eq_some_iff, Option.guard_eq_some',
    exists_const] at h
  obtain ⟨_, -, c, hc, a, ha, -, h⟩ := h
  split_ifs at h
  · cases h
  simp only [Option.bind_eq_some_iff] at h
  obtain ⟨worth, hworth, enough, -, h⟩ := h
  split_ifs at h
  · cases h
  obtain ⟨less, hless, h⟩ := Option.bind_eq_some_iff.1 h
  obtain ⟨hid, hless⟩ := Asset.lessEq_eq_some.1 hless
  refine ⟨calls, limits, c, a, ?_⟩
  cases less with
  | true =>
    rw [if_pos rfl] at h
    obtain ⟨pays', hpays, h⟩ := Option.bind_eq_some_iff.1 h
    obtain ⟨rfl, rfl, rfl, rfl, rfl, rfl⟩ := Plan.fill.inj (Option.some.inj h)
    refine ⟨rfl, rfl, hc, ha, hid, Asset.amount_nonneg_of_mulPrice hpays,
      .inl ⟨rfl, of_decide_eq_true hless, ?_, rfl⟩⟩
    rw [decide_eq_true_iff]
    refine ⟨congrArg Asset.amount, fun heq ↦ ?_⟩
    show (⟨c.debt, c.getDebt.assetId⟩ : Asset) = ⟨a.forSale, a.amountForSale.assetId⟩
    rw [heq, hid]
  | false =>
    rw [if_neg Bool.false_ne_true] at h
    obtain ⟨rfl, rfl, rfl, rfl, rfl, rfl⟩ := Plan.fill.inj (Option.some.inj h)
    exact ⟨rfl, rfl, hc, ha, hid, Asset.amount_nonneg_of_mulPrice hworth,
      .inr ⟨rfl, not_le.1 (of_decide_eq_false hless), rfl, rfl⟩⟩

/-- Two orders fill each other only if at least one of them is used up. -/
theorem plan_fill {call limit : ℕ} {pays receives : Asset} {filledCall filledLimit : Bool}
    (h : s.plan mia = some (.fill call limit pays receives filledCall filledLimit)) :
    s.calls ≠ [] ∧ s.limits ≠ [] ∧ (filledCall = true ∨ filledLimit = true) := by
  obtain ⟨calls, limits, c, a, hcalls, hlimits, -, -, -, -, hfilled⟩ := plan_fill_spec h
  refine ⟨hcalls ▸ List.cons_ne_nil _ _, hlimits ▸ List.cons_ne_nil _ _, ?_⟩
  rcases hfilled with ⟨-, -, -, hlimit⟩ | ⟨-, -, hcall, -⟩
  · exact .inr hlimit
  · exact .inl hcall

/-- What is paid for an order is not negative, and the order has what it is to pay. -/
theorem plan_fill_bounds {call limit : ℕ} {pays receives : Asset} {filledCall filledLimit : Bool}
    (h : s.plan mia = some (.fill call limit pays receives filledCall filledLimit)) :
    0 ≤ pays.amount ∧
      ∀ offer ∈ s.market.limitOrders.lookup limit, receives.amount ≤ offer.forSale := by
  obtain ⟨_, _, c, a, -, -, -, ha, -, hpays, hfilled⟩ := plan_fill_spec h
  refine ⟨hpays, fun offer hoffer ↦ ?_⟩
  obtain rfl := Option.some.inj (hoffer.symm.trans ha)
  rcases hfilled with ⟨rfl, -⟩ | ⟨rfl, hlt, -⟩
  · exact le_rfl
  · exact hlt.le

/-- **All that one iteration can do.** -/
theorem next_spec {r : (Market × Bool) ⊕ MarginCalls} (h : s.next mia enableBlackSwan = some r) :
    ∃ m settled, s.market.checkForBlackswan mia enableBlackSwan = some (m, settled) ∧
      ((r = .inl (m, s.marginCalled) ∧ (settled = false → s.plan mia = some .stop)) ∨
        settled = false ∧ ((∃ p m', s.plan mia = some (.settle p) ∧
          m.globallySettleAsset mia p = some m' ∧ r = .inl (m', true)) ∨
        ∃ call limit pays receives filledCall filledLimit m₁ b m₂ b',
          s.plan mia = some (.fill call limit pays receives filledCall filledLimit) ∧
          m.fillCallOrder call pays receives = some (m₁, b) ∧
          m₁.fillLimitOrder limit receives pays true = some (m₂, b') ∧
          r = .inr
            { market := m₂
              limits := if filledLimit then s.limits.tail else s.limits
              calls := if filledCall then s.calls.tail else s.calls
              filledLimit := filledLimit
              marginCalled := true })) := by
  simp only [next, Option.bind_eq_bind, Option.bind_eq_some_iff] at h
  obtain ⟨⟨m, settled⟩, hswan, h⟩ := h
  refine ⟨m, settled, hswan, ?_⟩
  dsimp only at h
  split_ifs at h with hsettled
  · exact .inl ⟨(Option.some.inj h).symm, fun hnot ↦ absurd (hsettled.symm.trans hnot) (by simp)⟩
  simp only [Option.bind_eq_some_iff] at h
  obtain ⟨plan, hplan, h⟩ := h
  have hfalse : settled = false := Bool.eq_false_iff.2 hsettled
  cases plan with
  | stop => exact .inl ⟨(Option.some.inj h).symm, fun _ ↦ hplan⟩
  | settle p =>
    simp only [Option.bind_eq_some_iff, Option.guard_eq_some', exists_const] at h
    obtain ⟨-, m', hm', h⟩ := h
    exact .inr ⟨hfalse, .inl ⟨p, m', hplan, hm', (Option.some.inj h).symm⟩⟩
  | fill call limit pays receives filledCall filledLimit =>
    simp only [Option.bind_eq_some_iff] at h
    obtain ⟨⟨m₁, b⟩, hm₁, ⟨m₂, b'⟩, hm₂, h⟩ := h
    exact .inr ⟨hfalse, .inr ⟨call, limit, pays, receives, filledCall, filledLimit, m₁, b, m₂, b',
      hplan, hm₁, hm₂, (Option.some.inj h).symm⟩⟩

/-- Every iteration passes over a call order or a limit order. -/
theorem length_next {s' : MarginCalls} (h : s.next mia enableBlackSwan = some (.inr s')) :
    s'.limits.length + s'.calls.length < s.limits.length + s.calls.length := by
  obtain ⟨m, settled, -, ⟨hr, -⟩ | ⟨-, ⟨p, m', -, -, hr⟩ | hfill⟩⟩ := next_spec h
  · cases hr
  · cases hr
  · obtain ⟨_, _, _, _, filledCall, filledLimit, m₁, b, m₂, b', hplan, -, -, hr⟩ := hfill
    obtain rfl := Sum.inr.inj hr
    obtain ⟨hcalls, hlimits, hfilled⟩ := plan_fill hplan
    have hcalls := List.length_pos_iff.2 hcalls
    have hlimits := List.length_pos_iff.2 hlimits
    simp only [apply_ite List.length, List.length_tail]
    rcases hfilled with rfl | rfl
    · rw [if_pos rfl]
      split_ifs <;> omega
    · rw [if_pos rfl]
      split_ifs <;> omega

/-- The loop of `check_call_orders`. -/
def run (mia : AssetId) (enableBlackSwan : Bool) (s : MarginCalls) : Option (Market × Bool) :=
  match _h : s.next mia enableBlackSwan with
  | none => none
  | some (.inl r) => some r
  | some (.inr s') => run mia enableBlackSwan s'
termination_by s.limits.length + s.calls.length
decreasing_by exact length_next _h

end MarginCalls

/-- Where the loop of `check_call_orders` starts, if it is entered. -/
def Market.startMarginCalls (m : Market) (mia : AssetId) (bitasset : BitassetData) :
    Option (Option MarginCalls) := do
  if bitasset.isPredictionMarket ∨ bitasset.currentFeed.settlementPrice.isNull then return none
  else
    let maxPrice ← Price.maximum mia bitasset.shortBackingAsset
    let minPrice ← bitasset.currentFeed.maxShortSqueezePrice
    let limits := m.limitsBetween maxPrice minPrice
    if limits.isEmpty then return none
    else
      let calls ← m.callsOf mia bitasset.shortBackingAsset
      return some
        { market := m
          limits := limits.map Sigma.fst
          calls := calls.map Sigma.fst
          filledLimit := false
          marginCalled := false }

/-- `check_call_orders`: whether a margin call was executed. -/
def Market.checkCallOrders (m : Market) (mia : AssetId) (enableBlackSwan : Bool) :
    Option (Market × Bool) := do
  let _ ← m.ledger.assets mia
  match m.bitassets mia with
  | none => return (m, false)
  | some bitasset =>
    let (m, settled) ← m.checkForBlackswan mia enableBlackSwan
    if settled then return (m, false)
    else
      match ← m.startMarginCalls mia bitasset with
      | none => return (m, false)
      | some s => s.run mia enableBlackSwan

namespace Market

variable {m m' : Market}

theorem market_of_startMarginCalls {mia : AssetId} {bitasset : BitassetData} {s : MarginCalls}
    (h : m.startMarginCalls mia bitasset = some (some s)) : s.market = m := by
  rw [startMarginCalls] at h
  split_ifs at h
  · cases h
  simp only [Option.bind_eq_bind, Option.bind_eq_some_iff] at h
  obtain ⟨maxPrice, -, minPrice, -, h⟩ := h
  split_ifs at h
  · cases h
  obtain ⟨calls, -, h⟩ := Option.bind_eq_some_iff.1 h
  obtain rfl := Option.some.inj (Option.some.inj h)
  rfl

/-- **All that `check_call_orders` can do.** -/
theorem checkCallOrders_spec {mia : AssetId} {enable called : Bool}
    (h : m.checkCallOrders mia enable = some (m', called)) :
    (m.bitassets mia = none ∧ m' = m) ∨ ∃ bitasset m₁ settled, m.bitassets mia = some bitasset ∧
      m.checkForBlackswan mia enable = some (m₁, settled) ∧
      ((m' = m₁ ∧ (settled = false → m₁.startMarginCalls mia bitasset = some none)) ∨
        (settled = false ∧ ∃ s, m₁.startMarginCalls mia bitasset = some (some s) ∧
          s.run mia enable = some (m', called))) := by
  simp only [checkCallOrders, Option.bind_eq_bind, Option.bind_eq_some_iff] at h
  obtain ⟨-, -, h⟩ := h
  cases hbitasset : m.bitassets mia with
  | none =>
    rw [hbitasset] at h
    obtain ⟨rfl, -⟩ := Prod.mk.inj (Option.some.inj h)
    exact .inl ⟨rfl, rfl⟩
  | some bitasset =>
    rw [hbitasset] at h
    obtain ⟨⟨m₁, settled⟩, hswan, hrest⟩ := Option.bind_eq_some_iff.1 h
    refine .inr ⟨bitasset, m₁, settled, rfl, hswan, ?_⟩
    dsimp only at hrest
    split_ifs at hrest with hsettled
    · obtain ⟨rfl, -⟩ := Prod.mk.inj (Option.some.inj hrest)
      exact .inl ⟨rfl, fun hfalse ↦ by cases hsettled.symm.trans hfalse⟩
    · obtain ⟨start, hstart, hrun⟩ := Option.bind_eq_some_iff.1 hrest
      cases start with
      | none =>
        obtain ⟨rfl, -⟩ := Prod.mk.inj (Option.some.inj hrun)
        exact .inl ⟨rfl, fun _ ↦ hstart⟩
      | some s => exact .inr ⟨Bool.eq_false_iff.2 hsettled, s, hstart, hrun⟩

end Market

/-! ## What margin calls keep -/

/-- What filling orders and settling an asset keep. -/
structure Market.Kept (P : Market → Prop) : Prop where
  /-- Filling a call order keeps it. -/
  fillCall : ∀ m m' id pays receives filled,
    Market.fillCallOrder m id pays receives = some (m', filled) → P m → P m'
  /-- Filling a limit order that has what it pays keeps it. -/
  fillLimit : ∀ m m' id (pays receives : Asset) cull filled, 0 ≤ receives.amount →
    (∀ order ∈ m.limitOrders.lookup id, pays.amount ≤ order.forSale) →
      Market.fillLimitOrder m id pays receives cull = some (m', filled) → P m → P m'
  /-- The settlement data and the supply of an asset do not matter. -/
  settle : ∀ m bitassets mia f, P m →
    P ({ m with bitassets := bitassets }.modifyDynamicData mia f)

namespace Market.Kept

variable {P : Market → Prop} (h : Market.Kept P) {m m' : Market} {mia : AssetId}

include h

theorem settleCalls {price : Price} {ids : List ℕ} {gathered gathered' : Asset}
    (hs : Market.settleCalls price m gathered ids = some (m', gathered')) (hm : P m) : P m' := by
  induction ids generalizing m gathered with
  | nil =>
    obtain ⟨rfl, -⟩ := Prod.mk.inj (Option.some.inj hs)
    exact hm
  | cons id ids ih =>
    simp only [Market.settleCalls, Option.bind_eq_bind, Option.bind_eq_some_iff,
      Option.guard_eq_some', exists_const] at hs
    obtain ⟨_, -, _, -, _, -, _, -, ⟨m₁, _⟩, hm₁, -, hs⟩ := hs
    exact ih hs (h.fillCall _ _ _ _ _ _ hm₁ hm)

theorem globallySettleAsset {price : Price} (hs : m.globallySettleAsset mia price = some m')
    (hm : P m) : P m' := by
  simp only [Market.globallySettleAsset, Option.bind_eq_bind, Option.bind_eq_some_iff,
    Option.guard_eq_some', exists_const] at hs
  obtain ⟨_, -, -, _, -, _, -, ⟨m₁, _⟩, hm₁, _, -, hs⟩ := hs
  obtain rfl := Option.some.inj hs
  exact h.settle _ _ _ _ (h.settleCalls hm₁ hm)

theorem checkForBlackswan {enable settled : Bool}
    (hs : m.checkForBlackswan mia enable = some (m', settled)) (hm : P m) : P m' := by
  rcases Market.checkForBlackswan_spec hs with ⟨-, rfl, -⟩ | ⟨-, rfl, -⟩ | ⟨_, -, -, hm', -⟩
  · exact hm
  · exact hm
  · exact h.globallySettleAsset hm' hm

theorem run {enable : Bool} {s : MarginCalls} {r : Market × Bool}
    (hs : s.run mia enable = some r) (hm : P s.market) : P r.1 := by
  induction s using MarginCalls.run.induct mia enable with
  | case1 s hnext =>
    rw [MarginCalls.run, hnext] at hs
    cases hs
  | case2 s r' hnext =>
    rw [MarginCalls.run, hnext] at hs
    obtain rfl := Option.some.inj hs
    obtain ⟨m, settled, hswan, ⟨hr, -⟩ | ⟨-, ⟨p, m', -, hm', hr⟩ | hfill⟩⟩ :=
      MarginCalls.next_spec hnext
    · obtain rfl := Sum.inl.inj hr
      exact h.checkForBlackswan hswan hm
    · obtain rfl := Sum.inl.inj hr
      exact h.globallySettleAsset hm' (h.checkForBlackswan hswan hm)
    · obtain ⟨_, _, _, _, _, _, _, _, _, _, -, -, -, hr⟩ := hfill
      cases hr
  | case3 s s' hnext ih =>
    rw [MarginCalls.run, hnext] at hs
    obtain ⟨m, settled, hswan, ⟨hr, -⟩ | ⟨hcalm, ⟨p, m', -, hm', hr⟩ | hfill⟩⟩ :=
      MarginCalls.next_spec hnext
    · cases hr
    · cases hr
    · obtain ⟨_, _, _, _, _, _, m₁, _, m₂, _, hplan, hm₁, hm₂, hr⟩ := hfill
      obtain rfl := Sum.inr.inj hr
      obtain rfl := Market.eq_of_calm hswan hcalm
      obtain ⟨hpays, hle⟩ := MarginCalls.plan_fill_bounds hplan
      rw [← Market.limits_fillCallOrder hm₁] at hle
      exact ih hs (h.fillLimit _ _ _ _ _ _ _ hpays hle hm₂ (h.fillCall _ _ _ _ _ _ hm₁ hm))

theorem checkCallOrders {enable called : Bool}
    (hs : m.checkCallOrders mia enable = some (m', called)) (hm : P m) : P m' := by
  rcases Market.checkCallOrders_spec hs with ⟨-, rfl⟩ | ⟨_, m₁, _, -, hswan, ⟨rfl, -⟩ | hrun⟩
  · exact hm
  · exact h.checkForBlackswan hswan hm
  · obtain ⟨-, s, hstart, hrun⟩ := hrun
    refine h.run hrun ?_
    rw [Market.market_of_startMarginCalls hstart]
    exact h.checkForBlackswan hswan hm

end Market.Kept

end Graphene
