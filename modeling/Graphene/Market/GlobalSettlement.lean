import Graphene.Lib.ProRata
import Graphene.Market.Evaluator
import Mathlib.Algebra.Order.BigOperators.Group.List

/-!
# Redeeming an asset that has been settled

Once an asset has been settled globally, whoever holds some of it can exchange it for a share of the
collateral that was gathered, at a price that is the supply and the collateral at that time.  What
is paid is rounded down.

The price is the exact ratio of the two, and every redemption is rounded down, so that the fund
covers what is left of the supply and keeps covering it.  As the price is not written anew, this has
to be an inequality between products of the amounts then and now.

* `AssetSettle.doEvaluate`, `AssetSettle.doApply` — the evaluator of `asset_settle_operation`.
* `AssetSettle.evaluate` — the whole evaluator, with the fee; `settle` — the state after it.
* `Settled` — the fund covers the supply.
* `settlement_fund_suffices` — however an asset that was settled is redeemed, its fund suffices.
-/

set_option autoImplicit false

namespace Graphene

open Transitions

/-! ## The operation -/

/-- `asset_settle_operation`. -/
structure AssetSettle where
  /-- `fee`. -/
  fee : Asset
  /-- `account`, the fee payer. -/
  account : AccountId
  /-- `amount`. -/
  amount : Asset
  /-- `validate`. -/
  amount_nonneg : 0 ≤ amount.amount

/-- What comes of a settlement. -/
inductive SettleResult where
  /-- Collateral is paid at once. -/
  | paid (settled : Asset)
  /-- A `force_settlement_object` is created. -/
  | queued (id : ℕ)

namespace AssetSettle

variable (op : AssetSettle)

/-- `do_evaluate`. -/
def doEvaluate (m : Market) : Except EvaluationError Unit := do
  check (m.ledger.headBlockTime < hardfork1Time) .hardfork
  let _ ← orThrow (m.ledger.assets op.amount.assetId) .missingObject
  let bitasset ← orThrow (m.bitassets op.amount.assetId) .notMarketIssued
  check ((m.marketOptions op.amount.assetId).canForceSettle || bitasset.hasSettlement) .notSettled
  if bitasset.isPredictionMarket then check bitasset.hasSettlement .notSettled
  else check (!bitasset.currentFeed.settlementPrice.isNull) .insufficientFeeds
  let _ ← orThrow (m.ledger.accounts op.account) .missingObject
  check (op.amount.amount ≤ m.ledger.getBalance op.account op.amount.assetId) .insufficientBalance

/-- `do_apply`. -/
def doApply (m : Market) : Except EvaluationError (Market × SettleResult) := do
  let m ← orThrow (m.adjustBalance op.account ⟨-op.amount.amount, op.amount.assetId⟩)
    .insufficientBalance
  let bitasset ← orThrow (m.bitassets op.amount.assetId) .notMarketIssued
  if bitasset.hasSettlement then
    let settledAmount ← orThrow (op.amount.mulPrice bitasset.settlementPrice) .price
    check (settledAmount.amount ≤ bitasset.settlementFund) .settlementFund
    let bitasset := { bitasset with
      settlementFund := bitasset.settlementFund - settledAmount.amount }
    let m := { m with bitassets := Function.update m.bitassets op.amount.assetId (some bitasset) }
    let m ← orThrow (m.adjustBalance op.account settledAmount) .insufficientBalance
    let m := m.modifyDynamicData op.amount.assetId fun d ↦
      { d with currentSupply := d.currentSupply - op.amount.amount }
    return (m, .paid settledAmount)
  else
    let settlement : ForceSettlement :=
      { owner := op.account
        balance := op.amount
        settlementDate := m.ledger.headBlockTime + bitasset.forceSettlementDelaySec }
    return ({ m with
      forceSettlements := m.forceSettlements.insert m.nextSettlementId settlement
      nextSettlementId := m.nextSettlementId + 1 }, .queued m.nextSettlementId)

/-- The evaluator, where the fee has to be `requiredFee`. -/
def evaluate (flags : EvaluationFlags) (requiredFee : Option ℤ) (m : Market) :
    Except EvaluationError (Market × SettleResult) :=
  m.startEvaluate flags requiredFee op.account op.fee op.doEvaluate op.doApply

end AssetSettle

namespace Market

variable {m m' : Market} {mia : AssetId}

/-- `settlement_fund` of an asset. -/
def settlementFund (m : Market) (mia : AssetId) : ℤ :=
  (m.bitassets mia).elim 0 BitassetData.settlementFund

/-! ## What balances do not change -/

/-- Nothing has happened to the settlements and the supplies of assets. -/
structure SameSettlements (m m' : Market) : Prop where
  /-- The bitasset data are the same. -/
  bitassets : m'.bitassets = m.bitassets
  /-- The supplies are the same. -/
  supply : ∀ id, m'.currentSupply id = m.currentSupply id

theorem SameSettlements.trans {m₁ : Market} (h : SameSettlements m m₁)
    (h' : SameSettlements m₁ m') : SameSettlements m m' :=
  ⟨h'.bitassets.trans h.bitassets, fun id ↦ (h'.supply id).trans (h.supply id)⟩

theorem sameSettlements_adjustBalance {account : AccountId} {delta : Asset}
    (h : m.adjustBalance account delta = some m') : SameSettlements m m' := by
  obtain ⟨l, hl, rfl⟩ := Option.map_eq_some_iff.1 h
  refine ⟨rfl, fun id ↦ ?_⟩
  rcases m.ledger.eq_or_setBalance_of_adjustBalance hl with rfl | ⟨_, rfl⟩ <;> rfl

theorem sameSettlements_charged (flags : EvaluationFlags) (feePayer : AccountId) (fee : Asset)
    (coreFeePaid : ℤ) :
    SameSettlements m { m with ledger := m.ledger.charged flags feePayer fee coreFeePaid } :=
  ⟨rfl, fun id ↦ m.ledger.charged_currentSupply coreFeePaid id⟩

theorem currentSupply_modifyDynamicData (id : AssetId) (f : AssetDynamicData → AssetDynamicData)
    (j : AssetId) :
    (m.modifyDynamicData id f).currentSupply j =
      if j = id then (f (m.ledger.dynamicData id)).currentSupply else m.currentSupply j := by
  show (Function.update m.ledger.dynamicData id (f (m.ledger.dynamicData id)) j).currentSupply = _
  rcases eq_or_ne j id with rfl | hj
  · rw [Function.update_self, if_pos rfl]
  · rw [Function.update_of_ne hj, if_neg hj]
    rfl

end Market

namespace AssetSettle

variable {op : AssetSettle} {m m' : Market} {r : SettleResult}

/-- **All that a settlement does** to assets: it is paid from the fund and leaves the supply, if the
asset has been settled. -/
def Settles (op : AssetSettle) (m m' : Market) (r : SettleResult) : Prop :=
  ∃ bitasset, m.bitassets op.amount.assetId = some bitasset ∧
    ((bitasset.hasSettlement = true ∧ ∃ settled,
        op.amount.mulPrice bitasset.settlementPrice = some settled ∧
        settled.amount ≤ bitasset.settlementFund ∧ r = .paid settled ∧
        m'.bitassets = Function.update m.bitassets op.amount.assetId (some { bitasset with
          settlementFund := bitasset.settlementFund - settled.amount }) ∧
        ∀ id, m'.currentSupply id =
          m.currentSupply id - if id = op.amount.assetId then op.amount.amount else 0) ∨
      (bitasset.hasSettlement = false ∧ (∃ id, r = .queued id) ∧ m.SameSettlements m'))

theorem doApply_spec (h : op.doApply m = .ok (m', r)) : op.Settles m m' r := by
  simp only [doApply, bind_eq_ok, orThrow_eq_ok] at h
  obtain ⟨m₁, hm₁, bitasset, hbitasset, h⟩ := h
  have hsame := Market.sameSettlements_adjustBalance hm₁
  rw [hsame.bitassets] at hbitasset
  refine ⟨bitasset, hbitasset, ?_⟩
  split_ifs at h with hsettled
  · simp only [bind_eq_ok, orThrow_eq_ok] at h
    obtain ⟨settled, hmul, _, hfund, m₂, hm₂, h⟩ := h
    obtain ⟨rfl, rfl⟩ := Prod.mk.inj (Except.ok.inj h)
    have hsame₂ := Market.sameSettlements_adjustBalance hm₂
    refine .inl ⟨hsettled, settled, hmul, of_decide_eq_true (check_eq_ok.1 hfund), rfl, ?_,
      fun id ↦ ?_⟩
    · refine hsame₂.bitassets.trans ?_
      rw [← hsame.bitassets]
    · rw [Market.currentSupply_modifyDynamicData]
      have hsupply := (hsame₂.supply id).trans (hsame.supply id)
      split_ifs with hid
      · subst hid
        exact congrArg (· - op.amount.amount) hsupply
      · rw [sub_zero, hsupply]
  · obtain ⟨rfl, rfl⟩ := Prod.mk.inj (Except.ok.inj h)
    exact .inr ⟨Bool.eq_false_iff.2 hsettled, ⟨_, rfl⟩, hsame.trans ⟨rfl, fun _ ↦ rfl⟩⟩

/-- A payment that the fund does not suffice for. -/
theorem doApply_settlementFund (h : op.doApply m = .error .settlementFund) :
    ∃ bitasset settled, m.bitassets op.amount.assetId = some bitasset ∧
      op.amount.mulPrice bitasset.settlementPrice = some settled ∧
      bitasset.settlementFund < settled.amount := by
  rcases bind_eq_error.1 h with h | ⟨m₁, hm₁, h⟩
  · cases (orThrow_eq_error.1 h).2
  rcases bind_eq_error.1 h with h | ⟨bitasset, hbitasset, h⟩
  · cases (orThrow_eq_error.1 h).2
  have hsame := Market.sameSettlements_adjustBalance (orThrow_eq_ok.1 hm₁)
  split_ifs at h with hsettled
  · rcases bind_eq_error.1 h with h | ⟨settled, hmul, h⟩
    · cases (orThrow_eq_error.1 h).2
    rcases bind_eq_error.1 h with h | ⟨_, -, h⟩
    · refine ⟨bitasset, settled, ?_, orThrow_eq_ok.1 hmul, ?_⟩
      · rw [← hsame.bitassets]
        exact orThrow_eq_ok.1 hbitasset
      · exact not_le.1 (of_decide_eq_false (check_eq_error.1 h).1)
    rcases bind_eq_error.1 h with h | ⟨m₂, -, h⟩
    · cases (orThrow_eq_error.1 h).2
    · cases h
  · cases h

/-- What is refused before anything is applied is not refused for the fund. -/
theorem doEvaluate_ne_settlementFund : op.doEvaluate m ≠ .error .settlementFund := by
  simp only [doEvaluate, bind_eq_error, check_eq_error, orThrow_eq_error, reduceCtorEq, and_false,
    false_or, ne_eq, not_exists, not_and]
  intro _ _ _ _ bitasset _ _ _
  split_ifs <;> simp [bind_eq_error, check_eq_error]

/-- The fee changes nothing of that. -/
theorem evaluate_spec {flags : EvaluationFlags} {requiredFee : Option ℤ}
    (h : op.evaluate flags requiredFee m = .ok (m', r)) : op.Settles m m' r := by
  obtain ⟨coreFeePaid, m₁, -, -, -, happly, hadjust⟩ := Market.startEvaluate_ok.1 h
  have hcharged := m.sameSettlements_charged flags op.account op.fee coreFeePaid
  have hadjust := Market.sameSettlements_adjustBalance hadjust
  obtain ⟨bitasset, hbitasset, ⟨hsettled, settled, hmul, hle, rfl, hbitassets, hsupply⟩ |
    ⟨hsettled, hr, hsame⟩⟩ := doApply_spec happly
  · refine ⟨bitasset, hbitasset, .inl ⟨hsettled, settled, hmul, hle, rfl,
      hadjust.bitassets.trans hbitassets, fun id ↦ ?_⟩⟩
    rw [hadjust.supply, hsupply, hcharged.supply]
  · exact ⟨bitasset, hbitasset, .inr ⟨hsettled, hr, (hcharged.trans hsame).trans hadjust⟩⟩

end AssetSettle

/-! ## The fund -/

/-- What a call order pays when its debt is paid at `price`. -/
def CallOrder.paysAt (order : CallOrder) (price : Price) : ℤ :=
  (order.getDebt.mulPrice price).elim 0 fun worth ↦ min worth.amount order.collateral

theorem CallOrder.paysAt_eq (order : CallOrder) {price : Price} {worth : Asset} {less : Bool}
    (hworth : order.getDebt.mulPrice price = some worth)
    (hless : worth.lessEq order.getCollateral = some less) :
    (if less then worth else order.getCollateral).amount = order.paysAt price := by
  obtain ⟨-, rfl⟩ := Asset.lessEq_eq_some.1 hless
  rw [paysAt, hworth, Option.elim_some]
  split_ifs with h
  · exact (min_eq_left (of_decide_eq_true h)).symm
  · exact (min_eq_right (not_le.1 fun hle ↦ h (decide_eq_true hle)).le).symm

theorem CallOrder.paysAt_nonneg (order : CallOrder) (price : Price) : 0 ≤ order.paysAt price := by
  rw [paysAt]
  cases h : order.getDebt.mulPrice price with
  | none => exact le_rfl
  | some worth => exact le_min (Asset.amount_nonneg_of_mulPrice h) order.collateral_nonneg

namespace Market

variable {m m' : Market} {mia : AssetId} {price : Price}

/-- The collateral that the call orders of `mia` pay when all of them are filled at `price`. -/
def collateralGathered (m : Market) (mia : AssetId) (price : Price) : ℤ :=
  (m.bitassets mia).elim 0 fun bitasset ↦
    (((m.callsOf mia bitasset.shortBackingAsset).getD []).map fun call ↦ call.2.paysAt price).sum

theorem collateralGathered_nonneg : 0 ≤ m.collateralGathered mia price := by
  rw [collateralGathered]
  cases m.bitassets mia with
  | none => exact le_rfl
  | some bitasset =>
    refine List.sum_nonneg fun x hx ↦ ?_
    obtain ⟨call, -, rfl⟩ := List.mem_map.1 hx
    exact call.2.paysAt_nonneg price

/-- What is gathered is what the orders pay. -/
theorem amount_of_settleCalls {calls : List ((_ : ℕ) × CallOrder)} {gathered gathered' : Asset}
    (hnodup : (calls.map Sigma.fst).Nodup)
    (hlookup : ∀ call ∈ calls, m.callOrders.lookup call.1 = some call.2)
    (h : settleCalls price m gathered (calls.map Sigma.fst) = some (m', gathered')) :
    gathered'.amount =
      gathered.amount + (calls.map fun call ↦ call.2.paysAt price).sum := by
  induction calls generalizing m gathered with
  | nil =>
    obtain ⟨-, rfl⟩ := Prod.mk.inj (Option.some.inj h)
    exact (add_zero _).symm
  | cons call calls ih =>
    obtain ⟨hid, hnodup⟩ := List.nodup_cons.1 hnodup
    simp only [List.map_cons, settleCalls, Option.bind_eq_bind, Option.bind_eq_some_iff,
      Option.guard_eq_some', exists_const] at h
    obtain ⟨order, horder, worth, hworth, less, hless, gathered₁, hgathered, ⟨m₁, filled⟩, hm₁, -,
      h⟩ := h
    obtain rfl := Option.some.inj (horder.symm.trans (hlookup call List.mem_cons_self))
    obtain ⟨-, rfl⟩ := Asset.add_eq_some.1 hgathered
    have hrest := ih hnodup (fun c hc ↦ ?_) h
    · rw [hrest, List.map_cons, List.sum_cons, ← call.2.paysAt_eq hworth hless, ← add_assoc]
    · have hne : c.1 ≠ call.1 := fun heq ↦ hid (heq ▸ List.mem_map_of_mem hc)
      rw [lookup_fillCallOrder hm₁ hne]
      exact hlookup c (List.mem_cons_of_mem _ hc)

/-- **Global settlement**: the price is the supply and the collateral gathered, which is the
fund. -/
theorem globallySettleAsset_spec (h : m.globallySettleAsset mia price = some m') :
    ∃ bitasset backing, m'.bitassets mia = some bitasset ∧ bitasset.hasSettlement = true ∧
      bitasset.settlementPrice =
        ⟨⟨m.currentSupply mia, mia⟩, ⟨m.collateralGathered mia price, backing⟩⟩ ∧
      bitasset.settlementFund = m.collateralGathered mia price ∧
      m'.currentSupply mia = m.currentSupply mia := by
  simp only [globallySettleAsset, Option.bind_eq_bind, Option.bind_eq_some_iff,
    Option.guard_eq_some', exists_const] at h
  obtain ⟨bitasset, hbitasset, -, -, -, calls, hcalls, ⟨m₁, gathered⟩, hm₁, p, hp, h⟩ := h
  obtain rfl := Option.some.inj h
  obtain ⟨hnodup, hlookup⟩ := mem_callsOf hcalls
  obtain ⟨hne, rfl⟩ := Asset.dividedBy_eq_some.1 hp
  have hgathered : gathered.amount = m.collateralGathered mia price := by
    rw [amount_of_settleCalls hnodup hlookup hm₁, collateralGathered, hbitasset, Option.elim_some,
      hcalls, Option.getD_some, zero_add]
  refine ⟨_, gathered.assetId, Function.update_self .., ?_, ?_, hgathered, ?_⟩
  · exact congrArg not (Price.isNull_of_ne hne)
  · dsimp only
    rw [← hgathered]
  · rw [currentSupply_modifyDynamicData, if_pos rfl]

end Market

/-! ## Redeeming -/

/-- The state after a settlement, whatever comes of it. -/
def settle (flags : EvaluationFlags) (requiredFee : Option ℤ) (m : Market) (op : AssetSettle) :
    Except EvaluationError Market :=
  (op.evaluate flags requiredFee m).map Prod.fst

namespace AssetSettle

variable (flags : EvaluationFlags) (requiredFee : Option ℤ) (mia : AssetId)

/-- What is paid for some of `mia`. -/
def paidOut (m : Market) (op : AssetSettle) : ℤ :=
  match op.evaluate flags requiredFee m with
  | .ok (_, .paid settled) => if op.amount.assetId = mia then settled.amount else 0
  | _ => 0

/-- What is redeemed of `mia`. -/
def redeemed (m : Market) (op : AssetSettle) : ℤ :=
  match op.evaluate flags requiredFee m with
  | .ok _ => if op.amount.assetId = mia then op.amount.amount else 0
  | .error _ => 0

/-- What is asked for, whether it is redeemed or not. -/
def requested (ops : List AssetSettle) : ℤ :=
  (ops.map fun op ↦ if op.amount.assetId = mia then op.amount.amount else 0).sum

variable {flags requiredFee mia}

theorem requested_cons (op : AssetSettle) (ops : List AssetSettle) :
    requested mia (op :: ops) =
      (if op.amount.assetId = mia then op.amount.amount else 0) + requested mia ops := by
  rw [requested, List.map_cons, List.sum_cons, requested]

variable (flags requiredFee mia)

theorem requested_nonneg (ops : List AssetSettle) : 0 ≤ requested mia ops := by
  refine List.sum_nonneg fun x hx ↦ ?_
  obtain ⟨op, -, rfl⟩ := List.mem_map.1 hx
  split_ifs
  · exact op.amount_nonneg
  · exact le_rfl

/-- No more is redeemed than is asked for. -/
theorem redeemed_le (m : Market) (op : AssetSettle) :
    op.redeemed flags requiredFee mia m ≤
      if op.amount.assetId = mia then op.amount.amount else 0 := by
  have hnonneg := op.amount_nonneg
  rw [redeemed]
  split <;> split_ifs <;> omega

theorem redeemed_nonneg (m : Market) (op : AssetSettle) :
    0 ≤ op.redeemed flags requiredFee mia m := by
  have hnonneg := op.amount_nonneg
  rw [redeemed]
  split
  · split_ifs <;> simp [hnonneg]
  · exact le_rfl

end AssetSettle

/-- An asset that was settled when its supply was `supply`, for a fund of `fund`, and of which some
has been redeemed since. -/
structure Settled (fund supply : ℤ) (mia : AssetId) (m : Market) : Prop where
  /-- The price is what was gathered for the supply. -/
  price : ∃ bitasset backing, m.bitassets mia = some bitasset ∧ bitasset.hasSettlement = true ∧
    bitasset.settlementPrice = ⟨⟨supply, mia⟩, ⟨fund, backing⟩⟩
  /-- What is left of the fund covers what is left of the supply. -/
  covers : m.currentSupply mia * fund ≤ m.settlementFund mia * supply
  /-- The fund is not overdrawn. -/
  fund_nonneg : 0 ≤ m.settlementFund mia

namespace Settled

variable {fund supply : ℤ} {mia : AssetId} {m m' : Market} {op : AssetSettle} {r : SettleResult}
  {flags : EvaluationFlags} {requiredFee : Option ℤ}

/-- What happens to other assets does not matter. -/
theorem unchanged (h : Settled fund supply mia m) (hbitasset : m'.bitassets mia = m.bitassets mia)
    (hsupply : m'.currentSupply mia = m.currentSupply mia) :
    Settled fund supply mia m' ∧ m'.settlementFund mia = m.settlementFund mia ∧
      m'.currentSupply mia = m.currentSupply mia ∧ 0 ≤ m.settlementFund mia := by
  have hfund : m'.settlementFund mia = m.settlementFund mia := by
    rw [Market.settlementFund, hbitasset, Market.settlementFund]
  refine ⟨⟨?_, ?_, ?_⟩, hfund, hsupply, h.fund_nonneg⟩
  · rw [hbitasset]
    exact h.price
  · rw [hsupply, hfund]
    exact h.covers
  · rw [hfund]
    exact h.fund_nonneg

/-- What is paid for an amount. -/
theorem payout_eq (h : Settled fund supply mia m) (hfund : 0 ≤ fund) {bitasset : BitassetData}
    (hbitasset : m.bitassets mia = some bitasset) {amount settled : Asset}
    (hmia : amount.assetId = mia)
    (hsettled : amount.mulPrice bitasset.settlementPrice = some settled) :
    ∃ p : ProRata, p.fund = fund ∧ p.shares = supply ∧
      settled.amount = p.payout amount.amount := by
  obtain ⟨b, backing, hb, -, hprice⟩ := h.price
  obtain rfl := Option.some.inj (hb.symm.trans hbitasset)
  rw [hprice, Asset.mulPrice, if_pos hmia] at hsettled
  obtain ⟨hpos, -, -, rfl⟩ := Asset.convert_eq_some.1 hsettled
  exact ⟨⟨fund, supply, hfund, hpos⟩, rfl, rfl, rfl⟩

/-- **An operation that is applied** takes what it pays from the fund, and its amount from the
supply. -/
theorem step_ok (h : Settled fund supply mia m) (hfund : 0 ≤ fund)
    (hok : op.evaluate flags requiredFee m = .ok (m', r)) :
    Settled fund supply mia m' ∧
      m'.settlementFund mia = m.settlementFund mia - op.paidOut flags requiredFee mia m ∧
      m'.currentSupply mia = m.currentSupply mia - op.redeemed flags requiredFee mia m ∧
      op.paidOut flags requiredFee mia m ≤ m.settlementFund mia := by
  obtain ⟨bitasset, hbitasset, hcases⟩ := AssetSettle.evaluate_spec hok
  rw [AssetSettle.paidOut, AssetSettle.redeemed, hok]
  dsimp only
  by_cases hmia : op.amount.assetId = mia
  · subst hmia
    rw [if_pos rfl]
    obtain ⟨b, backing, hb, hb', hprice⟩ := h.price
    obtain rfl := Option.some.inj (hb.symm.trans hbitasset)
    rcases hcases with ⟨-, settled, hmul, hle, rfl, hbitassets, hsupply⟩ | ⟨hnot, -⟩
    · dsimp only
      rw [if_pos rfl]
      obtain ⟨p, rfl, rfl, hpaid⟩ := h.payout_eq hfund hbitasset rfl hmul
      have hleft : m.settlementFund op.amount.assetId = b.settlementFund := by
        rw [Market.settlementFund, hbitasset]
        rfl
      have hleft' : m'.settlementFund op.amount.assetId = b.settlementFund - settled.amount := by
        rw [Market.settlementFund, hbitassets, Function.update_self]
        rfl
      have hsupply' := (hsupply op.amount.assetId).trans (by rw [if_pos rfl])
      refine ⟨⟨?_, ?_, ?_⟩, by rw [hleft', hleft], hsupply', by rwa [hleft]⟩
      · refine ⟨{ b with settlementFund := b.settlementFund - settled.amount }, backing, ?_, hb',
          hprice⟩
        rw [hbitassets, Function.update_self]
      · rw [hsupply', hleft', hpaid, ← hleft]
        have hcovers : p.Covers (m.settlementFund op.amount.assetId) _ := h.covers
        exact hcovers.redeem op.amount.amount
      · rw [hleft']
        exact Int.sub_nonneg_of_le hle
    · cases hb'.symm.trans hnot
  · rw [if_neg hmia]
    have hne : mia ≠ op.amount.assetId := fun heq ↦ hmia heq.symm
    rcases hcases with ⟨-, settled, -, -, rfl, hbitassets, hsupply⟩ | ⟨-, ⟨_, rfl⟩, hsame⟩
    · have hbitasset' : m'.bitassets mia = m.bitassets mia := by
        rw [hbitassets, Function.update_of_ne hne]
      have hsupply' : m'.currentSupply mia = m.currentSupply mia := by
        rw [hsupply, if_neg hne, sub_zero]
      dsimp only
      rw [if_neg hmia, sub_zero, sub_zero]
      exact h.unchanged hbitasset' hsupply'
    · rw [sub_zero, sub_zero]
      exact h.unchanged (congrFun hsame.bitassets mia) (hsame.supply mia)

/-- **Every operation**, applied or not, does so. -/
theorem step (h : Settled fund supply mia m) (hfund : 0 ≤ fund) (op : AssetSettle) :
    Settled fund supply mia (attempt (settle flags requiredFee) m op) ∧
      (attempt (settle flags requiredFee) m op).settlementFund mia =
        m.settlementFund mia - op.paidOut flags requiredFee mia m ∧
      (attempt (settle flags requiredFee) m op).currentSupply mia =
        m.currentSupply mia - op.redeemed flags requiredFee mia m ∧
      op.paidOut flags requiredFee mia m ≤ m.settlementFund mia := by
  cases hop : op.evaluate flags requiredFee m with
  | ok r =>
    have hstep : attempt (settle flags requiredFee) m op = r.1 := by
      rw [attempt, settle, hop]
      rfl
    rw [hstep]
    exact h.step_ok hfund hop
  | error e =>
    have hstep : attempt (settle flags requiredFee) m op = m := by
      rw [attempt, settle, hop]
      rfl
    rw [hstep, AssetSettle.paidOut, AssetSettle.redeemed, hop]
    simp [h, h.fund_nonneg]

/-- **The fund suffices** for what is asked for of the supply. -/
theorem ne_settlementFund (h : Settled fund supply mia m) (hfund : 0 ≤ fund)
    (hmia : op.amount.assetId = mia) (hamount : op.amount.amount ≤ m.currentSupply mia) :
    op.evaluate flags requiredFee m ≠ .error .settlementFund := by
  intro herror
  rcases Market.startEvaluate_error (by decide) herror with herror | ⟨coreFeePaid, herror⟩
  · exact AssetSettle.doEvaluate_ne_settlementFund herror
  have hcharged := m.sameSettlements_charged flags op.account op.fee coreFeePaid
  have h := (h.unchanged (congrFun hcharged.bitassets mia) (hcharged.supply mia)).1
  obtain ⟨bitasset, settled, hbitasset, hmul, hlt⟩ := AssetSettle.doApply_settlementFund herror
  subst hmia
  obtain ⟨p, rfl, rfl, hpaid⟩ := h.payout_eq hfund hbitasset rfl hmul
  have hcovers : p.Covers (Market.settlementFund _ op.amount.assetId) _ := h.covers
  rw [hcharged.supply] at hcovers
  have hle := hcovers.payout_le hamount
  rw [← hpaid, Market.settlementFund, hbitasset] at hle
  exact absurd hle (not_le.2 hlt)

/-- **Whoever has some of the asset** is paid for it, up to the supply, as long as the fund is an
amount that there can be. -/
theorem redeemable (h : Settled fund supply mia m) (hfund : 0 ≤ fund) (hsupply : 0 < supply)
    (hmax : m.settlementFund mia ≤ maxShareSupply) (hmia : op.amount.assetId = mia)
    (hpos : 0 < op.amount.amount) (hamount : op.amount.amount ≤ m.currentSupply mia)
    (hbalance : op.amount.amount ≤ m.ledger.getBalance op.account mia) :
    ∃ m' settled, op.doApply m = .ok (m', .paid settled) := by
  subst hmia
  obtain ⟨bitasset, backing, hbitasset, hsettled, hprice⟩ := h.price
  let p : ProRata := ⟨fund, supply, hfund, hsupply⟩
  have hcovers : p.Covers (m.settlementFund op.amount.assetId) _ := h.covers
  have hle := hcovers.payout_le hamount
  have hmul : op.amount.mulPrice bitasset.settlementPrice =
      some ⟨p.payout op.amount.amount, backing⟩ := by
    rw [hprice, Asset.mulPrice, if_pos rfl]
    exact Asset.convert_eq_some.2
      ⟨hsupply, mul_nonneg op.amount_nonneg hfund, hle.trans hmax, rfl⟩
  rw [Market.settlementFund, hbitasset] at hle
  have htake : m.adjustBalance op.account ⟨-op.amount.amount, op.amount.assetId⟩ = some _ :=
    congrArg (Option.map _) (m.ledger.adjustBalance_sufficient hbalance hpos)
  have hpay (m₁ : Market) : ∃ m₂,
      m₁.adjustBalance op.account ⟨p.payout op.amount.amount, backing⟩ = some m₂ := by
    rcases (ProRata.payout_nonneg op.amount_nonneg : 0 ≤ p.payout _).eq_or_lt with hzero | hpaid
    · exact ⟨_, congrArg (Option.map _) (if_pos hzero.symm)⟩
    · exact ⟨_, congrArg (Option.map _) (m₁.ledger.adjustBalance_credit hpaid)⟩
  choose pay hpay using hpay
  exact ⟨_, _, bind_eq_ok.2 ⟨_, orThrow_eq_ok.2 htake,
    bind_eq_ok.2 ⟨bitasset, orThrow_eq_ok.2 hbitasset, (if_pos hsettled).trans <|
      bind_eq_ok.2 ⟨_, orThrow_eq_ok.2 hmul, bind_eq_ok.2 ⟨(),
        check_eq_ok.2 (decide_eq_true hle), bind_eq_ok.2 ⟨_, orThrow_eq_ok.2 (hpay _), rfl⟩⟩⟩⟩⟩⟩

/-- **What is asked for** of the supply is never refused for the fund, and never overdraws it; and
whoever has it is paid. -/
theorem along (h : Settled fund supply mia m) (hfund : 0 ≤ fund)
    (hsupply : m.currentSupply mia ≤ supply) {ops : List AssetSettle}
    (hops : AssetSettle.requested mia ops ≤ m.currentSupply mia) :
    Along (settle flags requiredFee) (fun s op ↦ op.amount.assetId = mia →
      op.evaluate flags requiredFee s ≠ .error .settlementFund ∧
        op.paidOut flags requiredFee mia s ≤ s.settlementFund mia ∧
        (s.settlementFund mia ≤ maxShareSupply → 0 < op.amount.amount →
          op.amount.amount ≤ s.ledger.getBalance op.account mia →
          ∃ s' settled, op.doApply s = .ok (s', .paid settled))) m ops := by
  induction ops generalizing m with
  | nil => trivial
  | cons op ops ih =>
    obtain ⟨hstep, -, hsupply', hpaid⟩ := h.step hfund op
    rw [AssetSettle.requested_cons] at hops
    have hrest := AssetSettle.requested_nonneg mia ops
    have hredeemed := op.redeemed_le flags requiredFee mia m
    have hnonneg := op.redeemed_nonneg flags requiredFee mia m
    refine ⟨fun hmia ↦ ?_, ih hstep (by omega) ?_⟩
    · rw [if_pos hmia] at hops
      refine ⟨h.ne_settlementFund hfund hmia (by omega), hpaid, fun hmax hpos hbalance ↦ ?_⟩
      exact h.redeemable hfund (by omega) hmax hmia hpos (by omega) hbalance
    · rw [hsupply']
      omega

end Settled

/-- **A settled asset can be redeemed.** However an asset is redeemed once it has been settled
globally, by operations that ask for no more than its supply: none of them is refused because the
fund does not suffice, none is paid more than what is left of the fund, whoever has what is to be
redeemed is paid for it, all of them together are paid no more than the collateral that was
gathered, and once all has been redeemed the supply is zero. -/
theorem settlement_fund_suffices {m m' : Market} {mia : AssetId} {price : Price}
    (h : m.globallySettleAsset mia price = some m') (flags : EvaluationFlags)
    (requiredFee : Option ℤ) (ops : List AssetSettle)
    (hops : AssetSettle.requested mia ops ≤ m.currentSupply mia) :
    Along (settle flags requiredFee) (fun s op ↦ op.amount.assetId = mia →
        op.evaluate flags requiredFee s ≠ .error .settlementFund ∧
          op.paidOut flags requiredFee mia s ≤ s.settlementFund mia ∧
          (s.settlementFund mia ≤ maxShareSupply → 0 < op.amount.amount →
            op.amount.amount ≤ s.ledger.getBalance op.account mia →
            ∃ s' settled, op.doApply s = .ok (s', .paid settled))) m' ops ∧
      total (settle flags requiredFee) (fun s op ↦ op.paidOut flags requiredFee mia s) m' ops ≤
        m.collateralGathered mia price ∧
      (total (settle flags requiredFee) (fun s op ↦ op.redeemed flags requiredFee mia s) m' ops =
          m.currentSupply mia →
        (run (settle flags requiredFee) m' ops).currentSupply mia = 0) := by
  obtain ⟨bitasset, backing, hbitasset, hsettled, hprice, hfund, hsupply⟩ :=
    Market.globallySettleAsset_spec h
  have hnonneg : 0 ≤ m.collateralGathered mia price := Market.collateralGathered_nonneg
  have hfund' : m'.settlementFund mia = m.collateralGathered mia price := by
    rw [Market.settlementFund, hbitasset]
    exact hfund
  have hstart : Settled (m.collateralGathered mia price) (m.currentSupply mia) mia m' :=
    ⟨⟨bitasset, backing, hbitasset, hsettled, hprice⟩, by rw [hsupply, hfund', mul_comm],
      hfund'.symm ▸ hnonneg⟩
  refine ⟨hstart.along hnonneg hsupply.le (hsupply.symm ▸ hops), ?_, fun hall ↦ ?_⟩
  · rw [total_eq_sub (q := fun s ↦ s.settlementFund mia) hstart fun s op _ hs ↦
      ⟨(hs.step hnonneg op).1, (hs.step hnonneg op).2.1⟩]
    have hend : Settled _ _ mia (run (settle flags requiredFee) m' ops) :=
      run_inv hstart (fun _ _ ↦ trivial) fun s op hs _ ↦ (hs.step hnonneg op).1
    exact (Int.sub_le_self _ hend.fund_nonneg).trans hfund'.le
  · rw [total_eq_sub (q := fun s ↦ s.currentSupply mia) hstart fun s op _ hs ↦
      ⟨(hs.step hnonneg op).1, (hs.step hnonneg op).2.2.1⟩, hsupply] at hall
    omega

/-! ## An asset that is redeemed in two parts -/

/-- Three of the core asset for every seven. -/
def threeForSeven : Price := ⟨⟨7, 3⟩, ⟨3, coreAsset⟩⟩

/-- An account owes ten of an asset, which another one has, and has a hundred as collateral. -/
def redeemableMarket : Market where
  ledger :=
    { headBlockTime := 0
      cashbackVestingThreshold := 0
      accounts := fun _ ↦ some ⟨none, ∅, ∅⟩
      statistics := fun _ ↦ ⟨0, 0⟩
      assets := fun _ ↦ some ⟨false, ∅, ∅, threeForSeven⟩
      dynamicData := fun _ ↦ ⟨10, 0, 0⟩
      balances := fun account id ↦ if account = 6 ∧ id = 3 then some 10 else none
      migrations := [] }
  totalCoreInOrders := fun account ↦ if account = 5 then 100 else 0
  limitOrders := ∅
  callOrders := AList.singleton 0
    { borrower := 5
      collateral := 100
      collateral_nonneg := by decide
      debt := 10
      callPrice := ⟨⟨1, coreAsset⟩, ⟨1, 3⟩⟩ }
  forceSettlements := ∅
  nextSettlementId := 0
  bitassets := fun id ↦
    if id = 3 then
      some
        { shortBackingAsset := coreAsset
          forceSettlementDelaySec := 0
          currentFeed := ⟨threeForSeven, 1500⟩
          isPredictionMarket := false
          settlementPrice := ⟨⟨0, coreAsset⟩, ⟨0, coreAsset⟩⟩
          settlementFund := 0 }
    else none
  marketOptions := fun _ ↦ ⟨false, 0, 0, true⟩

/-- The holder redeems some of the asset. -/
def redeem (amount : ℕ) : AssetSettle := ⟨⟨0, coreAsset⟩, 6, ⟨amount, 3⟩, Int.natCast_nonneg _⟩

theorem redeemableMarket_settles :
    (redeemableMarket.globallySettleAsset 3 threeForSeven).isSome = true := by decide

/-- Four are gathered for ten, of which one is paid for three and two for the other seven. -/
theorem settlement_fund_suffices_ten :
    redeemableMarket.collateralGathered 3 threeForSeven = 4 ∧
      ∃ m', redeemableMarket.globallySettleAsset 3 threeForSeven = some m' ∧
        (run (settle ⟨false, true⟩ none) m' [redeem 3, redeem 7]).currentSupply 3 = 0 := by
  refine ⟨by decide, ?_⟩
  have hm' := (Option.some_get redeemableMarket_settles).symm
  exact ⟨_, hm', (settlement_fund_suffices hm' ⟨false, true⟩ none [redeem 3, redeem 7]
    (by decide)).2.2 (by decide +kernel)⟩

end Graphene
