import Graphene.Ledger.Confidential
import Graphene.Lib.Tally
import Graphene.Lib.Transitions
import Mathlib.Algebra.Group.Prod
import Mathlib.Data.Prod.Lex

/-!
# What there is of each asset

Every asset is somewhere: in the balance of an account, among the fees that are accumulated or still
have to be paid out, in a fee pool, in a fee backed asset, or out of sight in blinded balances.  No
run of operations and of payouts at maintenance makes or loses any of it.

* `TreasuryOperation`, `Treasury.applyOperation` — an operation with its fee, as in
  `TransferState.applyOperation`.
* `TreasuryEvent`, `Treasury.step` — operations, and the payout of the fee backed assets.
* `Ledger.held`, `Treasury.outside` — what there is of an asset here, and what is elsewhere.
* `Treasury.Sound` — no holding is negative, and finitely many are not empty.
* `Treasury.Moves` — what a step does to a sound state.
* `Treasury.supplies_conserved` — a run leaves what is elsewhere as it was.
* `Treasury.balance_le_supply` — so that no balance ever exceeds the supply.
-/

set_option autoImplicit false

namespace Graphene

/-! ## Runs -/

/-- The operations; each has its fee beside it. -/
inductive TreasuryOperation (K B C P : Type) where
  /-- A transfer, or an operation on a withdraw permission. -/
  | transfers (op : TransferOperation)
  /-- `asset_fund_fee_pool_operation`. -/
  | assetFundFeePool (fromAccount : AccountId) (assetId : AssetId) (amount : ℤ)
  /-- `asset_claim_fees_operation`. -/
  | assetClaimFees (issuer : AccountId) (amountToClaim : Asset)
  /-- A transfer to, from or between blinded balances. -/
  | blind (op : BlindOperation K B C P)

/-- What happens to the state. -/
inductive TreasuryEvent (K B C P : Type) where
  /-- An operation, whose fee has to be `requiredFee`. -/
  | operation (skipFeeScheduleCheck : Bool) (requiredFee : Option ℤ)
      (op : TreasuryOperation K B C P) (fee : Asset)
  /-- `distribute_fba_balances`, at a maintenance interval. -/
  | distributeFbaBalances

namespace TreasuryOperation

variable {K B C P : Type} [LinearOrder C]

/-- `fee_payer`. -/
def feePayer : TreasuryOperation K B C P → AccountId
  | transfers op => op.feePayer
  | assetFundFeePool fromAccount _ _ => fromAccount
  | assetClaimFees issuer _ => issuer
  | blind op => op.feePayer

/-- `validate`. -/
def validate (lib : Commitments B C P) (fee : Asset) : TreasuryOperation K B C P → Bool
  | transfers op => op.validate
  | assetFundFeePool _ _ amount => fee.amount ≥ 0 && fee.assetId = coreAsset && amount > 0
  | assetClaimFees _ amountToClaim => fee.amount ≥ 0 && amountToClaim.amount > 0
  | blind op => op.validate lib fee

end TreasuryOperation

namespace Treasury

variable {K B C P : Type} [DecidableEq K] [LinearOrder C] (lib : Commitments B C P)
  (s : Treasury K C)

/-- `do_evaluate`. -/
def doEvaluate (op : TreasuryOperation K B C P) (fee : Asset) : Option Unit :=
  match op with
  | .transfers op => s.toTransferState.doEvaluate op
  | .assetFundFeePool _ id _ => s.evaluateFundFeePool id
  | .assetClaimFees issuer amountToClaim => s.evaluateClaimFees issuer amountToClaim
  | .blind op => s.evaluateBlind op fee

/-- `pay_fee`. -/
def payFee (flags : EvaluationFlags) (op : TreasuryOperation K B C P) (coreFeePaid : ℤ) :
    Option (Treasury K C) :=
  match op with
  | .blind op => s.payFbaFee flags op.feePayer coreFeePaid op.fbaId
  | op => some (s.setLedger (s.ledger.payFee flags op.feePayer coreFeePaid))

/-- `do_apply`. -/
def doApply (op : TreasuryOperation K B C P) (fee : Asset) : Option (Treasury K C) :=
  match op with
  | .transfers op => (s.toTransferState.doApply op).map fun t ↦ { s with toTransferState := t }
  | .assetFundFeePool fromAccount id amount => s.fundFeePool fromAccount id amount
  | .assetClaimFees issuer amountToClaim => s.claimFees issuer amountToClaim
  | .blind op => s.applyBlind op fee

/-- An operation with its fee, which has to be `requiredFee`. -/
def applyOperation (flags : EvaluationFlags) (requiredFee : Option ℤ)
    (op : TreasuryOperation K B C P) (fee : Asset) : Option (Treasury K C) := do
  guard (op.validate lib fee)
  let coreFeePaid ← s.ledger.prepareFee op.feePayer fee
  guard (flags.skipFeeScheduleCheck ∨ ∃ f ∈ requiredFee, coreFeePaid ≥ f)
  s.doEvaluate op fee
  let s := s.setLedger (s.ledger.convertFee flags fee coreFeePaid)
  let s ← s.payFee flags op coreFeePaid
  let s ← s.doApply op fee
  s.adjustBalance op.feePayer ⟨-fee.amount, fee.assetId⟩

/-- What happens, to the state; nothing ever sets `skip_fee`. -/
def step : TreasuryEvent K B C P → Option (Treasury K C)
  | .operation skipFeeScheduleCheck requiredFee op fee =>
    s.applyOperation lib ⟨false, skipFeeScheduleCheck⟩ requiredFee op fee
  | .distributeFbaBalances => s.distributeFbaBalances

end Treasury

/-! ## What there is -/

namespace Ledger

variable {l l' : Ledger}

/-- What there is of an asset in a ledger. -/
noncomputable def held (l : Ledger) (i : AssetId) : ℤ :=
  ∑ᶠ a, l.getBalance a i + (l.dynamicData i).accumulatedFees +
    if i = coreAsset then
      ∑ᶠ a, ((l.statistics a).pendingFees + (l.statistics a).pendingVestedFees) +
        ∑ᶠ j, (l.dynamicData j).feePool
    else 0

/-- What there is of an asset elsewhere: in orders, in vesting balances and in the budget. -/
noncomputable def outside (l : Ledger) (i : AssetId) : ℤ :=
  (l.dynamicData i).currentSupply - l.held i

/-- No holding is negative, and finitely many are not empty. -/
structure Sound (l : Ledger) : Prop where
  /-- Finitely many accounts have an asset. -/
  balances_finite : ∀ i, (Function.support fun a ↦ l.getBalance a i).Finite
  /-- Nobody owes any. -/
  balances_nonneg : ∀ a i, 0 ≤ l.getBalance a i
  /-- Finitely many accounts have paid fees. -/
  fees_finite : (Function.support fun a ↦
    (l.statistics a).pendingFees + (l.statistics a).pendingVestedFees).Finite
  /-- Fees are not negative. -/
  fees_nonneg : ∀ a, 0 ≤ (l.statistics a).pendingFees + (l.statistics a).pendingVestedFees
  /-- Finitely many assets have a fee pool. -/
  pools_finite : (Function.support fun j ↦ (l.dynamicData j).feePool).Finite
  /-- Fee pools are not negative. -/
  pools_nonneg : ∀ j, 0 ≤ (l.dynamicData j).feePool
  /-- Nor are accumulated fees. -/
  accumulated_nonneg : ∀ j, 0 ≤ (l.dynamicData j).accumulatedFees

/-- A step takes `change` from elsewhere, and leaves a sound ledger sound. -/
def Moves (change : AssetId → ℤ) (l l' : Ledger) : Prop :=
  l.Sound → l'.Sound ∧ l'.outside = l.outside - change

theorem Moves.trans {l₁ : Ledger} {change change' : AssetId → ℤ} (h : Moves change l l₁)
    (h' : Moves change' l₁ l') : Moves (change + change') l l' := by
  intro hs
  obtain ⟨hs₁, hout₁⟩ := h hs
  obtain ⟨hs', hout'⟩ := h' hs₁
  exact ⟨hs', by rw [hout', hout₁, sub_sub]⟩

theorem Moves.congr {change change' : AssetId → ℤ} (h : Moves change l l')
    (heq : change = change') : Moves change' l l' := heq ▸ h

/-! ### Balances -/

theorem moves_adjustBalance {account : AccountId} {delta : Asset}
    (h : l.adjustBalance account delta = some l') :
    Moves (Pi.single delta.assetId delta.amount) l l' := by
  obtain ⟨⟨balances, rfl⟩, hget, hnonneg⟩ := balances_of_adjustBalance h
  intro hs
  have hupdate : ∀ i, (fun a ↦ Ledger.getBalance { l with balances := balances } a i) =
      Function.update (fun a ↦ l.getBalance a i) account
        (l.getBalance account i + if i = delta.assetId then delta.amount else 0) := by
    intro i
    funext a
    rw [hget]
    rcases eq_or_ne a account with rfl | hne
    · simp
    · simp [hne]
  refine ⟨{ hs with balances_finite := fun i ↦ ?_, balances_nonneg := fun a i ↦ ?_ }, ?_⟩
  · rw [hupdate]
    exact Tally.support_update (hs.balances_finite i) _ _
  · by_cases hai : a = account ∧ i = delta.assetId
    · rw [hai.1, hai.2]
      exact hnonneg (hs.balances_nonneg _ _)
    · rw [hget, if_neg hai, add_zero]
      exact hs.balances_nonneg a i
  · funext i
    have hsum : ∑ᶠ a, Ledger.getBalance { l with balances := balances } a i =
        ∑ᶠ a, l.getBalance a i + if i = delta.assetId then delta.amount else 0 := by
      rw [hupdate, Tally.finsum_update (hs.balances_finite i)]
      omega
    simp only [outside, held, Pi.sub_apply, Pi.single_apply, hsum]
    omega

/-! ### Fees -/

/-- A change of the data of one asset. -/
theorem moves_dynamicData {i : AssetId} {d : AssetDynamicData} (hpool : 0 ≤ d.feePool)
    (haccumulated : 0 ≤ d.accumulatedFees) :
    Moves (Pi.single i ((l.dynamicData i).currentSupply - d.currentSupply +
        (d.accumulatedFees - (l.dynamicData i).accumulatedFees)) +
      Pi.single coreAsset (d.feePool - (l.dynamicData i).feePool)) l
      { l with dynamicData := Function.update l.dynamicData i d } := by
  intro hs
  have hpools : (fun j ↦ (Function.update l.dynamicData i d j).feePool) =
      Function.update (fun j ↦ (l.dynamicData j).feePool) i d.feePool := by
    funext j
    rcases eq_or_ne j i with rfl | hne
    · simp
    · simp [hne]
  refine ⟨{ hs with pools_finite := ?_, pools_nonneg := fun j ↦ ?_,
                    accumulated_nonneg := fun j ↦ ?_ }, ?_⟩
  · show (Function.support fun j ↦ (Function.update l.dynamicData i d j).feePool).Finite
    rw [hpools]
    exact Tally.support_update hs.pools_finite _ _
  · rcases eq_or_ne j i with rfl | hne
    · simpa using hpool
    · simpa [hne] using hs.pools_nonneg j
  · rcases eq_or_ne j i with rfl | hne
    · simpa using haccumulated
    · simpa [hne] using hs.accumulated_nonneg j
  · funext j
    have hsum : ∑ᶠ j, (Function.update l.dynamicData i d j).feePool =
        ∑ᶠ j, (l.dynamicData j).feePool + (d.feePool - (l.dynamicData i).feePool) := by
      rw [hpools, Tally.finsum_update hs.pools_finite]
    have hbalances : ∀ a, Ledger.getBalance
        { l with dynamicData := Function.update l.dynamicData i d } a j = l.getBalance a j :=
      fun a ↦ rfl
    simp only [outside, held, Pi.sub_apply, Pi.add_apply, Pi.single_apply, hsum, hbalances]
    rcases eq_or_ne j i with rfl | hne
    · simp only [Function.update_self, if_true]
      split_ifs <;> omega
    · simp only [Function.update_of_ne hne, if_neg hne]
      split_ifs <;> omega

/-- The fee is paid to the statistics of an account. -/
theorem moves_payFee {flags : EvaluationFlags} (hflags : flags.skipFee = false)
    {account : AccountId} {coreFeePaid : ℤ} (hnonneg : 0 ≤ coreFeePaid) :
    Moves (Pi.single coreAsset coreFeePaid) l (l.payFee flags account coreFeePaid) := by
  intro hs
  have hpaid : l.payFee flags account coreFeePaid = { l with
      statistics := Function.update l.statistics account
        ((l.statistics account).payFee coreFeePaid l.cashbackVestingThreshold) } := by
    simp [payFee, hflags]
  have hone : ((l.statistics account).payFee coreFeePaid l.cashbackVestingThreshold).pendingFees +
      ((l.statistics account).payFee coreFeePaid l.cashbackVestingThreshold).pendingVestedFees =
        (l.statistics account).pendingFees + (l.statistics account).pendingVestedFees +
          coreFeePaid := by
    rw [AccountStatistics.payFee]
    split
    · dsimp only
      omega
    · dsimp only
      omega
  have hfees : (fun a ↦ ((l.payFee flags account coreFeePaid).statistics a).pendingFees +
      ((l.payFee flags account coreFeePaid).statistics a).pendingVestedFees) =
        Function.update
          (fun a ↦ (l.statistics a).pendingFees + (l.statistics a).pendingVestedFees) account
          ((l.statistics account).pendingFees + (l.statistics account).pendingVestedFees +
            coreFeePaid) := by
    rw [hpaid]
    funext a
    rcases eq_or_ne a account with rfl | hne
    · simpa using hone
    · simp [hne]
  have hsum : ∑ᶠ a, (((l.payFee flags account coreFeePaid).statistics a).pendingFees +
      ((l.payFee flags account coreFeePaid).statistics a).pendingVestedFees) =
        ∑ᶠ a, ((l.statistics a).pendingFees + (l.statistics a).pendingVestedFees) +
          coreFeePaid := by
    rw [hfees, Tally.finsum_update hs.fees_finite]
    omega
  have hpair := congrFun hfees
  have hfinite := Tally.support_update hs.fees_finite account
    ((l.statistics account).pendingFees + (l.statistics account).pendingVestedFees + coreFeePaid)
  rw [← hfees] at hfinite
  have hrest : (l.payFee flags account coreFeePaid).dynamicData = l.dynamicData ∧
      ∀ a i, (l.payFee flags account coreFeePaid).getBalance a i = l.getBalance a i := by
    rw [hpaid]
    exact ⟨rfl, fun _ _ ↦ rfl⟩
  refine ⟨?_, ?_⟩
  · refine ⟨?_, ?_, hfinite, fun a ↦ ?_, ?_, ?_, ?_⟩
    · simpa [hrest.2] using hs.balances_finite
    · simpa [hrest.2] using hs.balances_nonneg
    · rw [show _ = _ from hpair a]
      rcases eq_or_ne a account with rfl | hne
      · have := hs.fees_nonneg a
        simp only [Function.update_self]
        omega
      · simpa [hne] using hs.fees_nonneg a
    · simpa [hrest.1] using hs.pools_finite
    · simpa [hrest.1] using hs.pools_nonneg
    · simpa [hrest.1] using hs.accumulated_nonneg
  · funext i
    simp only [outside, held, hrest, hsum, Pi.sub_apply, Pi.single_apply]
    split_ifs <;> omega

/-- What `prepare_fee` guarantees. -/
theorem prepareFee_spec {account : AccountId} {fee : Asset} {coreFeePaid : ℤ}
    (h : l.prepareFee account fee = some coreFeePaid) :
    0 ≤ fee.amount ∧ 0 ≤ coreFeePaid ∧ (fee.assetId = coreAsset → coreFeePaid = fee.amount) ∧
      (fee.assetId ≠ coreAsset → coreFeePaid ≤ (l.dynamicData fee.assetId).feePool) := by
  have hfee := prepareFee_nonneg h
  by_cases hcore : fee.assetId = coreAsset
  · obtain ⟨rfl, -, -⟩ := (prepareFee_core hcore).1 h
    exact ⟨hfee, hfee, fun _ ↦ rfl, fun hne ↦ absurd hcore hne⟩
  · simp only [prepareFee, Option.bind_eq_bind, Option.bind_eq_some_iff, Option.guard_eq_some',
      exists_const, if_neg hcore, Option.pure_def, Option.some.injEq] at h
    obtain ⟨-, -, -, asset, -, -, fromPool, hconvert, -, hpool, rfl⟩ := h
    refine ⟨hfee, ?_, fun h ↦ absurd h hcore, fun _ ↦ hpool⟩
    have hnonneg : ∀ {source target : Asset}, fee.convert source target = some fromPool →
        0 ≤ fromPool.amount := by
      intro source target h
      rw [Asset.convert] at h
      split at h
      case isTrue hc =>
        obtain rfl := Option.some.inj h
        exact Int.ediv_nonneg hc.2.1 hc.1.le
      case isFalse => cases h
    rw [Asset.mulPrice] at hconvert
    split at hconvert
    · exact hnonneg hconvert
    · split at hconvert
      · exact hnonneg hconvert
      · cases hconvert

/-- The fee is converted: it is credited to its asset, and what it is worth leaves the fee pool. -/
theorem moves_convertFee {flags : EvaluationFlags} (hflags : flags.skipFee = false)
    {account : AccountId} {fee : Asset} {coreFeePaid : ℤ}
    (h : l.prepareFee account fee = some coreFeePaid) :
    Moves (Pi.single fee.assetId fee.amount - Pi.single coreAsset coreFeePaid) l
      (l.convertFee flags fee coreFeePaid) := by
  obtain ⟨hfee, hpaid, hcore, hpool⟩ := prepareFee_spec h
  by_cases hid : fee.assetId = coreAsset
  · rw [convertFee, if_neg fun h ↦ h.2 hid, hcore hid, hid, sub_self]
    exact fun hs ↦ ⟨hs, (sub_zero _).symm⟩
  · rw [convertFee, if_pos ⟨by simp [hflags], hid⟩]
    intro hs
    have haccumulated := hs.accumulated_nonneg fee.assetId
    have hleft := hpool hid
    refine ((moves_dynamicData (d := _) ?_ ?_).congr ?_) hs
    · dsimp only
      omega
    · dsimp only
      omega
    · dsimp only
      rw [sub_self, zero_add, add_sub_cancel_left, sub_sub_cancel_left, Pi.single_neg,
        ← sub_eq_add_neg]

end Ledger

namespace Treasury

variable {K B C P : Type} {s s' : Treasury K C}

/-- What there is of an asset elsewhere. -/
noncomputable def outside (s : Treasury K C) (i : AssetId) : ℤ :=
  s.ledger.outside i - s.confidentialSupply i -
    if i = coreAsset then ∑ᶠ id, (s.fbas id).accumulatedFbaFees else 0

/-- No holding is negative, and finitely many are not empty. -/
structure Sound (s : Treasury K C) : Prop where
  /-- So it is in the ledger. -/
  ledger : s.ledger.Sound
  /-- What is confidential is not negative. -/
  confidential_nonneg : ∀ i, 0 ≤ s.confidentialSupply i
  /-- Nor are the fees of the fee backed assets. -/
  fba_nonneg : ∀ id, 0 ≤ (s.fbas id).accumulatedFbaFees

/-- A step takes `change` from elsewhere, and leaves a sound state sound. -/
def Moves (change : AssetId → ℤ) (s s' : Treasury K C) : Prop :=
  s.Sound → s'.Sound ∧ s'.outside = s.outside - change

namespace Moves

variable {s₁ : Treasury K C} {change change' : AssetId → ℤ}

theorem refl (s : Treasury K C) : Moves 0 s s := fun hs ↦ ⟨hs, (sub_zero _).symm⟩

theorem trans (h : Moves change s s₁) (h' : Moves change' s₁ s') :
    Moves (change + change') s s' := by
  intro hs
  obtain ⟨hs₁, hout₁⟩ := h hs
  obtain ⟨hs', hout'⟩ := h' hs₁
  exact ⟨hs', by rw [hout', hout₁, sub_sub]⟩

theorem congr (h : Moves change s s') (heq : change = change') : Moves change' s s' := heq ▸ h

/-- What moves in the ledger alone. -/
theorem of_ledger (h : Ledger.Moves change s.ledger s'.ledger) (hfbas : s'.fbas = s.fbas)
    (hconf : s'.confidentialSupply = s.confidentialSupply) : Moves change s s' := by
  intro hs
  obtain ⟨hledger, hout⟩ := h hs.ledger
  refine ⟨⟨hledger, ?_, ?_⟩, ?_⟩
  · rw [hconf]
    exact hs.confidential_nonneg
  · rw [hfbas]
    exact hs.fba_nonneg
  · funext i
    simp only [outside, hout, hfbas, hconf, Pi.sub_apply]
    omega

/-- What does not touch any of it. -/
theorem of_eq (hledger : s'.ledger = s.ledger) (hfbas : s'.fbas = s.fbas)
    (hconf : s'.confidentialSupply = s.confidentialSupply) : Moves 0 s s' :=
  of_ledger (hledger ▸ fun hs ↦ ⟨hs, (sub_zero _).symm⟩) hfbas hconf

end Moves

/-! ## One change -/

theorem moves_adjustBalance {account : AccountId} {delta : Asset}
    (h : s.adjustBalance account delta = some s') :
    Moves (Pi.single delta.assetId delta.amount) s s' := by
  obtain ⟨l, hl, rfl⟩ := Option.map_eq_some_iff.1 h
  exact .of_ledger (Ledger.moves_adjustBalance hl) rfl rfl

theorem fbas_adjustBalance {account : AccountId} {delta : Asset}
    (h : s.adjustBalance account delta = some s') : s'.fbas = s.fbas := by
  obtain ⟨l, -, rfl⟩ := Option.map_eq_some_iff.1 h
  rfl

theorem moves_setFba (s : Treasury K C) (id : FbaAccumulatorId) {fees : ℤ} (hfees : 0 ≤ fees) :
    Moves (Pi.single coreAsset (fees - (s.fbas id).accumulatedFbaFees)) s (s.setFba id fees) := by
  intro hs
  have hupdate : (fun i ↦ ((s.setFba id fees).fbas i).accumulatedFbaFees) =
      Function.update (fun i ↦ (s.fbas i).accumulatedFbaFees) id fees := by
    funext i
    rcases eq_or_ne i id with rfl | hne
    · simp [setFba]
    · simp [setFba, hne]
  refine ⟨⟨hs.ledger, hs.confidential_nonneg, fun i ↦ ?_⟩, ?_⟩
  · rw [show _ = _ from congrFun hupdate i]
    rcases eq_or_ne i id with rfl | hne
    · simpa using hfees
    · simpa [hne] using hs.fba_nonneg i
  · funext i
    have hsum : ∑ᶠ i, ((s.setFba id fees).fbas i).accumulatedFbaFees =
        ∑ᶠ i, (s.fbas i).accumulatedFbaFees + (fees - (s.fbas id).accumulatedFbaFees) := by
      rw [hupdate, Tally.finsum_update (Set.toFinite _)]
    have hledger : (s.setFba id fees).ledger = s.ledger := rfl
    have hconf : (s.setFba id fees).confidentialSupply = s.confidentialSupply := rfl
    simp only [outside, Pi.sub_apply, Pi.single_apply, hsum, hledger, hconf]
    split_ifs <;> omega

theorem moves_adjustConfidentialSupply {i : AssetId} {delta : ℤ}
    (h : s.adjustConfidentialSupply i delta = some s') : Moves (Pi.single i delta) s s' := by
  simp only [adjustConfidentialSupply, shareType, Option.bind_eq_bind, Option.bind_eq_some_iff,
    Option.guard_eq_some', exists_const, Option.pure_def, Option.some.injEq,
    Option.ite_none_right_eq_some] at h
  obtain ⟨supply, ⟨-, rfl⟩, hnonneg, rfl⟩ := h
  intro hs
  refine ⟨⟨hs.ledger, fun j ↦ ?_, hs.fba_nonneg⟩, ?_⟩
  · rcases eq_or_ne j i with rfl | hne
    · simpa using hnonneg
    · simpa [hne] using hs.confidential_nonneg j
  · funext j
    simp only [outside, Pi.sub_apply, Pi.single_apply]
    rcases eq_or_ne j i with rfl | hne
    · simp only [Function.update_self, if_true]
      omega
    · simp only [Function.update_of_ne hne, if_neg hne]
      omega

/-- A change of the data of one asset. -/
theorem moves_modifyDynamicData (s : Treasury K C) (i : AssetId)
    (f : AssetDynamicData → AssetDynamicData)
    (hpool : 0 ≤ (f (s.ledger.dynamicData i)).feePool)
    (haccumulated : 0 ≤ (f (s.ledger.dynamicData i)).accumulatedFees) :
    Moves (Pi.single i ((s.ledger.dynamicData i).currentSupply -
          (f (s.ledger.dynamicData i)).currentSupply +
        ((f (s.ledger.dynamicData i)).accumulatedFees -
          (s.ledger.dynamicData i).accumulatedFees)) +
      Pi.single coreAsset ((f (s.ledger.dynamicData i)).feePool -
        (s.ledger.dynamicData i).feePool)) s (s.modifyDynamicData i f) :=
  .of_ledger (Ledger.moves_dynamicData hpool haccumulated) rfl rfl

/-- The core asset leaves the supply. -/
theorem moves_burn (s : Treasury K C) (amount : ℤ) (hs : s.Sound) :
    Moves (Pi.single coreAsset amount) s (s.modifyDynamicData coreAsset fun d ↦
      { d with currentSupply := d.currentSupply - amount }) :=
  (s.moves_modifyDynamicData coreAsset _ (hs.ledger.pools_nonneg _)
    (hs.ledger.accumulated_nonneg _)).congr (by simp)

/-! ## Fee backed assets -/

/-- **A payout of a fee backed asset loses nothing.** -/
theorem moves_splitFbaBalance {id : FbaAccumulatorId} {percents : ℕ × ℕ × ℕ}
    (h : s.splitFbaBalance id percents = some s') : Moves 0 s s' := by
  obtain ⟨networkPct, buybackPct, issuerPct⟩ := percents
  simp only [splitFbaBalance, Option.bind_eq_bind, Option.bind_eq_some_iff,
    Option.guard_eq_some', exists_const] at h
  obtain ⟨-, h⟩ := h
  intro hs
  split at h
  case isTrue =>
    obtain rfl := Option.some.inj h
    exact Moves.refl s hs
  case isFalse =>
    split at h
    case isTrue =>
      -- all of it leaves the supply
      obtain rfl := Option.some.inj h
      refine (((s.moves_burn _ hs).trans (moves_setFba _ id le_rfl)).congr ?_) hs
      rw [← Pi.single_add]
      simp [modifyDynamicData, setLedger]
    case isFalse =>
      simp only [Option.bind_eq_some_iff, Option.guard_eq_some', exists_const, Option.pure_def,
        Option.some.injEq] at h
      obtain ⟨-, designatedAsset, -, buybackAccount, -, s₂, hbuyback, s₃, hissuer, rfl⟩ := h
      set fees := (s.fbas id).accumulatedFbaFees with hfees
      set network := fees - (percentOf fees buybackPct + percentOf fees issuerPct) with hnetwork
      -- the part of the network leaves the supply, also where it is nothing
      have hburn : ∃ s₁, (if network ≠ 0 then s.modifyDynamicData coreAsset fun d ↦
          { d with currentSupply := d.currentSupply - network } else s) = s₁ ∧
            Moves (Pi.single coreAsset network) s s₁ ∧ s₁.fbas = s.fbas := by
        refine ⟨_, rfl, ?_⟩
        split_ifs with hzero
        · exact ⟨s.moves_burn _ hs, rfl⟩
        · rw [not_not.1 hzero, Pi.single_zero]
          exact ⟨.refl s, rfl⟩
      obtain ⟨s₁, heq, hmoves, hfbas⟩ := hburn
      rw [heq] at hbuyback
      have hkept : (s₃.fbas id).accumulatedFbaFees = fees := by
        rw [fbas_adjustBalance hissuer, fbas_adjustBalance hbuyback, hfbas]
      refine ((((hmoves.trans (moves_adjustBalance hbuyback)).trans
        (moves_adjustBalance hissuer)).trans (moves_setFba s₃ id le_rfl)).congr ?_) hs
      rw [hkept, ← Pi.single_add, ← Pi.single_add, ← Pi.single_add, Pi.single_eq_zero_iff]
      dsimp only
      omega

theorem moves_distributeFbaBalances (h : s.distributeFbaBalances = some s') : Moves 0 s s' := by
  simp only [distributeFbaBalances, Option.bind_eq_bind, Option.bind_eq_some_iff] at h
  obtain ⟨s₁, h₁, s₂, h₂, h₃⟩ := h
  exact (((moves_splitFbaBalance h₁).trans (moves_splitFbaBalance h₂)).trans
    (moves_splitFbaBalance h₃)).congr (by simp)

/-- The fee is paid, to an account or to a fee backed asset. -/
theorem moves_payFbaFee {flags : EvaluationFlags} (hflags : flags.skipFee = false)
    {account : AccountId} {coreFeePaid : ℤ} (hnonneg : 0 ≤ coreFeePaid) {id : FbaAccumulatorId}
    (h : s.payFbaFee flags account coreFeePaid id = some s') :
    Moves (Pi.single coreAsset coreFeePaid) s s' := by
  rw [payFbaFee] at h
  split at h
  case isTrue =>
    obtain rfl := Option.some.inj h
    exact .of_ledger (Ledger.moves_payFee hflags hnonneg) rfl rfl
  case isFalse =>
    simp only [shareType, Option.map_eq_some_iff, Option.ite_none_right_eq_some,
      Option.some.injEq] at h
    obtain ⟨fees, ⟨-, rfl⟩, rfl⟩ := h
    intro hs
    have hfees := hs.fba_nonneg id
    exact ((moves_setFba s id (by omega)).congr (by rw [add_sub_cancel_left])) hs

theorem moves_payFee {flags : EvaluationFlags} (hflags : flags.skipFee = false)
    {op : TreasuryOperation K B C P} {coreFeePaid : ℤ} (hnonneg : 0 ≤ coreFeePaid)
    (h : s.payFee flags op coreFeePaid = some s') :
    Moves (Pi.single coreAsset coreFeePaid) s s' := by
  have hplain : ∀ account, Moves (Pi.single coreAsset coreFeePaid) s
      (s.setLedger (s.ledger.payFee flags account coreFeePaid)) := fun _ ↦
    .of_ledger (Ledger.moves_payFee hflags hnonneg) rfl rfl
  cases op with
  | blind => exact moves_payFbaFee hflags hnonneg h
  | transfers | assetFundFeePool | assetClaimFees =>
    obtain rfl := Option.some.inj h
    exact hplain _

/-! ## The fees of an asset -/

theorem moves_fundFeePool {account : AccountId} {id : AssetId} {amount : ℤ} (hpos : 0 < amount)
    (h : s.fundFeePool account id amount = some s') : Moves 0 s s' := by
  simp only [fundFeePool, shareType, Option.bind_eq_bind, Option.bind_eq_some_iff,
    Option.ite_none_right_eq_some, Option.pure_def, Option.some.injEq] at h
  obtain ⟨s₁, hadjust, feePool, ⟨-, rfl⟩, rfl⟩ := h
  intro hs
  have hs₁ := (moves_adjustBalance hadjust hs).1
  have hpool := hs₁.ledger.pools_nonneg id
  refine (((moves_adjustBalance hadjust).trans (s₁.moves_modifyDynamicData id _ ?_
    (hs₁.ledger.accumulated_nonneg id))).congr ?_) hs
  · dsimp only
    omega
  · simp only [sub_self, add_zero, add_sub_cancel_left, Pi.single_zero, zero_add]
    rw [← Pi.single_add, neg_add_cancel, Pi.single_zero]

theorem moves_claimFees {issuer : AccountId} {amountToClaim : Asset}
    (h : s.claimFees issuer amountToClaim = some s') : Moves 0 s s' := by
  simp only [claimFees, Option.bind_eq_bind, Option.bind_eq_some_iff, Option.guard_eq_some',
    exists_const] at h
  obtain ⟨hle, hadjust⟩ := h
  intro hs
  refine (((s.moves_modifyDynamicData amountToClaim.assetId _
    (hs.ledger.pools_nonneg amountToClaim.assetId) ?_).trans
      (moves_adjustBalance hadjust)).congr ?_) hs
  · dsimp only
    omega
  · simp only [sub_self, zero_add, Pi.single_zero, add_zero, sub_sub_cancel_left]
    rw [← Pi.single_add, neg_add_cancel, Pi.single_zero]

/-! ## Transfers -/

theorem moves_move {t t' : TransferState} {source target : AccountId} {amount : Asset}
    (hledger : t.ledger = s.ledger) (h : t.move source target amount = some t') :
    Moves 0 s { s with toTransferState := t' } := by
  simp only [TransferState.move, Option.bind_eq_bind, Option.bind_eq_some_iff, Option.pure_def,
    Option.some.injEq, hledger] at h
  obtain ⟨l₁, h₁, l₂, h₂, rfl⟩ := h
  refine .of_ledger (((Ledger.moves_adjustBalance h₁).trans
    (Ledger.moves_adjustBalance h₂)).congr ?_) rfl rfl
  rw [← Pi.single_add, neg_add_cancel, Pi.single_zero]

theorem moves_transfers {op : TransferOperation} {t : TransferState}
    (h : s.toTransferState.doApply op = some t) : Moves 0 s { s with toTransferState := t } := by
  cases op with
  | transfer => exact moves_move rfl h
  | overrideTransfer => exact moves_move rfl h
  | withdrawPermissionCreate =>
    obtain rfl := Option.some.inj h
    exact .of_eq rfl rfl rfl
  | withdrawPermissionUpdate =>
    simp only [TransferState.doApply, Option.bind_eq_bind, Option.bind_eq_some_iff,
      Option.pure_def, Option.some.injEq] at h
    obtain ⟨permit, -, rfl⟩ := h
    exact .of_eq rfl rfl rfl
  | withdrawPermissionClaim id =>
    simp only [TransferState.doApply, Option.bind_eq_bind, Option.bind_eq_some_iff] at h
    obtain ⟨permit, -, permit', -, hmove⟩ := h
    exact moves_move (t := s.toTransferState.setPermission id (some permit')) rfl hmove
  | withdrawPermissionDelete =>
    obtain rfl := Option.some.inj h
    exact .of_eq rfl rfl rfl

/-! ## Blinded balances -/

variable [LinearOrder C]

theorem moves_spendInputs {inputs : List (BlindInput K C)} (h : s.spendInputs inputs = some s') :
    Moves 0 s s' := by
  obtain ⟨blinded, -, rfl⟩ := Option.map_eq_some_iff.1 h
  exact .of_eq rfl rfl rfl

theorem moves_createOutputs {id : AssetId} {outputs : List (BlindOutput K C P)}
    (h : s.createOutputs id outputs = some s') : Moves 0 s s' := by
  obtain ⟨blinded, -, rfl⟩ := Option.map_eq_some_iff.1 h
  exact .of_eq rfl rfl rfl

/-- What is deposited for the fee is what the confidential supply loses beside the amount. -/
theorem moves_applyBlind {op : BlindOperation K B C P} {fee : Asset} {lib : Commitments B C P}
    (hvalid : op.validate lib fee = true) (h : s.applyBlind op fee = some s') : Moves 0 s s' := by
  cases op with
  | transferToBlind amount source blindingFactor outputs =>
    simp only [applyBlind, Option.bind_eq_bind, Option.bind_eq_some_iff] at h
    obtain ⟨s₁, h₁, s₂, h₂, h₃⟩ := h
    refine (((moves_adjustBalance h₁).trans (moves_adjustConfidentialSupply h₂)).trans
      (moves_createOutputs h₃)).congr ?_
    rw [← Pi.single_add, neg_add_cancel, Pi.single_zero, add_zero]
  | transferFromBlind amount target blindingFactor inputs =>
    have hid : amount.assetId = fee.assetId := by
      simp only [BlindOperation.validate, Bool.and_eq_true, decide_eq_true_eq] at hvalid
      exact hvalid.1.1.2
    simp only [applyBlind, Option.bind_eq_bind, Option.bind_eq_some_iff] at h
    obtain ⟨s₁, h₁, s₂, h₂, s₃, h₃, h₄⟩ := h
    refine ((((moves_adjustBalance h₁).trans (moves_adjustBalance h₂)).trans
      (moves_spendInputs h₃)).trans (moves_adjustConfidentialSupply h₄)).congr ?_
    rw [hid, add_zero, ← Pi.single_add, ← Pi.single_add, Pi.single_eq_zero_iff]
    omega
  | blindTransfer inputs outputs =>
    simp only [applyBlind, Option.bind_eq_bind, Option.bind_eq_some_iff] at h
    obtain ⟨s₁, h₁, s₂, h₂, s₃, h₃, h₄⟩ := h
    refine ((((moves_adjustBalance h₁).trans (moves_spendInputs h₂)).trans
      (moves_createOutputs h₃)).trans (moves_adjustConfidentialSupply h₄)).congr ?_
    rw [add_zero, add_zero, ← Pi.single_add, add_neg_cancel, Pi.single_zero]

/-! ## Every step -/

variable {lib : Commitments B C P}

/-- `do_apply` moves nothing to elsewhere, or from there. -/
theorem moves_doApply {op : TreasuryOperation K B C P} {fee : Asset}
    (hvalid : op.validate lib fee = true) (h : s.doApply op fee = some s') : Moves 0 s s' := by
  cases op with
  | transfers op =>
    obtain ⟨t, ht, rfl⟩ := Option.map_eq_some_iff.1 h
    exact moves_transfers ht
  | assetFundFeePool account id amount =>
    simp only [TreasuryOperation.validate, Bool.and_eq_true, decide_eq_true_eq] at hvalid
    exact moves_fundFeePool hvalid.2 h
  | assetClaimFees => exact moves_claimFees h
  | blind op => exact moves_applyBlind hvalid h

variable [DecidableEq K]

/-- What an operation goes through. -/
theorem applyOperation_eq_some {flags : EvaluationFlags} {requiredFee : Option ℤ}
    {op : TreasuryOperation K B C P} {fee : Asset} :
    s.applyOperation lib flags requiredFee op fee = some s' ↔ op.validate lib fee = true ∧
      ∃ coreFeePaid, s.ledger.prepareFee op.feePayer fee = some coreFeePaid ∧
        (flags.skipFeeScheduleCheck = true ∨ ∃ f ∈ requiredFee, f ≤ coreFeePaid) ∧
        s.doEvaluate op fee = some () ∧ ∃ s₁ s₂,
          (s.setLedger (s.ledger.convertFee flags fee coreFeePaid)).payFee flags op coreFeePaid =
            some s₁ ∧ s₁.doApply op fee = some s₂ ∧
              s₂.adjustBalance op.feePayer ⟨-fee.amount, fee.assetId⟩ = some s' := by
  simp only [applyOperation, Option.bind_eq_bind, Option.bind_eq_some_iff, Option.guard_eq_some',
    exists_const]
  constructor
  · rintro ⟨hvalid, coreFeePaid, hfee, hschedule, ⟨⟩, heval, s₁, hpay, s₂, happly, hadjust⟩
    exact ⟨hvalid, coreFeePaid, hfee, hschedule, heval, s₁, s₂, hpay, happly, hadjust⟩
  · rintro ⟨hvalid, coreFeePaid, hfee, hschedule, heval, s₁, s₂, hpay, happly, hadjust⟩
    exact ⟨hvalid, coreFeePaid, hfee, hschedule, (), heval, s₁, hpay, s₂, happly, hadjust⟩

/-- **No step makes or loses any of an asset.** -/
theorem moves_step {e : TreasuryEvent K B C P} (h : s.step lib e = some s') : Moves 0 s s' := by
  cases e with
  | operation skipFeeScheduleCheck requiredFee op fee =>
    obtain ⟨hvalid, coreFeePaid, hfee, -, -, s₁, s₂, hpay, happly, hadjust⟩ :=
      applyOperation_eq_some.1 h
    have hconvert : Moves (Pi.single fee.assetId fee.amount - Pi.single coreAsset coreFeePaid) s
        (s.setLedger (s.ledger.convertFee ⟨false, skipFeeScheduleCheck⟩ fee coreFeePaid)) :=
      .of_ledger (Ledger.moves_convertFee rfl hfee) rfl rfl
    refine (((hconvert.trans (moves_payFee rfl (Ledger.prepareFee_spec hfee).2.1 hpay)).trans
      (moves_doApply hvalid happly)).trans (moves_adjustBalance hadjust)).congr ?_
    rw [sub_add_cancel, add_zero, ← Pi.single_add, add_neg_cancel, Pi.single_zero]
  | distributeFbaBalances => exact moves_distributeFbaBalances h

open Transitions

/-- Nor does a run. -/
theorem moves_applied {es : List (TreasuryEvent K B C P)} (h : applied (step lib) s es = some s') :
    Moves 0 s s' := by
  have hkeeps : ∀ (t : Treasury K C) e t', Moves 0 s t → step lib t e = some t' →
      Moves 0 s t' := fun t e t' ht hstep ↦
    (ht.trans (moves_step hstep)).congr (add_zero 0)
  exact applied_inv hkeeps (.refl s) h

omit [LinearOrder C] [DecidableEq K] in
/-- What an account has is a part of what there is. -/
theorem balance_le_of_sound (hs : s.Sound) {i : AssetId} (hout : 0 ≤ s.outside i)
    (a : AccountId) :
    s.ledger.getBalance a i + s.confidentialSupply i ≤ (s.ledger.dynamicData i).currentSupply := by
  have hbalance := Tally.le_finsum (hs.ledger.balances_finite i)
    (fun a ↦ hs.ledger.balances_nonneg a i) a
  have hfees : 0 ≤ ∑ᶠ a, ((s.ledger.statistics a).pendingFees +
      (s.ledger.statistics a).pendingVestedFees) := finsum_nonneg hs.ledger.fees_nonneg
  have hpools : 0 ≤ ∑ᶠ j, (s.ledger.dynamicData j).feePool :=
    finsum_nonneg hs.ledger.pools_nonneg
  have hfbas : 0 ≤ ∑ᶠ id, (s.fbas id).accumulatedFbaFees := finsum_nonneg hs.fba_nonneg
  have haccumulated := hs.ledger.accumulated_nonneg i
  simp only [outside, Ledger.outside, Ledger.held] at hout
  split_ifs at hout <;> omega

/-- **Nothing is made or lost**: a run of operations and payouts leaves as much of every asset
elsewhere as there was, and no holding becomes negative, so that nobody ever has more of an asset
than there is. -/
theorem supplies_conserved (lib : Commitments B C P) (s s' : Treasury K C)
    (es : List (TreasuryEvent K B C P)) (hs : s.Sound)
    (h : applied (step lib) s es = some s') :
    s'.Sound ∧ (∀ i, s'.outside i = s.outside i) ∧ ∀ i, 0 ≤ s.outside i → ∀ a,
      s'.ledger.getBalance a i + s'.confidentialSupply i ≤
        (s'.ledger.dynamicData i).currentSupply := by
  obtain ⟨hsound, hout⟩ := moves_applied h hs
  rw [sub_zero] at hout
  refine ⟨hsound, congrFun hout, fun i hi ↦ balance_le_of_sound hsound ?_⟩
  rwa [hout]

/-! ## A run -/

/-- Commitments that show what they commit to. -/
def clearCommitments : Commitments ℤ (ℤ ×ₗ ℤ) Unit where
  blind b amount := toLex (b, amount)
  verifySum ins outs excess :=
    (ins.map ofLex).sum = (outs.map ofLex).sum + ((0, excess) : ℤ × ℤ)
  rangeMaxValue _ := some maxShareSupply

/-- The holder of key 1. -/
def keyHolder : Authority ℕ :=
  ⟨1, [], [(1, 1)], [], List.nodup_nil, List.nodup_singleton 1, List.nodup_nil⟩

/-- Account 1 has all of the core asset.  The fees of transfers to blinded balances are for the
asset 5, whose holders control its issuer 9, and which account 8 buys back. -/
def minted : Treasury ℕ (ℤ ×ₗ ℤ) where
  ledger :=
    { headBlockTime := 100
      cashbackVestingThreshold := 0
      accounts := fun a ↦ if a < 10 then some (TransferState.accountOf ∅) else none
      statistics := fun _ ↦ ⟨0, 0⟩
      assets := fun i ↦ if i = 0 ∨ i = 5 then some (TransferState.assetOf false ∅) else none
      dynamicData := fun i ↦ ⟨if i = 0 then 1000 else 0, 0, 0⟩
      balances := fun a i ↦ if a = 1 ∧ i = 0 then some 1000 else none
      migrations := [] }
  blockInterval := 3
  rules := fun _ ↦ ⟨9, false, false⟩
  permissions := fun _ ↦ none
  nextPermission := 0
  issues := fun _ ↦
    ⟨false, 0x01, true, false, false, false, false, false, some 8⟩
  control := fun _ ↦ ⟨.topHolders 5 10, .topHolders 5 10, 3⟩
  fbas := fun id ↦ ⟨0, if id = .transferToBlind then some 5 else none⟩
  confidentialSupply := fun _ ↦ 0
  blinded := ∅

theorem minted_sound : minted.Sound := by
  have hbalance : ∀ a i, minted.ledger.getBalance a i = if a = 1 ∧ i = 0 then 1000 else 0 := by
    intro a i
    simp only [minted, Ledger.getBalance]
    split_ifs <;> rfl
  refine ⟨⟨fun i ↦ ?_, fun a i ↦ ?_, ?_, fun _ ↦ le_rfl, ?_, fun _ ↦ le_rfl, fun _ ↦ le_rfl⟩,
    fun _ ↦ le_rfl, fun _ ↦ le_rfl⟩
  · refine (Set.finite_singleton 1).subset fun a ha ↦ ?_
    by_contra hne
    exact ha ((hbalance a i).trans (if_neg fun h ↦ hne h.1))
  · rw [hbalance]
    split_ifs <;> decide
  · simp [minted, Function.support]
  · simp [minted, Function.support]

/-- Some of it is moved to blinded balances, one of these to another, and the other one back; then
the fees are paid out. -/
def thereAndBack : List (TreasuryEvent ℕ ℤ (ℤ ×ₗ ℤ) Unit) :=
  [.operation false (some 10)
      (.blind (.transferToBlind ⟨100, 0⟩ 1 7
        [⟨toLex (3, 40), (), keyHolder⟩, ⟨toLex (4, 60), (), keyHolder⟩])) ⟨10, 0⟩,
    .operation false (some 5)
      (.blind (.blindTransfer [⟨toLex (3, 40), keyHolder⟩] [⟨toLex (3, 35), (), keyHolder⟩]))
      ⟨5, 0⟩,
    .operation false (some 5)
      (.blind (.transferFromBlind ⟨55, 0⟩ 2 4 [⟨toLex (4, 60), keyHolder⟩])) ⟨5, 0⟩,
    .distributeFbaBalances]

theorem thereAndBack_applied : (applied (step clearCommitments) minted thereAndBack).isSome := by
  decide +kernel

/-- It conserves the supplies. -/
theorem supplies_conserved_thereAndBack :
    ∃ s', applied (step clearCommitments) minted thereAndBack = some s' ∧
      s'.Sound ∧ (∀ i, s'.outside i = minted.outside i) ∧ ∀ i, 0 ≤ minted.outside i → ∀ a,
        s'.ledger.getBalance a i + s'.confidentialSupply i ≤
          (s'.ledger.dynamicData i).currentSupply := by
  obtain ⟨s', hs'⟩ := Option.isSome_iff_exists.1 thereAndBack_applied
  exact ⟨s', hs', supplies_conserved clearCommitments minted s' thereAndBack minted_sound hs'⟩

end Treasury

end Graphene
