import Graphene.Auth.Authority
import Mathlib.Algebra.BigOperators.Group.Finset.Piecewise
import Mathlib.Data.Int.Order.Basic

/-!
# Balances, and the fee of an operation

The generic part of an evaluator works out the fee of an operation first, converts it to the core
asset and credits it, then applies the operation, and takes the fee from the balance of the payer
last.

* `Ledger` — balances, the data of assets, and what accounts have paid.
* `Ledger.adjustBalance` — a change of one balance, which throws where a balance does not suffice.
* `Ledger.startEvaluate` — an evaluator around `do_evaluate` and `do_apply`.
* `Ledger.startEvaluate_spec` — all that it can do.
-/

set_option autoImplicit false

namespace Graphene

/-- `asset_id_type`. -/
abbrev AssetId := ℕ

/-- `asset_id_type()`. -/
def coreAsset : AssetId := 0

/-- `GRAPHENE_MAX_SHARE_SUPPLY`. -/
def maxShareSupply : ℤ := 1000000000000000

/-- A value fits `int64_t`. -/
def FitsInt64 (x : ℤ) : Prop := -2 ^ 63 ≤ x ∧ x < 2 ^ 63

instance (x : ℤ) : Decidable (FitsInt64 x) := inferInstanceAs (Decidable (_ ∧ _))

/-- A sum or a difference of `share_type`s. -/
def shareType (x : ℤ) : Option ℤ := if FitsInt64 x then some x else none

theorem shareType_of_fits {x : ℤ} (h : FitsInt64 x) : shareType x = some x := if_pos h

/-- `asset`. -/
structure Asset where
  /-- `amount`. -/
  amount : ℤ
  /-- `asset_id`. -/
  assetId : AssetId
deriving DecidableEq

/-- `price`. -/
structure Price where
  /-- `base`. -/
  base : Asset
  /-- `quote`. -/
  quote : Asset

/-- `asset * price`, from one side of the price to the other.  The product is a `uint128_t`, so that
a negative one is far beyond the maximum. -/
def Asset.convert (a : Asset) (source target : Asset) : Option Asset :=
  if source.amount > 0 ∧ 0 ≤ a.amount * target.amount ∧
      a.amount * target.amount / source.amount ≤ maxShareSupply then
    some ⟨a.amount * target.amount / source.amount, target.assetId⟩
  else none

/-- `asset * price`. -/
def Asset.mulPrice (a : Asset) (p : Price) : Option Asset :=
  if a.assetId = p.base.assetId then a.convert p.base p.quote
  else if a.assetId = p.quote.assetId then a.convert p.quote p.base
  else none

/-- What there is in an `account_object` about assets. -/
structure AccountObject where
  /-- `allowed_assets`. -/
  allowedAssets : Option (Finset AssetId)
  /-- `blacklisting_accounts`. -/
  blacklistingAccounts : Finset AccountId
  /-- `whitelisting_accounts`. -/
  whitelistingAccounts : Finset AccountId

/-- What there is in the `options` of an `asset_object` about who may use it, and its price. -/
structure AssetObject where
  /-- The flag `white_list`. -/
  whiteList : Bool
  /-- `blacklist_authorities`. -/
  blacklistAuthorities : Finset AccountId
  /-- `whitelist_authorities`. -/
  whitelistAuthorities : Finset AccountId
  /-- `core_exchange_rate`. -/
  coreExchangeRate : Price

/-- `_is_authorized_asset`. -/
def isAuthorizedAssetSlow (acct : AccountObject) (id : AssetId) (asset : AssetObject) : Bool :=
  (match acct.allowedAssets with
    | none => true
    | some allowed => decide (id ∈ allowed)) &&
  Disjoint acct.blacklistingAccounts asset.blacklistAuthorities &&
  (asset.whitelistAuthorities = ∅ ||
    ¬ Disjoint acct.whitelistingAccounts asset.whitelistAuthorities)

/-- `is_authorized_asset`. -/
def isAuthorizedAsset (acct : AccountObject) (id : AssetId) (asset : AssetObject) : Bool :=
  (!asset.whiteList && acct.allowedAssets.isNone) || isAuthorizedAssetSlow acct id asset

/-- `asset_dynamic_data_object`. -/
structure AssetDynamicData where
  /-- `current_supply`. -/
  currentSupply : ℤ
  /-- `accumulated_fees`. -/
  accumulatedFees : ℤ
  /-- `fee_pool`. -/
  feePool : ℤ

/-- The fees in an `account_statistics_object`. -/
structure AccountStatistics where
  /-- `pending_fees`. -/
  pendingFees : ℤ
  /-- `pending_vested_fees`. -/
  pendingVestedFees : ℤ

/-- `account_balance_migrate_object`. -/
structure BalanceMigrateObject where
  /-- `owner`. -/
  owner : AccountId
  /-- `eth_address`. -/
  ethAddress : List Char
  /-- `asset_type`. -/
  assetType : AssetId
  /-- `balance`. -/
  balance : ℤ

/-- What evaluators read and write of the database. -/
structure Ledger where
  /-- `head_block_time()`. -/
  headBlockTime : ℕ
  /-- `cashback_vesting_threshold` of the chain parameters. -/
  cashbackVestingThreshold : ℤ
  /-- The `account_object`s. -/
  accounts : AccountId → Option AccountObject
  /-- The `account_statistics_object`s. -/
  statistics : AccountId → AccountStatistics
  /-- The `asset_object`s. -/
  assets : AssetId → Option AssetObject
  /-- The `asset_dynamic_data_object`s. -/
  dynamicData : AssetId → AssetDynamicData
  /-- The `account_balance_object`s. -/
  balances : AccountId → AssetId → Option ℤ
  /-- The `account_balance_migrate_object`s. -/
  migrations : List BalanceMigrateObject

/-- `account_statistics_object::pay_fee`. -/
def AccountStatistics.payFee (s : AccountStatistics)
    (coreFee cashbackVestingThreshold : ℤ) : AccountStatistics :=
  if coreFee > cashbackVestingThreshold then { s with pendingFees := s.pendingFees + coreFee }
  else { s with pendingVestedFees := s.pendingVestedFees + coreFee }

/-- The flags of `transaction_evaluation_state`. -/
structure EvaluationFlags where
  /-- `skip_fee`. -/
  skipFee : Bool
  /-- `skip_fee_schedule_check`. -/
  skipFeeScheduleCheck : Bool

namespace Ledger

variable (l : Ledger)

/-! ## Balances -/

/-- `get_balance`. -/
def getBalance (owner : AccountId) (id : AssetId) : ℤ := (l.balances owner id).getD 0

/-- The balance of an account becomes `amount`. -/
def setBalance (owner : AccountId) (id : AssetId) (amount : ℤ) : Ledger :=
  { l with
    balances := Function.update l.balances owner
      (Function.update (l.balances owner) id (some amount)) }

/-- `adjust_balance`. -/
def adjustBalance (account : AccountId) (delta : Asset) : Option Ledger :=
  if delta.amount = 0 then some l
  else
    match l.balances account delta.assetId with
    | none =>
      if delta.amount > 0 then some (l.setBalance account delta.assetId delta.amount) else none
    | some balance =>
      if delta.amount < 0 ∧ balance < -delta.amount then none
      else some (l.setBalance account delta.assetId (balance + delta.amount))

@[simp]
theorem balances_setBalance (owner : AccountId) (id : AssetId) (amount : ℤ) :
    (l.setBalance owner id amount).balances owner id = some amount := by
  simp [setBalance]

theorem getBalance_setBalance (owner a : AccountId) (id i : AssetId) (amount : ℤ) :
    (l.setBalance owner id amount).getBalance a i =
      if a = owner ∧ i = id then amount else l.getBalance a i := by
  rw [getBalance, getBalance, setBalance]
  dsimp only
  rcases eq_or_ne a owner with rfl | ha
  · rw [Function.update_self]
    rcases eq_or_ne i id with rfl | hi
    · rw [Function.update_self, if_pos ⟨rfl, rfl⟩, Option.getD_some]
    · rw [Function.update_of_ne hi, if_neg fun h ↦ hi h.2]
  · rw [Function.update_of_ne ha, if_neg fun h ↦ ha h.1]

/-- A balance that does not suffice cannot be taken from. -/
theorem adjustBalance_insufficient {account : AccountId} {id : AssetId} {amount : ℤ}
    (h : l.getBalance account id < amount) (hpos : 0 < amount) :
    l.adjustBalance account ⟨-amount, id⟩ = none := by
  rw [getBalance] at h
  rw [adjustBalance]
  dsimp only
  rw [if_neg (by omega)]
  cases hb : l.balances account id with
  | none =>
    dsimp only
    rw [if_neg (by omega)]
  | some balance =>
    rw [hb, Option.getD_some] at h
    dsimp only
    rw [if_pos ⟨by omega, by omega⟩]

/-- What is there can be taken. -/
theorem adjustBalance_sufficient {account : AccountId} {id : AssetId} {amount : ℤ}
    (h : amount ≤ l.getBalance account id) (hpos : 0 < amount) :
    l.adjustBalance account ⟨-amount, id⟩ =
      some (l.setBalance account id (l.getBalance account id - amount)) := by
  rw [getBalance] at h
  rw [adjustBalance, getBalance]
  dsimp only
  rw [if_neg (by omega)]
  cases hb : l.balances account id with
  | none =>
    rw [hb, Option.getD_none] at h
    omega
  | some balance =>
    rw [hb, Option.getD_some] at h
    dsimp only
    rw [if_neg (by omega), Option.getD_some, sub_eq_add_neg]

/-- Just what is there can be taken, and nothing can be taken from any balance. -/
theorem adjustBalance_debit_isSome {account : AccountId} {id : AssetId} {amount : ℤ}
    (hnonneg : 0 ≤ amount) : (l.adjustBalance account ⟨-amount, id⟩).isSome ↔
      amount = 0 ∨ amount ≤ l.getBalance account id := by
  rcases eq_or_ne amount 0 with rfl | hne
  · simp [adjustBalance]
  · have hpos : 0 < amount := by omega
    by_cases hle : amount ≤ l.getBalance account id
    · simp [l.adjustBalance_sufficient hle hpos, hle]
    · simp [l.adjustBalance_insufficient (not_le.1 hle) hpos, hle, hne]

/-- What is added is there afterwards. -/
theorem adjustBalance_credit {account : AccountId} {delta : Asset} (hpos : 0 < delta.amount) :
    l.adjustBalance account delta =
      some (l.setBalance account delta.assetId
        (l.getBalance account delta.assetId + delta.amount)) := by
  rw [adjustBalance, getBalance, if_neg hpos.ne']
  cases hb : l.balances account delta.assetId with
  | none =>
    dsimp only
    rw [if_pos hpos, Option.getD_none, zero_add]
  | some balance =>
    dsimp only
    rw [if_neg (by omega), Option.getD_some]

theorem eq_or_setBalance_of_adjustBalance {account : AccountId} {delta : Asset} {l' : Ledger}
    (h : l.adjustBalance account delta = some l') :
    l' = l ∨ ∃ amount, l' = l.setBalance account delta.assetId amount := by
  rw [adjustBalance] at h
  split at h
  case isTrue => exact .inl (Option.some.inj h).symm
  case isFalse =>
    split at h <;> split at h <;> cases h
    · exact .inr ⟨_, rfl⟩
    · exact .inr ⟨_, rfl⟩

variable {l} in
/-- A balance that is adjusted changes by as much, and does not become negative. -/
theorem balances_of_adjustBalance {l' : Ledger} {account : AccountId} {delta : Asset}
    (h : l.adjustBalance account delta = some l') :
    (∃ balances, l' = { l with balances := balances }) ∧
      (∀ a i, l'.getBalance a i =
        l.getBalance a i + if a = account ∧ i = delta.assetId then delta.amount else 0) ∧
      (0 ≤ l.getBalance account delta.assetId → 0 ≤ l'.getBalance account delta.assetId) := by
  obtain ⟨amount, id⟩ := delta
  dsimp only
  have hset : ∀ x, (l.setBalance account id x).getBalance account id = x := by
    intro x
    rw [getBalance_setBalance, if_pos ⟨rfl, rfl⟩]
  have hchanged : ∀ x a i, (l.setBalance account id x).getBalance a i = l.getBalance a i +
      if a = account ∧ i = id then x - l.getBalance account id else 0 := by
    intro x a i
    rw [getBalance_setBalance]
    split_ifs with hai
    · rw [hai.1, hai.2]
      omega
    · rw [add_zero]
  rw [adjustBalance] at h
  dsimp only at h
  split at h
  case isTrue hzero =>
    obtain rfl := Option.some.inj h
    refine ⟨⟨l.balances, rfl⟩, fun a i ↦ ?_, fun h ↦ h⟩
    rw [hzero, ite_self, add_zero]
  case isFalse hne =>
    split at h
    case h_1 hnone =>
      have hget : l.getBalance account id = 0 := by rw [getBalance, hnone, Option.getD_none]
      split at h
      case isTrue hpos =>
        obtain rfl := Option.some.inj h
        refine ⟨⟨_, rfl⟩, fun a i ↦ ?_, fun _ ↦ ?_⟩
        · rw [hchanged, hget, sub_zero]
        · rw [hset]
          exact hpos.le
      case isFalse => cases h
    case h_2 balance hsome =>
      have hget : l.getBalance account id = balance := by rw [getBalance, hsome, Option.getD_some]
      split at h
      case isTrue => cases h
      case isFalse hcovered =>
        obtain rfl := Option.some.inj h
        refine ⟨⟨_, rfl⟩, fun a i ↦ ?_, fun hnonneg ↦ ?_⟩
        · rw [hchanged, hget, add_sub_cancel_left]
        · rw [hset]
          rw [hget] at hnonneg
          omega

/-- `prepare_fee`: `core_fee_paid`. -/
def prepareFee (account : AccountId) (fee : Asset) : Option ℤ := do
  guard (fee.amount ≥ 0)
  let acct ← l.accounts account
  let asset ← l.assets fee.assetId
  guard (isAuthorizedAsset acct fee.assetId asset)
  if fee.assetId = coreAsset then return fee.amount
  else
    let feeFromPool ← fee.mulPrice asset.coreExchangeRate
    guard (feeFromPool.assetId = coreAsset)
    guard (feeFromPool.amount ≤ (l.dynamicData fee.assetId).feePool)
    return feeFromPool.amount

/-- `convert_fee`. -/
def convertFee (flags : EvaluationFlags) (fee : Asset) (coreFeePaid : ℤ) : Ledger :=
  if !flags.skipFee ∧ fee.assetId ≠ coreAsset then
    { l with
      dynamicData := Function.update l.dynamicData fee.assetId
        { l.dynamicData fee.assetId with
          accumulatedFees := (l.dynamicData fee.assetId).accumulatedFees + fee.amount
          feePool := (l.dynamicData fee.assetId).feePool - coreFeePaid } }
  else l

/-- `pay_fee`. -/
def payFee (flags : EvaluationFlags) (account : AccountId) (coreFeePaid : ℤ) : Ledger :=
  if !flags.skipFee then
    { l with
      statistics := Function.update l.statistics account
        ((l.statistics account).payFee coreFeePaid l.cashbackVestingThreshold) }
  else l

/-- `start_evaluate`: `evaluate` and then `apply`, around `do_evaluate` and `do_apply`, for an
operation whose fee has to be `requiredFee`. -/
def startEvaluate (flags : EvaluationFlags) (requiredFee : Option ℤ) (feePayer : AccountId)
    (fee : Asset) (doEvaluate : Ledger → Bool) (doApply : Ledger → Option Ledger) :
    Option Ledger := do
  let coreFeePaid ← l.prepareFee feePayer fee
  guard (flags.skipFeeScheduleCheck ∨ ∃ f ∈ requiredFee, coreFeePaid ≥ f)
  guard (doEvaluate l)
  let l' ← doApply ((l.convertFee flags fee coreFeePaid).payFee flags feePayer coreFeePaid)
  l'.adjustBalance feePayer ⟨-fee.amount, fee.assetId⟩

variable {l} {flags : EvaluationFlags} {requiredFee : Option ℤ} {feePayer : AccountId} {fee : Asset}
  {doEvaluate : Ledger → Bool} {doApply : Ledger → Option Ledger} {l' : Ledger}

/-- The ledger that `do_apply` sees: the fee is credited, and not taken from the payer. -/
def charged (l : Ledger) (flags : EvaluationFlags) (feePayer : AccountId) (fee : Asset)
    (coreFeePaid : ℤ) : Ledger :=
  (l.convertFee flags fee coreFeePaid).payFee flags feePayer coreFeePaid

/-- **All that an evaluator can do.** -/
theorem startEvaluate_spec :
    l.startEvaluate flags requiredFee feePayer fee doEvaluate doApply = some l' ↔
      ∃ coreFeePaid l₁, l.prepareFee feePayer fee = some coreFeePaid ∧
        (flags.skipFeeScheduleCheck = true ∨ ∃ f ∈ requiredFee, f ≤ coreFeePaid) ∧
        doEvaluate l = true ∧ doApply (l.charged flags feePayer fee coreFeePaid) = some l₁ ∧
        l₁.adjustBalance feePayer ⟨-fee.amount, fee.assetId⟩ = some l' := by
  rw [startEvaluate]
  simp only [Option.bind_eq_bind, Option.bind_eq_some_iff, Option.guard_eq_some', charged,
    exists_const]
  constructor
  · rintro ⟨coreFeePaid, hfee, hschedule, heval, l₁, happly, hadjust⟩
    exact ⟨coreFeePaid, l₁, hfee, hschedule, heval, happly, hadjust⟩
  · rintro ⟨coreFeePaid, l₁, hfee, hschedule, heval, happly, hadjust⟩
    exact ⟨coreFeePaid, hfee, hschedule, heval, l₁, happly, hadjust⟩

theorem prepareFee_nonneg {account : AccountId} {fee : Asset} {coreFeePaid : ℤ}
    (h : l.prepareFee account fee = some coreFeePaid) : 0 ≤ fee.amount := by
  simp only [prepareFee, Option.bind_eq_bind, Option.bind_eq_some_iff, Option.guard_eq_some',
    exists_const] at h
  exact h.1

/-- A fee in the core asset is paid as it is. -/
theorem prepareFee_core {account : AccountId} {fee : Asset} (hcore : fee.assetId = coreAsset)
    {coreFeePaid : ℤ} :
    l.prepareFee account fee = some coreFeePaid ↔ coreFeePaid = fee.amount ∧ 0 ≤ fee.amount ∧
      ∃ acct ∈ l.accounts account, ∃ asset ∈ l.assets coreAsset,
        isAuthorizedAsset acct coreAsset asset = true := by
  rw [prepareFee, hcore]
  simp only [Option.bind_eq_bind, Option.bind_eq_some_iff, Option.guard_eq_some', exists_const,
    if_true, Option.mem_def]
  constructor
  · rintro ⟨hfee, acct, hacct, asset, hasset, hauth, hpaid⟩
    exact ⟨(Option.some.inj hpaid).symm, hfee, acct, hacct, asset, hasset, hauth⟩
  · rintro ⟨rfl, hfee, acct, hacct, asset, hasset, hauth⟩
    exact ⟨hfee, acct, hacct, asset, hasset, hauth, rfl⟩

@[simp]
theorem charged_balances (coreFeePaid : ℤ) :
    (l.charged flags feePayer fee coreFeePaid).balances = l.balances := by
  unfold charged payFee convertFee
  split <;> split <;> rfl

@[simp]
theorem charged_migrations (coreFeePaid : ℤ) :
    (l.charged flags feePayer fee coreFeePaid).migrations = l.migrations := by
  unfold charged payFee convertFee
  split <;> split <;> rfl

@[simp]
theorem charged_currentSupply (coreFeePaid : ℤ) (id : AssetId) :
    ((l.charged flags feePayer fee coreFeePaid).dynamicData id).currentSupply =
      (l.dynamicData id).currentSupply := by
  unfold charged payFee convertFee
  split <;> split <;> try rfl
  all_goals
    rcases eq_or_ne id fee.assetId with rfl | hid
    · simp
    · simp [Function.update_of_ne hid]

end Ledger

end Graphene
