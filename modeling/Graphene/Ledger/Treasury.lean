import Graphene.Accounts.AccountEvaluator
import Graphene.Ledger.Transfers
import Graphene.Lib.Outputs
import Mathlib.Data.Fintype.Defs

/-!
# Fees that are set aside, and what is held out of sight

Beside the balances of accounts, the ledger has fee pools, fees that an asset has accumulated for
its issuer, fees that go to a fee backed asset, and blinded balances of which only a commitment is
known.

* `Treasury` — the state of transfers, with all of these.
* `Treasury.isConfigured`, `Treasury.payFbaFee`, `Treasury.distributeFbaBalances` — a fee backed
  asset: when it takes fees, and how they are paid out at maintenance.
* `Treasury.fundFeePool`, `Treasury.claimFees` — the evaluators of the fee pool of an asset and of
  its accumulated fees.
-/

set_option autoImplicit false

namespace Graphene

open Registration (SpecialAuthority hundredPercentOfFee)

/-! ## The state -/

/-- What there is in an `asset_object` about its flags and who buys it back. -/
structure AssetIssue where
  /-- `is_market_issued`. -/
  isMarketIssued : Bool
  /-- `issuer_permissions`. -/
  issuerPermissions : ℕ
  /-- The flag `charge_market_fee`. -/
  chargeMarketFee : Bool
  /-- The flag `disable_force_settle`. -/
  disableForceSettle : Bool
  /-- The flag `global_settle`. -/
  globalSettle : Bool
  /-- The flag `disable_confidential`. -/
  disableConfidential : Bool
  /-- The flag `witness_fed_asset`. -/
  witnessFedAsset : Bool
  /-- The flag `committee_fed_asset`. -/
  committeeFedAsset : Bool
  /-- `buyback_account`. -/
  buybackAccount : Option AccountId

/-- What there is in an `account_object` about the holders of an asset that control it. -/
structure TopNControl where
  /-- `owner_special_authority`. -/
  ownerSpecialAuthority : SpecialAuthority
  /-- `active_special_authority`. -/
  activeSpecialAuthority : SpecialAuthority
  /-- `top_n_control_flags`. -/
  topNControlFlags : ℕ

/-- `fba_accumulator_id_type`, one for each object there is. -/
inductive FbaAccumulatorId where
  /-- `fba_accumulator_id_transfer_to_blind`. -/
  | transferToBlind
  /-- `fba_accumulator_id_blind_transfer`. -/
  | blindTransfer
  /-- `fba_accumulator_id_transfer_from_blind`. -/
  | transferFromBlind
deriving DecidableEq

instance : Fintype FbaAccumulatorId where
  elems := {.transferToBlind, .blindTransfer, .transferFromBlind}
  complete id := by cases id <;> simp

/-- `fba_accumulator_object`. -/
structure FbaAccumulator where
  /-- `accumulated_fba_fees`. -/
  accumulatedFbaFees : ℤ
  /-- `designated_asset`. -/
  designatedAsset : Option AssetId

/-- `blinded_balance_object`, but for its `commitment`. -/
structure BlindedBalance (K : Type) where
  /-- `asset_id`. -/
  assetId : AssetId
  /-- `owner`. -/
  owner : Authority K

/-- What evaluators read and write: keys are of type `K`, commitments of type `C`. -/
structure Treasury (K C : Type) extends TransferState where
  /-- The flags of the assets. -/
  issues : AssetId → AssetIssue
  /-- Who controls the accounts. -/
  control : AccountId → TopNControl
  /-- The `fba_accumulator_object`s. -/
  fbas : FbaAccumulatorId → FbaAccumulator
  /-- `confidential_supply` of the `asset_dynamic_data_object`s. -/
  confidentialSupply : AssetId → ℤ
  /-- The `blinded_balance_object`s by `by_commitment`. -/
  blinded : Outputs C (BlindedBalance K)

/-- The bit of a flag. -/
def flagBit (b : Bool) (bit : ℕ) : ℕ := if b then bit else 0

namespace Treasury

variable {K C : Type} (s : Treasury K C)

/-- `options.flags` of an asset. -/
def flags (a : AssetId) : ℕ :=
  let issue := s.issues a
  flagBit issue.chargeMarketFee 0x01 |||
    flagBit ((s.ledger.assets a).any AssetObject.whiteList) 0x02 |||
    flagBit (s.rules a).overrideAuthority 0x04 ||| flagBit (s.rules a).transferRestricted 0x08 |||
    flagBit issue.disableForceSettle 0x10 ||| flagBit issue.globalSettle 0x20 |||
    flagBit issue.disableConfidential 0x40 ||| flagBit issue.witnessFedAsset 0x80 |||
    flagBit issue.committeeFedAsset 0x100

/-- The ledger becomes `l`. -/
def setLedger (l : Ledger) : Treasury K C := { s with ledger := l }

/-- The data of an asset becomes what `f` makes of it. -/
def modifyDynamicData (a : AssetId) (f : AssetDynamicData → AssetDynamicData) : Treasury K C :=
  s.setLedger { s.ledger with
    dynamicData := Function.update s.ledger.dynamicData a (f (s.ledger.dynamicData a)) }

/-- `accumulated_fba_fees` becomes `fees`. -/
def setFba (id : FbaAccumulatorId) (fees : ℤ) : Treasury K C :=
  { s with fbas := Function.update s.fbas id { s.fbas id with accumulatedFbaFees := fees } }

/-- `adjust_balance`. -/
def adjustBalance (account : AccountId) (delta : Asset) : Option (Treasury K C) :=
  (s.ledger.adjustBalance account delta).map s.setLedger

/-- A change of `confidential_supply`, which may not become negative. -/
def adjustConfidentialSupply (a : AssetId) (delta : ℤ) : Option (Treasury K C) := do
  let supply ← shareType (s.confidentialSupply a + delta)
  guard (supply ≥ 0)
  return { s with confidentialSupply := Function.update s.confidentialSupply a supply }

/-! ## Fee backed assets -/

/-- `is_configured`. -/
def isConfigured (fba : FbaAccumulator) : Bool :=
  fba.designatedAsset.any fun a ↦
    let issue := s.issues a
    let issuer := s.control (s.rules a).issuer
    (s.ledger.assets a).isSome && !issue.isMarketIssued &&
      issue.issuerPermissions &&& 0x01 = issue.issuerPermissions &&
      s.flags a &&& 0x01 = s.flags a && issue.buybackAccount.isSome &&
      (match issuer.ownerSpecialAuthority with
        | .topHolders asset _ => asset = a
        | .noSpecialAuthority => false) &&
      (match issuer.activeSpecialAuthority with
        | .topHolders asset _ => asset = a
        | .noSpecialAuthority => false) &&
      issuer.topNControlFlags = 1 ||| 2

/-- `pay_fba_fee`: there is no look at `skip_fee` where the fee goes to the fee backed asset. -/
def payFbaFee (flags : EvaluationFlags) (account : AccountId) (coreFeePaid : ℤ)
    (id : FbaAccumulatorId) : Option (Treasury K C) :=
  if !s.isConfigured (s.fbas id) then some (s.setLedger (s.ledger.payFee flags account coreFeePaid))
  else (shareType ((s.fbas id).accumulatedFbaFees + coreFeePaid)).map (s.setFba id)

/-- A part of fees that are not negative, which become a `uint128_t`. -/
def percentOf (fees : ℤ) (percent : ℕ) : ℤ := fees * percent / hundredPercentOfFee

/-- `split_fba_balance`, `percents` being `network_pct`, `designated_asset_buyback_pct` and
`designated_asset_issuer_pct`. -/
def splitFbaBalance (id : FbaAccumulatorId) (percents : ℕ × ℕ × ℕ) : Option (Treasury K C) := do
  let (networkPct, buybackPct, issuerPct) := percents
  guard (networkPct + buybackPct + issuerPct = hundredPercentOfFee)
  let fba := s.fbas id
  let fees := fba.accumulatedFbaFees
  if fees = 0 then return s
  if !s.isConfigured fba then
    return (s.modifyDynamicData coreAsset fun d ↦
      { d with currentSupply := d.currentSupply - fees }).setFba id 0
  let buybackAmount := percentOf fees buybackPct
  let issuerAmount := percentOf fees issuerPct
  guard (buybackAmount + issuerAmount ≤ fees)
  let networkAmount := fees - (buybackAmount + issuerAmount)
  let designatedAsset ← fba.designatedAsset
  let buybackAccount ← (s.issues designatedAsset).buybackAccount
  let s := if networkAmount ≠ 0 then
      s.modifyDynamicData coreAsset fun d ↦
        { d with currentSupply := d.currentSupply - networkAmount }
    else s
  let s ← s.adjustBalance buybackAccount ⟨buybackAmount, coreAsset⟩
  let s ← s.adjustBalance (s.rules designatedAsset).issuer ⟨issuerAmount, coreAsset⟩
  return s.setFba id 0

/-- The parts of the network, of the account that buys back, and of the issuer. -/
def fbaPercents : ℕ × ℕ × ℕ :=
  (20 * (hundredPercentOfFee / 100), 60 * (hundredPercentOfFee / 100),
    20 * (hundredPercentOfFee / 100))

/-- `distribute_fba_balances`. -/
def distributeFbaBalances : Option (Treasury K C) := do
  let s ← s.splitFbaBalance .transferToBlind fbaPercents
  let s ← s.splitFbaBalance .blindTransfer fbaPercents
  s.splitFbaBalance .transferFromBlind fbaPercents

/-! ## The fees of an asset -/

/-- `asset_fund_fee_pool_evaluator::do_evaluate`. -/
def evaluateFundFeePool (a : AssetId) : Option Unit := guard (s.ledger.assets a).isSome

/-- `asset_fund_fee_pool_evaluator::do_apply`. -/
def fundFeePool (fromAccount : AccountId) (a : AssetId) (amount : ℤ) : Option (Treasury K C) := do
  let s ← s.adjustBalance fromAccount ⟨-amount, coreAsset⟩
  let feePool ← shareType ((s.ledger.dynamicData a).feePool + amount)
  return s.modifyDynamicData a fun d ↦ { d with feePool := feePool }

/-- `asset_claim_fees_evaluator::do_evaluate`. -/
def evaluateClaimFees (issuer : AccountId) (amountToClaim : Asset) : Option Unit := do
  guard (s.headBlockTime < hardfork1Time)
  guard (s.ledger.assets amountToClaim.assetId).isSome
  guard ((s.rules amountToClaim.assetId).issuer = issuer)

/-- `asset_claim_fees_evaluator::do_apply`. -/
def claimFees (issuer : AccountId) (amountToClaim : Asset) : Option (Treasury K C) := do
  let fees := (s.ledger.dynamicData amountToClaim.assetId).accumulatedFees
  guard (amountToClaim.amount ≤ fees)
  let s := s.modifyDynamicData amountToClaim.assetId fun d ↦
    { d with accumulatedFees := fees - amountToClaim.amount }
  s.adjustBalance issuer amountToClaim

end Treasury

end Graphene
