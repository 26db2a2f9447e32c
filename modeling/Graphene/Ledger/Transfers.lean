import Graphene.Ledger.Fees
import Graphene.Proposals.Proposal

/-!
# Moving an asset from one account to another

Three operations debit an account and credit another by the order of one party: a transfer, the
override transfer of an issuer, and the claim of a withdraw permission.  Each of their evaluators
checks on its own who may use the asset.

* `TransferState` — balances, the rules of assets, and the withdraw permissions.
* `TransferOperation`, `TransferState.doEvaluate`, `TransferState.doApply` — the evaluators, with
  those that create, update and delete a withdraw permission.
* `TransferState.applyOperation` — an operation with its fee.
* `TransferState.whitelist_enforced` — an operation that succeeds moves the asset between accounts
  that may use it, exactly if a claim that passes its checks takes from one that may.
* `TransferState.claim_from_blacklisted` — a claim that does not.
-/

set_option autoImplicit false

namespace Graphene

/-! ## The state -/

/-- What there is in an `asset_object` about who may move it. -/
structure TransferRules where
  /-- `issuer`. -/
  issuer : AccountId
  /-- The flag `transfer_restricted`. -/
  transferRestricted : Bool
  /-- The flag `override_authority`. -/
  overrideAuthority : Bool

/-- `withdraw_permission_id_type`. -/
abbrev WithdrawPermissionId := ℕ

/-- `withdraw_permission_object`. -/
structure WithdrawPermission where
  /-- `withdraw_from_account`. -/
  withdrawFromAccount : AccountId
  /-- `authorized_account`. -/
  authorizedAccount : AccountId
  /-- `withdrawal_limit`. -/
  withdrawalLimit : Asset
  /-- `withdrawal_period_sec`. -/
  withdrawalPeriodSec : ℕ
  /-- `period_start_time`. -/
  periodStartTime : ℕ
  /-- `expiration`. -/
  expiration : ℕ
  /-- `claimed_this_period`. -/
  claimedThisPeriod : ℤ := 0

/-- `available_this_period`; the end of the period is a `time_point_sec`. -/
def WithdrawPermission.availableThisPeriod (p : WithdrawPermission) (currentTime : ℕ) : Asset :=
  if currentTime ≥ (p.periodStartTime + p.withdrawalPeriodSec) % 2 ^ 32 then p.withdrawalLimit
  else
    { amount :=
        if p.withdrawalLimit.amount > p.claimedThisPeriod then
          p.withdrawalLimit.amount - p.claimedThisPeriod
        else 0
      assetId := p.withdrawalLimit.assetId }

/-- The period of a permission at the time of a claim, and what has been claimed in it after a claim
of `amount`. -/
def WithdrawPermission.claim (p : WithdrawPermission) (headBlockTime : ℕ) (amount : ℤ) :
    Option WithdrawPermission := do
  let periods := ((headBlockTime : ℤ) - p.periodStartTime).tdiv p.withdrawalPeriodSec
  let start := (p.periodStartTime + periods * p.withdrawalPeriodSec) % 2 ^ 32
  let claimed ← (if periods = 0 then shareType (p.claimedThisPeriod + amount) else some amount)
  return { p with periodStartTime := start.toNat, claimedThisPeriod := claimed }

/-- What the evaluators read and write. -/
structure TransferState where
  /-- Balances, accounts and assets. -/
  ledger : Ledger
  /-- `block_interval` of the chain parameters. -/
  blockInterval : ℕ
  /-- The rules of the assets. -/
  rules : AssetId → TransferRules
  /-- The `withdraw_permission_object`s. -/
  permissions : WithdrawPermissionId → Option WithdrawPermission
  /-- The id of the next one. -/
  nextPermission : WithdrawPermissionId

/-! ## Operations -/

/-- The terms of a withdraw permission, in the operations that create and update one. -/
structure WithdrawTerms where
  /-- `withdraw_from_account`. -/
  withdrawFromAccount : AccountId
  /-- `authorized_account`. -/
  authorizedAccount : AccountId
  /-- `withdrawal_limit`. -/
  withdrawalLimit : Asset
  /-- `withdrawal_period_sec`. -/
  withdrawalPeriodSec : ℕ
  /-- `periods_until_expiration`. -/
  periodsUntilExpiration : ℕ
  /-- `period_start_time`. -/
  periodStartTime : ℕ
deriving DecidableEq

/-- `period_start_time + periods_until_expiration * withdrawal_period_sec`: a product of `uint32_t`
added to a `time_point_sec`. -/
def WithdrawTerms.expiration (o : WithdrawTerms) : ℕ :=
  (o.periodStartTime + o.periodsUntilExpiration * o.withdrawalPeriodSec % 2 ^ 32) % 2 ^ 32

/-- The operations; each has its fee beside it. -/
inductive TransferOperation where
  /-- `transfer_operation`. -/
  | transfer (source target : AccountId) (amount : Asset)
  /-- `override_transfer_operation`. -/
  | overrideTransfer (issuer source target : AccountId) (amount : Asset)
  /-- `withdraw_permission_create_operation`. -/
  | withdrawPermissionCreate (terms : WithdrawTerms)
  /-- `withdraw_permission_update_operation`. -/
  | withdrawPermissionUpdate (permissionToUpdate : WithdrawPermissionId) (terms : WithdrawTerms)
  /-- `withdraw_permission_claim_operation`. -/
  | withdrawPermissionClaim (withdrawPermission : WithdrawPermissionId)
      (withdrawFromAccount withdrawToAccount : AccountId) (amountToWithdraw : Asset)
  /-- `withdraw_permission_delete_operation`. -/
  | withdrawPermissionDelete (withdrawFromAccount authorizedAccount : AccountId)
      (withdrawalPermission : WithdrawPermissionId)

namespace TransferOperation

/-- `fee_payer`. -/
def feePayer : TransferOperation → AccountId
  | transfer source _ _ => source
  | overrideTransfer issuer _ _ _ => issuer
  | withdrawPermissionCreate terms => terms.withdrawFromAccount
  | withdrawPermissionUpdate _ terms => terms.withdrawFromAccount
  | withdrawPermissionClaim _ _ target _ => target
  | withdrawPermissionDelete source _ _ => source

/-- `validate`, but for the fee. -/
def validate : TransferOperation → Bool
  | transfer source target amount => source ≠ target && amount.amount > 0
  | overrideTransfer issuer source target amount =>
    source ≠ target && amount.amount > 0 && issuer ≠ source
  | withdrawPermissionCreate terms =>
    terms.withdrawFromAccount ≠ terms.authorizedAccount && terms.withdrawalLimit.amount > 0 &&
      terms.withdrawalPeriodSec > 0 && terms.periodsUntilExpiration > 0
  | withdrawPermissionUpdate _ terms =>
    terms.withdrawalLimit.amount > 0 && terms.withdrawalPeriodSec > 0 &&
      terms.withdrawFromAccount ≠ terms.authorizedAccount && terms.periodsUntilExpiration > 0
  | withdrawPermissionClaim _ source target amount => target ≠ source && amount.amount > 0
  | withdrawPermissionDelete source authorized _ => source ≠ authorized

/-- Whom an operation debits, whom it credits, and what it moves. -/
def moves : TransferOperation → Option (AccountId × AccountId × Asset)
  | transfer source target amount => some (source, target, amount)
  | overrideTransfer _ source target amount => some (source, target, amount)
  | withdrawPermissionClaim _ source target amount => some (source, target, amount)
  | _ => none

end TransferOperation

/-! ## Evaluators -/

namespace TransferState

variable (s : TransferState)

/-- `head_block_time`. -/
def headBlockTime : ℕ := s.ledger.headBlockTime

/-- `transfer_evaluator::do_evaluate`. -/
def evaluateTransfer (source target : AccountId) (amount : Asset) : Option Unit := do
  guard (s.headBlockTime < hardfork1Time)
  let fromAccount ← s.ledger.accounts source
  let toAccount ← s.ledger.accounts target
  let assetType ← s.ledger.assets amount.assetId
  guard (isAuthorizedAsset fromAccount amount.assetId assetType)
  guard (isAuthorizedAsset toAccount amount.assetId assetType)
  let rules := s.rules amount.assetId
  guard (rules.transferRestricted → source = rules.issuer ∨ target = rules.issuer)
  guard (s.ledger.getBalance source amount.assetId ≥ amount.amount)

/-- `override_transfer_evaluator::do_evaluate`. -/
def evaluateOverrideTransfer (issuer source target : AccountId) (amount : Asset) : Option Unit := do
  guard (s.headBlockTime < hardfork1Time)
  let assetType ← s.ledger.assets amount.assetId
  guard (s.rules amount.assetId).overrideAuthority
  guard ((s.rules amount.assetId).issuer = issuer)
  let fromAccount ← s.ledger.accounts source
  let toAccount ← s.ledger.accounts target
  guard (isAuthorizedAsset toAccount amount.assetId assetType)
  guard (isAuthorizedAsset fromAccount amount.assetId assetType)
  guard (s.ledger.getBalance source amount.assetId ≥ amount.amount)

/-- What `withdraw_permission_create_evaluator` and `withdraw_permission_update_evaluator` check of
the end and of the length of a period. -/
def checkTerms (terms : WithdrawTerms) : Option Unit := do
  guard (terms.expiration > s.headBlockTime)
  guard (terms.withdrawalPeriodSec ≥ s.blockInterval)

/-- `withdraw_permission_create_evaluator::do_evaluate`. -/
def evaluateCreate (terms : WithdrawTerms) : Option Unit := do
  guard (s.ledger.accounts terms.withdrawFromAccount).isSome
  guard (s.ledger.accounts terms.authorizedAccount).isSome
  guard (s.ledger.assets terms.withdrawalLimit.assetId).isSome
  guard (terms.periodStartTime > s.headBlockTime)
  s.checkTerms terms

/-- `withdraw_permission_update_evaluator::do_evaluate`. -/
def evaluateUpdate (id : WithdrawPermissionId) (terms : WithdrawTerms) : Option Unit := do
  let permit ← s.permissions id
  guard (permit.authorizedAccount = terms.authorizedAccount)
  guard (permit.withdrawFromAccount = terms.withdrawFromAccount)
  guard (s.ledger.assets terms.withdrawalLimit.assetId).isSome
  guard (terms.periodStartTime ≥ s.headBlockTime)
  s.checkTerms terms

/-- `withdraw_permission_claim_evaluator::do_evaluate`. -/
def evaluateClaim (id : WithdrawPermissionId) (source target : AccountId) (amount : Asset) :
    Option Unit := do
  let permit ← s.permissions id
  guard (permit.expiration > s.headBlockTime)
  guard (permit.authorizedAccount = target)
  guard (permit.withdrawFromAccount = source)
  let available := permit.availableThisPeriod s.headBlockTime
  guard (amount.assetId = available.assetId ∧ amount.amount ≤ available.amount)
  guard (s.ledger.getBalance source amount.assetId ≥ amount.amount)
  let asset ← s.ledger.assets amount.assetId
  let rules := s.rules amount.assetId
  guard (rules.transferRestricted →
    rules.issuer = permit.authorizedAccount ∨ rules.issuer = permit.withdrawFromAccount)
  -- `from` in the source
  let fromAccount ← s.ledger.accounts target
  let toAccount ← s.ledger.accounts permit.authorizedAccount
  guard (isAuthorizedAsset toAccount amount.assetId asset)
  guard (isAuthorizedAsset fromAccount amount.assetId asset)

/-- `withdraw_permission_delete_evaluator::do_evaluate`. -/
def evaluateDelete (id : WithdrawPermissionId) (source authorized : AccountId) : Option Unit := do
  let permit ← s.permissions id
  guard (permit.authorizedAccount = authorized)
  guard (permit.withdrawFromAccount = source)

/-- `do_evaluate`. -/
def doEvaluate : TransferOperation → Option Unit
  | .transfer source target amount => s.evaluateTransfer source target amount
  | .overrideTransfer issuer source target amount =>
    s.evaluateOverrideTransfer issuer source target amount
  | .withdrawPermissionCreate terms => s.evaluateCreate terms
  | .withdrawPermissionUpdate id terms => s.evaluateUpdate id terms
  | .withdrawPermissionClaim id source target amount => s.evaluateClaim id source target amount
  | .withdrawPermissionDelete source authorized id => s.evaluateDelete id source authorized

/-- Two balances are adjusted, one after the other. -/
def move (source target : AccountId) (amount : Asset) : Option TransferState := do
  let l ← s.ledger.adjustBalance source ⟨-amount.amount, amount.assetId⟩
  let l ← l.adjustBalance target amount
  return { s with ledger := l }

/-- The permission `id` becomes `permit`. -/
def setPermission (id : WithdrawPermissionId) (permit : Option WithdrawPermission) :
    TransferState :=
  { s with permissions := Function.update s.permissions id permit }

/-- `do_apply`. -/
def doApply : TransferOperation → Option TransferState
  | .transfer source target amount => s.move source target amount
  | .overrideTransfer _ source target amount => s.move source target amount
  | .withdrawPermissionCreate terms =>
    some { s.setPermission s.nextPermission (some
      { withdrawFromAccount := terms.withdrawFromAccount
        authorizedAccount := terms.authorizedAccount
        withdrawalLimit := terms.withdrawalLimit
        withdrawalPeriodSec := terms.withdrawalPeriodSec
        periodStartTime := terms.periodStartTime
        expiration := terms.expiration }) with nextPermission := s.nextPermission + 1 }
  | .withdrawPermissionUpdate id terms => do
    let permit ← s.permissions id
    return s.setPermission id (some { permit with
      periodStartTime := terms.periodStartTime
      expiration := terms.expiration
      withdrawalLimit := terms.withdrawalLimit
      withdrawalPeriodSec := terms.withdrawalPeriodSec })
  | .withdrawPermissionClaim id source target amount => do
    let permit ← s.permissions id
    let permit ← permit.claim s.headBlockTime amount.amount
    (s.setPermission id (some permit)).move source target amount
  | .withdrawPermissionDelete _ _ id => some (s.setPermission id none)

/-- An operation with its fee, which has to be `requiredFee`: what `start_evaluate` does, as in
`Ledger.startEvaluate`. -/
def applyOperation (flags : EvaluationFlags) (requiredFee : Option ℤ) (op : TransferOperation)
    (fee : Asset) : Option TransferState := do
  guard op.validate
  let coreFeePaid ← s.ledger.prepareFee op.feePayer fee
  guard (flags.skipFeeScheduleCheck ∨ ∃ f ∈ requiredFee, coreFeePaid ≥ f)
  s.doEvaluate op
  let charged := { s with ledger := s.ledger.charged flags op.feePayer fee coreFeePaid }
  let s' ← charged.doApply op
  let l ← s'.ledger.adjustBalance op.feePayer ⟨-fee.amount, fee.assetId⟩
  return { s' with ledger := l }

/-! ## Who may use the asset -/

/-- `is_authorized_asset` of an account and an asset that exist. -/
def Authorized (account : AccountId) (id : AssetId) : Prop :=
  ∃ acct ∈ s.ledger.accounts account, ∃ asset ∈ s.ledger.assets id,
    isAuthorizedAsset acct id asset = true

/-- An operation that succeeds moves the asset between accounts that may use it. -/
def Enforced (flags : EvaluationFlags) (requiredFee : Option ℤ) (op : TransferOperation)
    (fee : Asset) : Prop :=
  ∀ source target amount, op.moves = some (source, target, amount) →
    (s.applyOperation flags requiredFee op fee).isSome →
      s.Authorized source amount.assetId ∧ s.Authorized target amount.assetId

/-- What a claim is checked for. -/
structure Claimable (flags : EvaluationFlags) (requiredFee : Option ℤ) (fee : Asset)
    (id : WithdrawPermissionId) (source target : AccountId) (amount : Asset) : Prop where
  /-- It does not go back to the account it comes from. -/
  target_ne : target ≠ source
  /-- It is not empty. -/
  amount_pos : 0 < amount.amount
  /-- The fee can be paid in its asset, and is enough. -/
  coreFee : ∃ coreFeePaid, s.ledger.prepareFee target fee = some coreFeePaid ∧
    (flags.skipFeeScheduleCheck = true ∨ ∃ f ∈ requiredFee, f ≤ coreFeePaid)
  /-- There is a permission for it, which has not expired and allows the amount. -/
  permission : ∃ permit ∈ s.permissions id, s.headBlockTime < permit.expiration ∧
    permit.authorizedAccount = target ∧ permit.withdrawFromAccount = source ∧
      amount.assetId = permit.withdrawalLimit.assetId ∧
        amount.amount ≤ (permit.availableThisPeriod s.headBlockTime).amount ∧
          (permit.claim s.headBlockTime amount.amount).isSome
  /-- The balance suffices. -/
  balance : amount.amount ≤ s.ledger.getBalance source amount.assetId
  /-- A restricted asset moves from or to its issuer. -/
  issuer : (s.rules amount.assetId).transferRestricted = true →
    (s.rules amount.assetId).issuer = target ∨ (s.rules amount.assetId).issuer = source
  /-- The account that is credited may use the asset. -/
  target_authorized : s.Authorized target amount.assetId
  /-- It can pay the fee in the end. -/
  feeBalance : fee.amount = 0 ∨ fee.amount ≤ s.ledger.getBalance target fee.assetId +
    if fee.assetId = amount.assetId then amount.amount else 0

variable {s} {flags : EvaluationFlags} {requiredFee : Option ℤ} {fee : Asset}
  {id : WithdrawPermissionId} {source target issuer : AccountId} {amount : Asset}

theorem availableThisPeriod_assetId (p : WithdrawPermission) (currentTime : ℕ) :
    (p.availableThisPeriod currentTime).assetId = p.withdrawalLimit.assetId := by
  rw [WithdrawPermission.availableThisPeriod]
  split <;> rfl

/-- A transfer is between accounts that may use the asset. -/
theorem evaluateTransfer_authorized (h : s.evaluateTransfer source target amount = some ()) :
    s.Authorized source amount.assetId ∧ s.Authorized target amount.assetId := by
  simp only [evaluateTransfer, Option.bind_eq_bind, Option.bind_eq_some_iff, Option.guard_eq_some',
    exists_const] at h
  obtain ⟨-, fromAccount, hfrom, toAccount, hto, assetType, hasset, hfromAuth, htoAuth, -⟩ := h
  exact ⟨⟨fromAccount, hfrom, assetType, hasset, hfromAuth⟩,
    ⟨toAccount, hto, assetType, hasset, htoAuth⟩⟩

/-- So is an override transfer. -/
theorem evaluateOverrideTransfer_authorized
    (h : s.evaluateOverrideTransfer issuer source target amount = some ()) :
    s.Authorized source amount.assetId ∧ s.Authorized target amount.assetId := by
  simp only [evaluateOverrideTransfer, Option.bind_eq_bind, Option.bind_eq_some_iff,
    Option.guard_eq_some', exists_const] at h
  obtain ⟨-, assetType, hasset, -, -, fromAccount, hfrom, toAccount, hto, htoAuth, hfromAuth, -⟩ :=
    h
  exact ⟨⟨fromAccount, hfrom, assetType, hasset, hfromAuth⟩,
    ⟨toAccount, hto, assetType, hasset, htoAuth⟩⟩

/-- What a claim is evaluated for: the account that is credited is looked at twice. -/
theorem evaluateClaim_eq_some : s.evaluateClaim id source target amount = some () ↔
    (∃ permit ∈ s.permissions id, s.headBlockTime < permit.expiration ∧
      permit.authorizedAccount = target ∧ permit.withdrawFromAccount = source ∧
        amount.assetId = permit.withdrawalLimit.assetId ∧
          amount.amount ≤ (permit.availableThisPeriod s.headBlockTime).amount) ∧
      amount.amount ≤ s.ledger.getBalance source amount.assetId ∧
        ((s.rules amount.assetId).transferRestricted = true →
          (s.rules amount.assetId).issuer = target ∨ (s.rules amount.assetId).issuer = source) ∧
            s.Authorized target amount.assetId := by
  simp only [evaluateClaim, Option.bind_eq_bind, Option.bind_eq_some_iff, Option.guard_eq_some',
    exists_const, availableThisPeriod_assetId]
  constructor
  · rintro ⟨permit, hpermit, hexpiration, rfl, rfl, ⟨hid, hamount⟩, hbalance, asset, hasset,
      hissuer, acct, hacct, -, -, -, hauth⟩
    exact ⟨⟨permit, hpermit, hexpiration, rfl, rfl, hid, hamount⟩, hbalance, hissuer, acct, hacct,
      asset, hasset, hauth⟩
  · rintro ⟨⟨permit, hpermit, hexpiration, rfl, rfl, hid, hamount⟩, hbalance, hissuer, acct, hacct,
      asset, hasset, hauth⟩
    exact ⟨permit, hpermit, hexpiration, rfl, rfl, ⟨hid, hamount⟩, hbalance, asset, hasset, hissuer,
      acct, hacct, acct, hacct, hauth, hauth⟩

/-- An amount that is there can be moved to another account. -/
theorem exists_move (hpos : 0 < amount.amount) (hne : target ≠ source)
    (hbalance : amount.amount ≤ s.ledger.getBalance source amount.assetId) :
    ∃ s', s.move source target amount = some s' ∧
      ∀ i, s'.ledger.getBalance target i = s.ledger.getBalance target i +
        if i = amount.assetId then amount.amount else 0 := by
  rw [move, Ledger.adjustBalance_sufficient _ hbalance hpos]
  simp only [Option.bind_eq_bind, Option.bind_some]
  rw [Ledger.adjustBalance_credit _ hpos, Option.bind_some]
  have hkeeps (balance : ℤ) (i : AssetId) :
      (s.ledger.setBalance source amount.assetId balance).getBalance target i =
        s.ledger.getBalance target i := by
    rw [Ledger.getBalance_setBalance, if_neg fun h ↦ hne h.1]
  refine ⟨_, rfl, fun i ↦ ?_⟩
  show Ledger.getBalance _ target i = _
  rw [Ledger.getBalance_setBalance, hkeeps, hkeeps]
  by_cases hi : i = amount.assetId
  · rw [if_pos ⟨rfl, hi⟩, if_pos hi, hi]
  · rw [if_neg fun h ↦ hi h.2, if_neg hi, add_zero]

@[simp]
theorem charged_headBlockTime {l : Ledger} {flags : EvaluationFlags} {feePayer : AccountId}
    {fee : Asset} (coreFeePaid : ℤ) :
    (l.charged flags feePayer fee coreFeePaid).headBlockTime = l.headBlockTime := by
  unfold Ledger.charged Ledger.payFee Ledger.convertFee
  split <;> split <;> rfl

@[simp]
theorem charged_getBalance {l : Ledger} {flags : EvaluationFlags} {feePayer : AccountId}
    {fee : Asset} (coreFeePaid : ℤ) (account : AccountId) (i : AssetId) :
    (l.charged flags feePayer fee coreFeePaid).getBalance account i = l.getBalance account i := by
  rw [Ledger.getBalance, Ledger.charged_balances, Ledger.getBalance]

/-- `do_apply` of a claim, and the fee taken after it. -/
theorem doApply_claim_isSome (hpos : 0 < amount.amount) (hne : target ≠ source)
    (hbalance : amount.amount ≤ s.ledger.getBalance source amount.assetId)
    (hfee : 0 ≤ fee.amount) :
    (∃ s', s.doApply (.withdrawPermissionClaim id source target amount) = some s' ∧
      (s'.ledger.adjustBalance target ⟨-fee.amount, fee.assetId⟩).isSome) ↔
    (∃ permit ∈ s.permissions id, (permit.claim s.headBlockTime amount.amount).isSome) ∧
      (fee.amount = 0 ∨ fee.amount ≤ s.ledger.getBalance target fee.assetId +
        if fee.assetId = amount.assetId then amount.amount else 0) := by
  have hmoved (permit : WithdrawPermission) : ∃ s',
      (s.setPermission id (some permit)).move source target amount = some s' ∧
        ∀ i, s'.ledger.getBalance target i = s.ledger.getBalance target i +
          if i = amount.assetId then amount.amount else 0 :=
    exists_move (s := s.setPermission id (some permit)) hpos hne hbalance
  rw [doApply]
  simp only [Option.bind_eq_bind, Option.bind_eq_some_iff, Option.isSome_iff_exists]
  constructor
  · rintro ⟨s', ⟨permit, hpermit, permit', hclaim, hmove⟩, hadjust⟩
    obtain ⟨s'', hmove', hget⟩ := hmoved permit'
    obtain rfl := Option.some.inj (hmove.symm.trans hmove')
    rw [← Option.isSome_iff_exists, Ledger.adjustBalance_debit_isSome _ hfee, hget] at hadjust
    exact ⟨⟨permit, hpermit, permit', hclaim⟩, hadjust⟩
  · rintro ⟨⟨permit, hpermit, permit', hclaim⟩, hadjust⟩
    obtain ⟨s', hmove, hget⟩ := hmoved permit'
    refine ⟨s', ⟨permit, hpermit, permit', hclaim, hmove⟩, ?_⟩
    rw [← Option.isSome_iff_exists, Ledger.adjustBalance_debit_isSome _ hfee, hget]
    exact hadjust

/-- What an operation goes through. -/
theorem applyOperation_isSome {op : TransferOperation} :
    (s.applyOperation flags requiredFee op fee).isSome ↔ op.validate = true ∧
      ∃ coreFeePaid, s.ledger.prepareFee op.feePayer fee = some coreFeePaid ∧
        (flags.skipFeeScheduleCheck = true ∨ ∃ f ∈ requiredFee, f ≤ coreFeePaid) ∧
        s.doEvaluate op = some () ∧
        ∃ s', { s with ledger := s.ledger.charged flags op.feePayer fee coreFeePaid }.doApply op =
          some s' ∧ (s'.ledger.adjustBalance op.feePayer ⟨-fee.amount, fee.assetId⟩).isSome := by
  simp only [applyOperation, Option.bind_eq_bind, Option.isSome_iff_exists,
    Option.bind_eq_some_iff, Option.guard_eq_some', exists_const]
  constructor
  · rintro ⟨_, hvalid, coreFeePaid, hfee, hschedule, ⟨⟩, heval, s', happly, l, hadjust, -⟩
    exact ⟨hvalid, coreFeePaid, hfee, hschedule, heval, s', happly, l, hadjust⟩
  · rintro ⟨hvalid, coreFeePaid, hfee, hschedule, heval, s', happly, l, hadjust⟩
    exact ⟨_, hvalid, coreFeePaid, hfee, hschedule, (), heval, s', happly, l, hadjust, rfl⟩

/-- **A claim succeeds exactly if it passes its checks**, none of which looks at the account that is
debited. -/
theorem claim_isSome_iff :
    (s.applyOperation flags requiredFee (.withdrawPermissionClaim id source target amount)
      fee).isSome ↔ s.Claimable flags requiredFee fee id source target amount := by
  rw [applyOperation_isSome]
  have hvalidate : (TransferOperation.withdrawPermissionClaim id source target amount).validate =
      true ↔ target ≠ source ∧ 0 < amount.amount := by
    simp [TransferOperation.validate]
  rw [hvalidate]
  constructor
  · rintro ⟨⟨hne, hpos⟩, coreFeePaid, hfee, hschedule, heval, happly⟩
    obtain ⟨⟨permit, hpermit, hexpiration, hto, hfrom, hid, hamount⟩, hbalance, hissuer, hauth⟩ :=
      evaluateClaim_eq_some.1 heval
    obtain ⟨⟨permit', hpermit', hclaim⟩, hfeeBalance⟩ := (doApply_claim_isSome hpos hne
      (by simpa using hbalance) (Ledger.prepareFee_nonneg hfee)).1 happly
    obtain rfl := Option.some.inj (hpermit.symm.trans hpermit')
    exact {
      target_ne := hne
      amount_pos := hpos
      coreFee := ⟨coreFeePaid, hfee, hschedule⟩
      permission := ⟨permit, hpermit, hexpiration, hto, hfrom, hid, hamount,
        by simpa [headBlockTime] using hclaim⟩
      balance := hbalance
      issuer := hissuer
      target_authorized := hauth
      feeBalance := by simpa using hfeeBalance }
  · intro h
    obtain ⟨coreFeePaid, hfee, hschedule⟩ := h.coreFee
    obtain ⟨permit, hpermit, hexpiration, hto, hfrom, hid, hamount, hclaim⟩ := h.permission
    refine ⟨⟨h.target_ne, h.amount_pos⟩, coreFeePaid, hfee, hschedule,
      evaluateClaim_eq_some.2 ⟨⟨permit, hpermit, hexpiration, hto, hfrom, hid, hamount⟩, h.balance,
        h.issuer, h.target_authorized⟩, ?_⟩
    exact (doApply_claim_isSome h.amount_pos h.target_ne (by simpa using h.balance)
      (Ledger.prepareFee_nonneg hfee)).2
        ⟨⟨permit, hpermit, by simpa [headBlockTime] using hclaim⟩, by simpa using h.feeBalance⟩

/-- **The white list is enforced on every path** but one: a claim takes from any account, so that
one which passes its checks has to be from an account that may use the asset. -/
theorem whitelist_enforced (s : TransferState) (flags : EvaluationFlags) (requiredFee : Option ℤ)
    (op : TransferOperation) (fee : Asset) :
    s.Enforced flags requiredFee op fee ↔
      ∀ id source target amount, op = .withdrawPermissionClaim id source target amount →
        s.Claimable flags requiredFee fee id source target amount →
          s.Authorized source amount.assetId := by
  constructor
  · rintro h id source target amount rfl hclaimable
    exact (h source target amount rfl (claim_isSome_iff.2 hclaimable)).1
  · intro h source target amount hmoves hsome
    obtain ⟨-, coreFeePaid, -, -, heval, -⟩ := applyOperation_isSome.1 hsome
    cases op with
    | transfer =>
      cases hmoves
      exact evaluateTransfer_authorized heval
    | overrideTransfer =>
      cases hmoves
      exact evaluateOverrideTransfer_authorized heval
    | withdrawPermissionClaim id =>
      cases hmoves
      have hclaimable := claim_isSome_iff.1 hsome
      exact ⟨h id source target amount rfl hclaimable, hclaimable.target_authorized⟩
    | withdrawPermissionCreate | withdrawPermissionUpdate | withdrawPermissionDelete =>
      cases hmoves

/-! ## A claim from a blacklisted account -/

/-- An account, and who blacklists it. -/
def accountOf (blacklistingAccounts : Finset AccountId) : AccountObject :=
  { allowedAssets := none, blacklistingAccounts, whitelistingAccounts := ∅ }

/-- An asset, with the flag `white_list`, and whose blacklists count for it. -/
def assetOf (whiteList : Bool) (blacklistAuthorities : Finset AccountId) : AssetObject :=
  { whiteList, blacklistAuthorities, whitelistAuthorities := ∅
    coreExchangeRate := ⟨⟨1, 0⟩, ⟨1, 0⟩⟩ }

/-- Account 1 is blacklisted by account 9, whose blacklist counts for the asset 3, and lets account
2 withdraw 10 of it. -/
def blacklisted : TransferState where
  ledger :=
    { headBlockTime := 100
      cashbackVestingThreshold := 0
      accounts := fun a ↦ if a = 1 then some (accountOf {9}) else
        if a = 2 then some (accountOf ∅) else none
      statistics := fun _ ↦ ⟨0, 0⟩
      assets := fun i ↦ if i = 0 then some (assetOf false ∅) else
        if i = 3 then some (assetOf true {9}) else none
      dynamicData := fun _ ↦ ⟨0, 0, 0⟩
      balances := fun a i ↦ if a = 1 ∧ i = 3 then some 10 else none
      migrations := [] }
  blockInterval := 3
  rules := fun _ ↦ ⟨9, false, false⟩
  permissions := fun i ↦ if i = 0 then some
    { withdrawFromAccount := 1
      authorizedAccount := 2
      withdrawalLimit := ⟨10, 3⟩
      withdrawalPeriodSec := 60
      periodStartTime := 90
      expiration := 150 } else none
  nextPermission := 1

/-- **A claim from a blacklisted account succeeds**: the evaluator looks at the account that is
credited in the place of the one that is debited. -/
theorem claim_from_blacklisted : ∃ (s : TransferState) (op : TransferOperation)
    (source target : AccountId) (amount : Asset), op.moves = some (source, target, amount) ∧
      (∃ asset ∈ s.ledger.assets amount.assetId, asset.whiteList = true) ∧
        ¬ s.Enforced ⟨false, false⟩ (some 0) op ⟨0, coreAsset⟩ := by
  refine ⟨blacklisted, .withdrawPermissionClaim 0 1 2 ⟨10, 3⟩, 1, 2, ⟨10, 3⟩, rfl,
    ⟨assetOf true {9}, rfl, rfl⟩, fun h ↦ ?_⟩
  obtain ⟨⟨acct, hacct, asset, hasset, hauth⟩, -⟩ := h 1 2 ⟨10, 3⟩ rfl (by decide +kernel)
  obtain rfl := Option.some.inj hacct
  obtain rfl := Option.some.inj hasset
  exact absurd hauth (by decide)

end TransferState

end Graphene
