import Graphene.Vesting.Policy

/-!
# Withdrawals from a linear vesting balance

A linear policy is made by `vesting_balance_create_evaluator` or for a balance of the genesis state.
What it frees is withdrawn by `vesting_balance_withdraw_operation` in the first case, and by
`balance_claim_operation` in the second.

What has vested is worked out from the balance at the beginning, and a withdrawal lowers the balance
of the present; so the invariant relates the two by what has been withdrawn, and an amount that is
not checked to be positive is enough to break it.

* `LinearState.step` — both operations, as they are validated and evaluated.
* `LinearVestingPolicy.vestedBy` — what has vested: nothing before the cliff, a proportion, all of
  it.
* `LinearVestingPolicy.getAllowedWithdraw_eq` — what may be withdrawn is what has vested and has not
  been withdrawn.
* `LinearState.Inv` — what withdrawals keep, `LinearState.Inv.step`.
* `linear_vesting_bounds_withdrawals` — a run withdraws no more than has vested, and everything in
  the end.
* `negative_claim_breaks_assertion` — a claim that pays in.
-/

set_option autoImplicit false

namespace Graphene

open Transitions

/-! ## The operations -/

/-- `linear_vesting_policy_initializer`. -/
structure LinearVestingPolicyInitializer where
  /-- `begin_timestamp`. -/
  beginTimestamp : UInt32
  /-- `vesting_cliff_seconds`. -/
  vestingCliffSeconds : UInt32
  /-- `vesting_duration_seconds`. -/
  vestingDurationSeconds : UInt32

/-- What `init_policy_visitor` makes of an initializer. -/
def LinearVestingPolicyInitializer.policy (i : LinearVestingPolicyInitializer) (initBalance : ℤ) :
    LinearVestingPolicy :=
  ⟨i.beginTimestamp, i.vestingCliffSeconds, i.vestingDurationSeconds, initBalance⟩

/-- `balance_object`. -/
structure BalanceObject where
  /-- `owner`, an address. -/
  owner : ℕ
  /-- `balance`. -/
  balance : Asset
  /-- `vesting_policy`. -/
  vestingPolicy : Option LinearVestingPolicy
  /-- `last_claim_date`. -/
  lastClaimDate : UInt32

/-- `vesting_balance_withdraw_operation`. -/
structure VestingBalanceWithdrawOperation where
  /-- `fee`. -/
  fee : Asset
  /-- `owner`. -/
  owner : AccountId
  /-- `amount`. -/
  amount : Asset

/-- `balance_claim_operation`. -/
structure BalanceClaimOperation where
  /-- `fee`. -/
  fee : Asset
  /-- `deposit_to_account`. -/
  depositToAccount : AccountId
  /-- `balance_owner_key == public_key_type()`. -/
  keyIsNull : Bool
  /-- The address of `balance_owner_key`, and its four `pts_address`es. -/
  addresses : List ℕ
  /-- `total_claimed`. -/
  totalClaimed : Asset

/-- `vesting_balance_withdraw_operation::validate`. -/
def VestingBalanceWithdrawOperation.validate (op : VestingBalanceWithdrawOperation) :
    Except Fault Unit := do
  check (0 ≤ op.fee.amount) .thrown
  check (0 < op.amount.amount) .thrown

/-- `balance_claim_operation::validate`. -/
def BalanceClaimOperation.validate (op : BalanceClaimOperation) : Except Fault Unit := do
  check (op.fee = ⟨0, coreAsset⟩) .thrown
  check (!op.keyIsNull) .thrown

/-- Seconds of a day. -/
def secondsPerDay : ℤ := 86400

/-- `vesting_balance_withdraw_evaluator`. -/
def VestingBalanceWithdrawOperation.evaluate (op : VestingBalanceWithdrawOperation)
    (vbo : VestingBalanceObject) (l : Ledger) (now : UInt32) :
    Except Fault (VestingBalanceObject × Ledger) := do
  check (op.owner = vbo.owner) .thrown
  check (← vbo.isWithdrawAllowed now op.amount) .thrown
  assertion ((← op.amount.atMost vbo.balance) = true)
  check (l.accounts op.owner).isSome .thrown
  let vbo ← vbo.withdraw now op.amount
  let l ← orThrow (l.adjustBalance op.owner op.amount) .thrown
  .ok (vbo, l)

/-- `do_evaluate` of `balance_claim_evaluator`; the asset is not compared if signatures are not
checked. -/
def BalanceClaimOperation.doEvaluate (op : BalanceClaimOperation) (b : BalanceObject)
    (skipSignatures : Bool) (now : UInt32) : Except Fault Unit := do
  check (op.addresses.contains b.owner) .thrown
  check (skipSignatures || op.totalClaimed.assetId = b.balance.assetId) .thrown
  match b.vestingPolicy with
  | some p => do
    check (← p.isWithdrawAllowed ⟨b.balance, now, op.totalClaimed⟩) .thrown
    check (secondsPerDay ≤ (now.toNat : ℤ) - b.lastClaimDate.toNat) .thrown
  | none => check (op.totalClaimed = b.balance) .thrown

/-- What `do_apply` of `balance_claim_evaluator` leaves: nothing, if all is claimed. -/
def BalanceClaimOperation.leaves (op : BalanceClaimOperation) (b : BalanceObject) (now : UInt32) :
    Except Fault (Option BalanceObject) :=
  match b.vestingPolicy with
  | some _ => do
    if ← orThrow (op.totalClaimed.less b.balance) .thrown then
      .ok (some { b with balance := ← b.balance.minus op.totalClaimed, lastClaimDate := now })
    else .ok none
  | none => .ok none

/-- `do_apply` of `balance_claim_evaluator`. -/
def BalanceClaimOperation.doApply (op : BalanceClaimOperation) (b : BalanceObject) (l : Ledger)
    (now : UInt32) : Except Fault (Option BalanceObject × Ledger) := do
  let left ← op.leaves b now
  let l ← orThrow (l.adjustBalance op.depositToAccount op.totalClaimed) .thrown
  .ok (left, l)

/-! ## Runs -/

/-- What holds the shares. -/
inductive Holding where
  /-- A `vesting_balance_object`. -/
  | vestingBalance (vbo : VestingBalanceObject)
  /-- A `balance_object`. -/
  | balanceObject (b : BalanceObject)
  /-- The `balance_object` has been removed. -/
  | removed

/-- The policy, and the balance. -/
def Holding.held : Holding → Option (LinearVestingPolicy × Asset)
  | .vestingBalance ⟨_, balance, .linear p⟩ => some (p, balance)
  | .vestingBalance ⟨_, _, .cdd _⟩ => none
  | .balanceObject b => b.vestingPolicy.map (·, b.balance)
  | .removed => none

/-- The shares that are left. -/
def Holding.left (k : Holding) : ℤ := (k.held.map fun held ↦ held.2.amount).getD 0

/-- The shares, with the accounts that they are paid to, and the time of the last operation. -/
structure LinearState where
  /-- What holds the shares. -/
  holding : Holding
  /-- The accounts, with their balances. -/
  ledger : Ledger
  /-- `head_block_time()`. -/
  time : UInt32

/-- An operation on it. -/
inductive LinearOperation where
  /-- `vesting_balance_withdraw_operation`. -/
  | withdraw (op : VestingBalanceWithdrawOperation)
  /-- `balance_claim_operation`. -/
  | claim (op : BalanceClaimOperation) (skipSignatures : Bool)

/-- What an operation asks for. -/
def LinearOperation.amount : LinearOperation → ℤ
  | .withdraw op => op.amount.amount
  | .claim op _ => op.totalClaimed.amount

/-- An operation, and the time of the block that it is in. -/
structure LinearCall where
  /-- The operation. -/
  operation : LinearOperation
  /-- The time. -/
  now : UInt32

namespace LinearState

/-- An operation is validated and evaluated. -/
def step (s : LinearState) (c : LinearCall) : Except Fault LinearState :=
  if s.time ≤ c.now then
    match s.holding, c.operation with
    | .vestingBalance vbo, .withdraw op => do
      op.validate
      let (vbo, ledger) ← op.evaluate vbo s.ledger c.now
      .ok ⟨.vestingBalance vbo, ledger, c.now⟩
    | .balanceObject b, .claim op skipSignatures => do
      op.validate
      op.doEvaluate b skipSignatures c.now
      let (left, ledger) ← op.doApply b s.ledger c.now
      .ok ⟨(left.map Holding.balanceObject).getD .removed, ledger, c.now⟩
    | _, _ => .error .thrown
  else .error .thrown

/-- The state after an operation that is accepted. -/
def next (s : LinearState) (c : LinearCall) : Option LinearState := (s.step c).toOption

/-- The policies that are made, with what holds the shares at first. -/
inductive Created : LinearVestingPolicy → LinearState → Prop
  /-- By `vesting_balance_create_evaluator`. -/
  | byOperation (i : LinearVestingPolicyInitializer) (owner : AccountId) (amount : Asset)
    (ledger : Ledger) (now : UInt32) (hpos : 0 < amount.amount)
    (hmax : amount.amount ≤ maxShareSupply) :
    Created (i.policy amount.amount)
      ⟨.vestingBalance ⟨owner, amount, .linear (i.policy amount.amount)⟩, ledger, now⟩
  /-- By `init_genesis`. -/
  | atGenesis (owner : ℕ) (amount : Asset) (beginTimestamp vestingDurationSeconds : UInt32)
    (beginBalance : ℤ) (ledger : Ledger) (now : UInt32) (hamount : FitsInt64 amount.amount)
    (hbegin : FitsInt64 beginBalance) :
    Created ⟨beginTimestamp, 0, vestingDurationSeconds, beginBalance⟩
      ⟨.balanceObject ⟨owner, amount,
        some ⟨beginTimestamp, 0, vestingDurationSeconds, beginBalance⟩, 0⟩, ledger, now⟩

end LinearState

/-! ## What has vested -/

namespace LinearVestingPolicy

variable (p : LinearVestingPolicy)

/-- The time at which the cliff is over. -/
def cliffEnd : ℕ := p.beginTimestamp.toNat + p.vestingCliffSeconds.toNat

/-- The time at which everything has vested. -/
def vestingEnd : ℕ := p.beginTimestamp.toNat + p.vestingDurationSeconds.toNat

/-- What has vested: nothing before the cliff, a proportion of the begin balance, and all of it
after the duration. -/
def vestedBy (t : UInt32) : ℤ :=
  if p.vestingEnd ≤ t.toNat then p.beginBalance
  else if t.toNat < p.cliffEnd then 0
  else p.beginBalance * ((t.toNat : ℤ) - p.beginTimestamp.toNat) / p.vestingDurationSeconds.toNat

/-- The code looks at what has vested. -/
def Open (t : UInt32) : Prop := p.beginTimestamp < t ∧ p.cliffEnd ≤ t.toNat

instance (t : UInt32) : Decidable (p.Open t) := inferInstanceAs (Decidable (_ ∧ _))

/-- What may be withdrawn: what has vested and has not been withdrawn. -/
def allowedBy (t : UInt32) (balance : ℤ) : ℤ :=
  if p.Open t then p.vestedBy t - (p.beginBalance - balance) else 0

variable {p} {t t' : UInt32} {balance amount : Asset}

theorem elapsed_nonneg (hcliff : p.cliffEnd ≤ t.toNat) :
    0 ≤ (t.toNat : ℤ) - p.beginTimestamp.toNat := by
  unfold cliffEnd at hcliff
  omega

theorem vestedBy_nonneg (hp : 0 ≤ p.beginBalance) : 0 ≤ p.vestedBy t := by
  unfold vestedBy
  split_ifs with hend hcliff
  · exact hp
  · exact Int.le_refl 0
  · exact Int.ediv_nonneg (Int.mul_nonneg hp (elapsed_nonneg (Nat.not_lt.1 hcliff)))
      (Int.natCast_nonneg _)

theorem vestedBy_le (hp : 0 ≤ p.beginBalance) : p.vestedBy t ≤ p.beginBalance := by
  unfold vestedBy
  split_ifs with hend hcliff
  · exact Int.le_refl _
  · exact hp
  · unfold vestingEnd cliffEnd at *
    exact Int.ediv_le_of_le_mul (by omega) (Int.mul_le_mul_of_nonneg_left (by omega) hp)

/-- Nothing that has vested is lost. -/
theorem vestedBy_mono (hp : 0 ≤ p.beginBalance) (ht : t.toNat ≤ t'.toNat) :
    p.vestedBy t ≤ p.vestedBy t' := by
  by_cases hend' : p.vestingEnd ≤ t'.toNat
  · calc p.vestedBy t ≤ p.beginBalance := vestedBy_le hp
      _ = p.vestedBy t' := (if_pos hend').symm
  have hend : ¬ p.vestingEnd ≤ t.toNat := fun h ↦ hend' (h.trans ht)
  by_cases hcliff : t.toNat < p.cliffEnd
  · calc p.vestedBy t = 0 := by rw [vestedBy, if_neg hend, if_pos hcliff]
      _ ≤ p.vestedBy t' := vestedBy_nonneg hp
  · rw [vestedBy, if_neg hend, if_neg hcliff, vestedBy, if_neg hend', if_neg (by omega)]
    unfold vestingEnd cliffEnd at *
    exact Int.ediv_le_ediv (by omega) (Int.mul_le_mul_of_nonneg_left (by omega) hp)

/-- `total_vested` is what has vested. -/
theorem totalVested_eq (hp : 0 ≤ p.beginBalance) (hlt : p.beginBalance < 2 ^ 63)
    (ht : p.Open t) :
    p.totalVested ((t.toNat : ℤ) - p.beginTimestamp.toNat) = .ok (p.vestedBy t) := by
  obtain ⟨hbegin, hcliff⟩ := ht
  have hle := vestedBy_le (t := t) hp
  have hnonneg := vestedBy_nonneg (t := t) hp
  have hbefore : p.beginTimestamp.toNat < t.toNat := UInt32.lt_iff_toNat_lt.1 hbegin
  have ht32 := t.toNat_lt
  unfold totalVested
  unfold vestedBy vestingEnd at *
  by_cases hend : p.beginTimestamp.toNat + p.vestingDurationSeconds.toNat ≤ t.toNat
  · rw [if_neg (by omega), if_pos hend]
  · rw [if_neg hend, if_neg (by omega)] at hle hnonneg
    rw [if_pos (by omega), if_neg hend, if_neg (by omega)]
    obtain ⟨n, hn⟩ := Int.eq_ofNat_of_zero_le hp
    obtain ⟨d, hd⟩ : ∃ d : ℕ, (t.toNat : ℤ) - p.beginTimestamp.toNat = d :=
      ⟨t.toNat - p.beginTimestamp.toNat, by omega⟩
    rw [hn, hd] at hle hnonneg ⊢
    rw [← Nat.cast_mul, ← Int.natCast_ediv] at hle hnonneg
    have hn63 : n < 2 ^ 63 := by omega
    have hd32 : d < 2 ^ 32 := by omega
    have hmul : n * d < 2 ^ 95 := CddVestingPolicy.mul_lt hn63 hd32
    rw [asUint128_natCast (by omega), asUint128_natCast (by omega), ← Nat.cast_mul,
      asUint128_natCast (by omega), ← Int.natCast_ediv]
    have hvested : n * d / p.vestingDurationSeconds.toNat < 2 ^ 63 := by omega
    refine bind_eq_ok.2 ⟨_, toUint64_of_lt (by omega), ?_⟩
    rw [asInt64_eq_self.2 ⟨by omega, by omega⟩]

/-- What holds of a policy and the balance that it is for, at the time `t`. -/
structure Sound (p : LinearVestingPolicy) (balance : ℤ) (t : UInt32) : Prop where
  /-- The balance is not negative. -/
  nonneg : 0 ≤ balance
  /-- Nothing has been paid in. -/
  le_begin : balance ≤ p.beginBalance
  /-- All that there was is a `share_type`. -/
  begin_lt : p.beginBalance < 2 ^ 63
  /-- What has been withdrawn has vested, when the code looks. -/
  drawn_le : ∀ t', t ≤ t' → p.Open t' → p.beginBalance - balance ≤ p.vestedBy t'

theorem Sound.later {b : ℤ} (h : p.Sound b t) (ht : t ≤ t') : p.Sound b t' :=
  { h with drawn_le := fun t'' ht'' ↦ h.drawn_le t'' (UInt32.le_trans ht ht'') }

/-- **What may be withdrawn** is what has vested and has not been withdrawn; no assertion fails. -/
theorem Sound.getAllowedWithdraw_eq (h : p.Sound balance.amount t) :
    p.getAllowedWithdraw ⟨balance, t, amount⟩ =
      .ok ⟨p.allowedBy t balance.amount, amount.assetId⟩ := by
  have hp : 0 ≤ p.beginBalance := h.nonneg.trans h.le_begin
  have hle := h.le_begin
  have hlt := h.begin_lt
  have hnonneg := h.nonneg
  have hvested := vestedBy_nonneg (t := t) hp
  have hbound := vestedBy_le (t := t) hp
  unfold getAllowedWithdraw allowedBy
  dsimp only
  by_cases hbegin : p.beginTimestamp < t
  · have hbefore := UInt32.lt_iff_toNat_lt.1 hbegin
    rw [if_pos hbegin, assertion_of (by omega)]
    refine bind_eq_ok.2 ⟨(), rfl, ?_⟩
    by_cases hcliff : p.cliffEnd ≤ t.toNat
    · have hdrawn := h.drawn_le t (UInt32.le_refl t) ⟨hbegin, hcliff⟩
      have hcliff' := hcliff
      unfold cliffEnd at hcliff'
      have hopen : p.Open t := ⟨hbegin, hcliff⟩
      rw [if_pos (by omega), if_pos hopen, totalVested_eq hp hlt hopen]
      refine bind_eq_ok.2 ⟨_, rfl, ?_⟩
      rw [assertion_of hvested, safe_of_fits ⟨by omega, by omega⟩]
      refine bind_eq_ok.2 ⟨(), rfl, bind_eq_ok.2 ⟨_, rfl, ?_⟩⟩
      rw [assertion_of (by omega), safe_of_fits ⟨by omega, by omega⟩]
      refine bind_eq_ok.2 ⟨(), rfl, bind_eq_ok.2 ⟨_, rfl, ?_⟩⟩
      rw [assertion_of (by omega)]
      rfl
    · have hcliff' := hcliff
      unfold cliffEnd at hcliff'
      rw [if_neg (by omega), if_neg fun hopen : p.Open t ↦ hcliff hopen.2]
  · rw [if_neg hbegin, if_neg fun hopen : p.Open t ↦ hbegin hopen.1]

/-- A withdrawal is allowed of what may be withdrawn. -/
theorem Sound.isWithdrawAllowed_eq (h : p.Sound balance.amount t) :
    p.isWithdrawAllowed ⟨balance, t, amount⟩ = .ok (decide
      (amount.assetId = balance.assetId ∧ amount.amount ≤ p.allowedBy t balance.amount)) := by
  unfold isWithdrawAllowed
  dsimp only
  by_cases hid : amount.assetId = balance.assetId
  · rw [if_pos hid, h.getAllowedWithdraw_eq]
    refine bind_eq_ok.2 ⟨_, rfl, ?_⟩
    exact Asset.atMost_eq_ok.2 ⟨rfl, by simp [hid]⟩
  · rw [if_neg hid]
    simp [hid]

theorem Sound.allowedBy_le {b : ℤ} (h : p.Sound b t) : p.allowedBy t b ≤ b := by
  have hbound := vestedBy_le (t := t) (h.nonneg.trans h.le_begin)
  have hnonneg := h.nonneg
  unfold allowedBy
  split_ifs <;> omega

/-- **A withdrawal** of no more than may be withdrawn keeps a policy sound, if it does not pay in
more than has been withdrawn. -/
theorem Sound.withdraw {b a : ℤ} (h : p.Sound b t) (ha : a ≤ p.allowedBy t b)
    (hin : b - a ≤ p.beginBalance) : p.Sound (b - a) t where
  nonneg := by
    have hle := h.allowedBy_le
    omega
  le_begin := hin
  begin_lt := h.begin_lt
  drawn_le := fun t' ht' hopen' ↦ by
    have hdrawn := h.drawn_le t' ht' hopen'
    have hmono := vestedBy_mono (h.nonneg.trans h.le_begin) (UInt32.le_iff_toNat_le.1 ht')
    unfold allowedBy at ha
    split_ifs at ha <;> omega

end LinearVestingPolicy

/-! ## What an operation does -/

open LinearVestingPolicy

variable {p : LinearVestingPolicy} {t : UInt32}

/-- A withdrawal that is evaluated. -/
theorem VestingBalanceWithdrawOperation.of_evaluate {op : VestingBalanceWithdrawOperation}
    {vbo vbo' : VestingBalanceObject} {l l' : Ledger} (hp : vbo.policy = .linear p)
    (hs : p.Sound vbo.balance.amount t) (h : op.evaluate vbo l t = .ok (vbo', l')) :
    op.amount.amount ≤ p.allowedBy t vbo.balance.amount ∧
      vbo' = { vbo with
        balance := ⟨vbo.balance.amount - op.amount.amount, vbo.balance.assetId⟩ } := by
  obtain ⟨_, -, h⟩ := bind_eq_ok.1 h
  obtain ⟨allowed, hallowed, h⟩ := bind_eq_ok.1 h
  obtain ⟨_, hcheck, h⟩ := bind_eq_ok.1 h
  obtain ⟨_, -, h⟩ := bind_eq_ok.1 h
  obtain ⟨_, -, h⟩ := bind_eq_ok.1 h
  obtain ⟨_, -, h⟩ := bind_eq_ok.1 h
  obtain ⟨vbo₁, hwithdraw, h⟩ := bind_eq_ok.1 h
  obtain ⟨l₁, -, h⟩ := bind_eq_ok.1 h
  obtain ⟨rfl, rfl⟩ := Prod.mk.inj (Except.ok.inj h)
  -- the policy has allowed it
  obtain rfl := check_eq_ok.1 hcheck
  unfold VestingBalanceObject.isWithdrawAllowed VestingBalanceObject.context at hallowed
  rw [hp] at hallowed
  obtain ⟨result, hresult, hallowed⟩ := bind_eq_ok.1 hallowed
  obtain ⟨_, -, hallowed⟩ := bind_eq_ok.1 hallowed
  obtain ⟨_, -, hallowed⟩ := bind_eq_ok.1 hallowed
  obtain rfl := Except.ok.inj hallowed
  rw [hs.isWithdrawAllowed_eq] at hresult
  obtain ⟨hid, hle⟩ := of_decide_eq_true (Except.ok.inj hresult)
  refine ⟨hle, ?_⟩
  -- the policy is not changed, and the balance is lowered
  unfold VestingBalanceObject.withdraw at hwithdraw
  rw [hp] at hwithdraw
  obtain ⟨_, -, hwithdraw⟩ := bind_eq_ok.1 hwithdraw
  obtain ⟨_, -, hwithdraw⟩ := bind_eq_ok.1 hwithdraw
  obtain ⟨policy, hpolicy, hwithdraw⟩ := bind_eq_ok.1 hwithdraw
  obtain rfl := Except.ok.inj hpolicy
  obtain ⟨balance, hbalance, hwithdraw⟩ := bind_eq_ok.1 hwithdraw
  obtain rfl := Except.ok.inj hwithdraw
  unfold Asset.minus at hbalance
  rw [if_pos hid.symm] at hbalance
  obtain ⟨v, hv, hbalance⟩ := bind_eq_ok.1 hbalance
  obtain ⟨-, rfl⟩ := safe_eq_ok hv
  obtain rfl := Except.ok.inj hbalance
  rw [hp]

/-- A claim that is evaluated: what is left is lowered by it, unless it is all of it. -/
theorem BalanceClaimOperation.of_doApply {op : BalanceClaimOperation} {b : BalanceObject}
    {left : Option BalanceObject} {l l' : Ledger} {skipSignatures : Bool}
    (hp : b.vestingPolicy = some p) (hs : p.Sound b.balance.amount t)
    (hevaluate : op.doEvaluate b skipSignatures t = .ok ())
    (happly : op.doApply b l t = .ok (left, l')) :
    op.totalClaimed.amount ≤ p.allowedBy t b.balance.amount ∧
      (left = some { b with
          balance := ⟨b.balance.amount - op.totalClaimed.amount, b.balance.assetId⟩
          lastClaimDate := t } ∨
        left = none ∧ op.totalClaimed.amount = b.balance.amount) := by
  -- the policy has allowed it
  obtain ⟨_, -, h⟩ := bind_eq_ok.1 hevaluate
  obtain ⟨_, -, h⟩ := bind_eq_ok.1 h
  rw [hp] at h
  obtain ⟨allowed, hallowed, h⟩ := bind_eq_ok.1 h
  obtain ⟨_, hcheck, -⟩ := bind_eq_ok.1 h
  obtain rfl := check_eq_ok.1 hcheck
  rw [hs.isWithdrawAllowed_eq] at hallowed
  obtain ⟨hid, hle⟩ := of_decide_eq_true (Except.ok.inj hallowed)
  refine ⟨hle, ?_⟩
  -- what is left is what is not claimed
  obtain ⟨left', hleft, happly⟩ := bind_eq_ok.1 happly
  obtain ⟨l₁, -, happly⟩ := bind_eq_ok.1 happly
  obtain ⟨rfl, rfl⟩ := Prod.mk.inj (Except.ok.inj happly)
  unfold BalanceClaimOperation.leaves at hleft
  rw [hp] at hleft
  obtain ⟨less, hless, hleft⟩ := bind_eq_ok.1 hleft
  have hdecide : decide (op.totalClaimed.amount < b.balance.amount) = less := by
    have hsome := orThrow_eq_ok.1 hless
    rw [Asset.less, if_pos hid] at hsome
    exact Option.some.inj hsome
  cases less with
  | true =>
    left
    rw [if_pos rfl] at hleft
    obtain ⟨balance, hbalance, hleft⟩ := bind_eq_ok.1 hleft
    unfold Asset.minus at hbalance
    rw [if_pos hid.symm] at hbalance
    obtain ⟨v, hv, hbalance⟩ := bind_eq_ok.1 hbalance
    obtain ⟨-, rfl⟩ := safe_eq_ok hv
    obtain rfl := Except.ok.inj hbalance
    rw [← Except.ok.inj hleft, hp]
  | false =>
    right
    have hall := of_decide_eq_false hdecide
    have hbound := hs.allowedBy_le
    exact ⟨(Except.ok.inj hleft).symm, by omega⟩

namespace LinearState

/-- What holds of the shares of a policy: what is left is sound, or everything has been claimed. -/
inductive Sound (p : LinearVestingPolicy) (s : LinearState) : Prop
  /-- There is a balance. -/
  | held {balance : Asset} (hheld : s.holding.held = some (p, balance))
    (hsound : p.Sound balance.amount s.time)
  /-- There is none. -/
  | removed (hremoved : s.holding = .removed)

/-- What is paid in by an operation is no more than what has been withdrawn. -/
def PaysInWithdrawn (s : LinearState) (c : LinearCall) : Prop :=
  ∀ p balance, s.holding.held = some (p, balance) →
    balance.amount - c.operation.amount ≤ p.beginBalance

variable {s s' : LinearState} {c : LinearCall}

/-- **An operation that is accepted** withdraws no more than may be withdrawn, and leaves the
rest. -/
theorem step_cases {balance : Asset} (hheld : s.holding.held = some (p, balance))
    (hsound : p.Sound balance.amount c.now) (h : s.step c = .ok s') :
    s.time ≤ c.now ∧ s'.time = c.now ∧
      c.operation.amount ≤ p.allowedBy c.now balance.amount ∧
      (s'.holding.held = some (p, ⟨balance.amount - c.operation.amount, balance.assetId⟩) ∨
        s'.holding = .removed ∧ c.operation.amount = balance.amount) := by
  obtain ⟨operation, now⟩ := c
  obtain ⟨holding, ledger, time⟩ := s
  unfold step at h
  split_ifs at h with htime
  refine ⟨htime, ?_⟩
  dsimp only at hheld hsound h
  rcases holding with ⟨owner, balance', p' | p'⟩ | b | _
  · obtain ⟨rfl, rfl⟩ := Prod.mk.inj (Option.some.inj hheld)
    rcases operation with op | ⟨op, skip⟩
    · obtain ⟨_, -, h⟩ := bind_eq_ok.1 h
      obtain ⟨⟨vbo, l⟩, hevaluate, h⟩ := bind_eq_ok.1 h
      obtain ⟨hle, rfl⟩ := op.of_evaluate rfl hsound hevaluate
      obtain rfl := Except.ok.inj h
      exact ⟨rfl, hle, .inl rfl⟩
    · cases h
  · cases hheld
  · rcases operation with op | ⟨op, skip⟩
    · cases h
    · obtain ⟨p', hp', hheld⟩ := Option.map_eq_some_iff.1 hheld
      obtain ⟨rfl, rfl⟩ := Prod.mk.inj hheld
      obtain ⟨_, -, h⟩ := bind_eq_ok.1 h
      obtain ⟨_, hevaluate, h⟩ := bind_eq_ok.1 h
      obtain ⟨⟨left, l⟩, happly, h⟩ := bind_eq_ok.1 h
      obtain rfl := Except.ok.inj h
      obtain ⟨hle, rfl | ⟨rfl, hall⟩⟩ := op.of_doApply hp' hsound hevaluate happly
      · refine ⟨rfl, hle, .inl ?_⟩
        simp [Holding.held, hp', LinearOperation.amount]
      · exact ⟨rfl, hle, .inr ⟨rfl, hall⟩⟩
  · cases hheld

/-- Nothing is accepted when everything has been claimed. -/
theorem step_removed (h : s.holding = .removed) : s.step c ≠ .ok s' := by
  unfold step
  rw [h]
  split_ifs <;> nofun

theorem next_eq_some : s.next c = some s' ↔ s.step c = .ok s' := by
  unfold next
  cases s.step c <;> simp [Except.toOption]

/-- What is withdrawn by one operation: with it, no more than has vested. -/
theorem paid_le {b b₀ a : ℤ} {now : UInt32} (hp : 0 ≤ p.beginBalance) (hb₀ : b₀ ≤ p.beginBalance)
    (ht : t ≤ now) (ha : a ≤ p.allowedBy now b) (hpaid : b₀ - b ≤ p.vestedBy t) :
    b₀ - (b - a) ≤ p.vestedBy now := by
  have hmono := vestedBy_mono hp (UInt32.le_iff_toNat_le.1 ht)
  unfold allowedBy at ha
  split_ifs at ha <;> omega

/-- **The invariant of an operation**: the shares stay sound, what it asks for is taken from them,
and with it no more has been withdrawn than has vested. -/
theorem Sound.step {b₀ : ℤ} (hp : 0 ≤ p.beginBalance) (hb₀ : b₀ ≤ p.beginBalance)
    (hs : s.Sound p) (hpaid : b₀ - s.holding.left ≤ p.vestedBy s.time)
    (hin : s.PaysInWithdrawn c) (h : s.next c = some s') :
    s'.Sound p ∧ s.time ≤ s'.time ∧ s'.holding.left = s.holding.left - c.operation.amount ∧
      b₀ - s'.holding.left ≤ p.vestedBy s'.time := by
  have hstep := next_eq_some.1 h
  cases hs with
  | removed hremoved => exact absurd hstep (step_removed hremoved)
  | @held balance hheld hsound =>
    have hleft : s.holding.left = balance.amount := by
      rw [Holding.left, hheld]
      rfl
    rw [hleft] at hpaid ⊢
    have htime : s.time ≤ c.now := by
      unfold LinearState.step at hstep
      split_ifs at hstep with htime
      exact htime
    have hnow := hsound.later htime
    obtain ⟨-, htime', hle, hheld' | ⟨hremoved, hall⟩⟩ := step_cases hheld hnow hstep
    · have hleft' : s'.holding.left = balance.amount - c.operation.amount := by
        rw [Holding.left, hheld']
        rfl
      rw [htime', hleft']
      refine ⟨.held hheld' ?_, htime, rfl, paid_le hp hb₀ htime hle hpaid⟩
      rw [htime']
      exact hnow.withdraw hle (hin p balance hheld)
    · have hleft' : s'.holding.left = balance.amount - c.operation.amount := by
        rw [hremoved, hall, sub_self]
        rfl
      rw [htime', hleft']
      exact ⟨.removed hremoved, htime, rfl, paid_le hp hb₀ htime hle hpaid⟩

/-- **The invariant of a run.** -/
theorem Sound.run {b₀ : ℤ} (hp : 0 ≤ p.beginBalance) (hb₀ : b₀ ≤ p.beginBalance)
    {calls : List LinearCall} (hs : s.Sound p) (hpaid : b₀ - s.holding.left ≤ p.vestedBy s.time)
    (hin : Throughout next PaysInWithdrawn s calls) (h : applied next s calls = some s') :
    s'.Sound p ∧ s.time ≤ s'.time ∧
      s'.holding.left = s.holding.left - (calls.map fun c ↦ c.operation.amount).sum ∧
      b₀ - s'.holding.left ≤ p.vestedBy s'.time := by
  induction calls generalizing s with
  | nil =>
    obtain rfl := Option.some.inj h
    exact ⟨hs, UInt32.le_refl _, (sub_zero _).symm, hpaid⟩
  | cons c calls ih =>
    obtain ⟨s₁, hnext, hrest⟩ := applied_cons.1 h
    obtain ⟨hs₁, htime, hleft, hpaid₁⟩ := hs.step hp hb₀ hpaid hin.1 hnext
    obtain ⟨hs', htime', hleft', hpaid'⟩ := ih hs₁ hpaid₁ (hin.2 s₁ hnext) hrest
    refine ⟨hs', UInt32.le_trans htime htime', ?_, hpaid'⟩
    rw [hleft', hleft, List.map_cons, List.sum_cons]
    omega

/-! ## What is to hold -/

/-- **What is to hold at a time** when `paid` has been withdrawn: no more than has vested, whatever
is asked of the policy no assertion fails, and after the duration all that is left may be
withdrawn. -/
structure Vests (p : LinearVestingPolicy) (s : LinearState) (paid : ℤ) (t : UInt32) : Prop where
  /-- No more has been withdrawn than has vested. -/
  paid_le : paid ≤ p.vestedBy t
  /-- No assertion fails. -/
  asserted : ∀ q balance, s.holding.held = some (q, balance) → ∀ amount,
    q.getAllowedWithdraw ⟨balance, t, amount⟩ ≠ .error .undefined
  /-- All that is left may be withdrawn. -/
  whole : p.vestingEnd ≤ t.toNat → ∀ q balance, s.holding.held = some (q, balance) →
    q.isWithdrawAllowed ⟨balance, t, balance⟩ = .ok true

/-- What the evaluators and `init_genesis` do not check: the duration is positive and not less than
the cliff, as far as time goes on, and the balance is the begin balance but for what has vested. -/
structure Admissible (p : LinearVestingPolicy) (s : LinearState) : Prop where
  /-- The balance is not negative. -/
  balance_nonneg : 0 ≤ s.holding.left
  /-- The balance is not above the begin balance. -/
  balance_le : s.holding.left ≤ p.beginBalance
  /-- What is not in the balance at first has vested, when the code looks. -/
  drawn_vested : ∀ t, s.time ≤ t → p.Open t → p.beginBalance - s.holding.left ≤ p.vestedBy t
  /-- After the duration the cliff is over, and it is not the time at which vesting begins. -/
  cliff_over : ∀ t, s.time ≤ t → p.vestingEnd ≤ t.toNat → p.Open t

theorem Created.begin_lt (h : Created p s) : p.beginBalance < 2 ^ 63 := by
  have hmax : maxShareSupply < 2 ^ 63 := by decide
  cases h with
  | byOperation i owner amount ledger now hpos hle => exact lt_of_le_of_lt hle hmax
  | atGenesis owner amount beginTimestamp vestingDurationSeconds beginBalance ledger now hamount
      hbegin => exact hbegin.2

theorem Created.held (h : Created p s) :
    ∃ balance, s.holding.held = some (p, balance) ∧ s.holding.left = balance.amount := by
  cases h with
  | byOperation i owner amount => exact ⟨amount, rfl, rfl⟩
  | atGenesis owner amount => exact ⟨amount, rfl, rfl⟩

/-- Sound shares do what is to hold. -/
theorem Sound.vests {paid : ℤ} (hs : s.Sound p) (hp : 0 ≤ p.beginBalance) (ht : s.time ≤ t)
    (hpaid : paid ≤ p.vestedBy s.time) (hover : p.vestingEnd ≤ t.toNat → p.Open t) :
    s.Vests p paid t where
  paid_le := hpaid.trans (vestedBy_mono hp (UInt32.le_iff_toNat_le.1 ht))
  asserted := by
    intro q balance hq amount
    cases hs with
    | removed hremoved =>
      rw [hremoved] at hq
      cases hq
    | held hheld hsound =>
      obtain ⟨rfl, rfl⟩ := Prod.mk.inj (Option.some.inj (hheld.symm.trans hq))
      rw [(hsound.later ht).getAllowedWithdraw_eq]
      nofun
  whole := by
    intro hend q balance hq
    cases hs with
    | removed hremoved =>
      rw [hremoved] at hq
      cases hq
    | held hheld hsound =>
      obtain ⟨rfl, rfl⟩ := Prod.mk.inj (Option.some.inj (hheld.symm.trans hq))
      rw [(hsound.later ht).isWithdrawAllowed_eq, allowedBy, if_pos (hover hend), vestedBy,
        if_pos hend, sub_sub_cancel]
      simp

end LinearState

open LinearState

/-- **Linear vesting bounds withdrawals.**  From a policy whose cliff ends with its duration and
whose balance is the begin balance but for what has vested, a run of operations none of which pays
in more than has been withdrawn withdraws no more than has vested, no assertion fails, and in the
end all that is left may be withdrawn. -/
theorem linear_vesting_bounds_withdrawals {s s' : LinearState} {calls : List LinearCall}
    (hcreated : Created p s) (hp : s.Admissible p)
    (hin : Throughout next PaysInWithdrawn s calls) (h : applied next s calls = some s') :
    ∀ t, s'.time ≤ t → s'.Vests p (calls.map fun c ↦ c.operation.amount).sum t := by
  obtain ⟨balance, hheld, hleft⟩ := hcreated.held
  have hbegin : 0 ≤ p.beginBalance := hp.balance_nonneg.trans hp.balance_le
  have hsound : s.Sound p := by
    refine .held hheld ⟨?_, ?_, hcreated.begin_lt, ?_⟩
    · exact hleft ▸ hp.balance_nonneg
    · exact hleft ▸ hp.balance_le
    · exact hleft ▸ hp.drawn_vested
  have hnone : s.holding.left - s.holding.left ≤ p.vestedBy s.time := by
    rw [sub_self]
    exact vestedBy_nonneg hbegin
  obtain ⟨hs', htime, hleft', hpaid⟩ := hsound.run hbegin hp.balance_le hnone hin h
  intro t ht
  refine hs'.vests hbegin ht ?_ (hp.cliff_over t (UInt32.le_trans htime ht))
  rwa [hleft', sub_sub_cancel] at hpaid

/-! ## A run that is bounded, and two policies that are not -/

/-- Every account exists, and has five of each asset. -/
def richLedger : Ledger where
  headBlockTime := 0
  cashbackVestingThreshold := 0
  accounts := fun _ ↦ some ⟨none, ∅, ∅⟩
  statistics := fun _ ↦ ⟨0, 0⟩
  assets := fun _ ↦ none
  dynamicData := fun _ ↦ ⟨0, 0, 0⟩
  balances := fun _ _ ↦ some 5
  migrations := []

/-- A thousand shares vest in a hundred seconds, none of them in the first ten. -/
def hundredSeconds : LinearVestingPolicyInitializer := ⟨1000, 10, 100⟩

/-- They are given to an account when they begin to vest. -/
def thousandShares : LinearState :=
  ⟨.vestingBalance ⟨6, ⟨1000, coreAsset⟩, .linear (hundredSeconds.policy 1000)⟩, richLedger, 1000⟩

/-- Half of them are withdrawn when half of the time is over. -/
def withdrawHalf : LinearCall := ⟨.withdraw ⟨⟨0, coreAsset⟩, 6, ⟨500, coreAsset⟩⟩, 1050⟩

theorem half_vests : ∃ s', applied next thousandShares [withdrawHalf] = some s' ∧
    ∀ t, s'.time ≤ t → s'.Vests (hundredSeconds.policy 1000) 500 t := by
  have hcreated : Created (hundredSeconds.policy 1000) thousandShares :=
    .byOperation hundredSeconds 6 ⟨1000, coreAsset⟩ richLedger 1000 (by decide) (by decide)
  have hadmissible : thousandShares.Admissible (hundredSeconds.policy 1000) := by
    refine ⟨by decide, by decide, fun t _ _ ↦ ?_, fun t _ hend ↦ ?_⟩
    · exact vestedBy_nonneg (by decide)
    · change 1100 ≤ t.toNat at hend
      refine ⟨UInt32.lt_iff_toNat_lt.2 ?_, ?_⟩
      · change 1000 < t.toNat
        omega
      · change 1010 ≤ t.toNat
        omega
  have hin : Throughout next PaysInWithdrawn thousandShares [withdrawHalf] := by
    refine ⟨?_, fun _ _ ↦ trivial⟩
    intro p balance hheld
    obtain ⟨rfl, rfl⟩ := Prod.mk.inj (Option.some.inj hheld)
    decide
  exact ⟨_, rfl, linear_vesting_bounds_withdrawals hcreated hadmissible hin rfl⟩

/-- A balance of the genesis state, of which nothing has vested yet. -/
def genesisShares : LinearState :=
  ⟨.balanceObject ⟨1, ⟨100, coreAsset⟩, some ⟨1500000100, 0, 100, 100⟩, 0⟩, richLedger, 1500000000⟩

/-- A claim of minus five shares. -/
def payIn : LinearCall :=
  ⟨.claim ⟨⟨0, coreAsset⟩, 6, false, [1], ⟨-5, coreAsset⟩⟩ false, 1500000000⟩

/-- All that vests in a hundred seconds is not to be had before two hundred. -/
def lateCliff : LinearVestingPolicyInitializer := ⟨1000, 200, 100⟩

/-- A claim of a negative amount is accepted and pays five shares into the balance, and an assertion
fails when half of the time is over.  And from a policy with a cliff that is longer than its
duration, nothing may be withdrawn when all has vested. -/
theorem negative_claim_breaks_assertion :
    (∃ s', Created ⟨1500000100, 0, 100, 100⟩ genesisShares ∧
      applied next genesisShares [payIn] = some s' ∧ s'.time ≤ 1500000150 ∧
      s'.holding.held = some (⟨1500000100, 0, 100, 100⟩, ⟨105, coreAsset⟩) ∧
      ¬ s'.Vests ⟨1500000100, 0, 100, 100⟩ (-5) 1500000150) ∧
    ∃ s, Created (lateCliff.policy 1000) s ∧ s.time ≤ 1100 ∧
      ¬ s.Vests (lateCliff.policy 1000) 0 1100 := by
  refine ⟨⟨_, ?_, rfl, by decide, rfl, fun h ↦ ?_⟩,
    ⟨.vestingBalance ⟨6, ⟨1000, coreAsset⟩, .linear (lateCliff.policy 1000)⟩, richLedger, 1000⟩,
    ?_, by decide, fun h ↦ ?_⟩
  · exact .atGenesis 1 ⟨100, coreAsset⟩ 1500000100 100 100 richLedger 1500000000 (by decide)
      (by decide)
  · exact h.asserted _ _ rfl ⟨0, coreAsset⟩ (by decide +kernel)
  · exact .byOperation lateCliff 6 ⟨1000, coreAsset⟩ richLedger 1000 (by decide) (by decide)
  · have hwhole := h.whole (by decide) _ _ rfl
    exact absurd hwhole (by decide)

end Graphene
