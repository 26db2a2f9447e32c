import Graphene.Ledger.Budget
import Graphene.Lib.Transitions
import Graphene.Market.Prices

/-!
# Vesting balances

A vesting balance is locked, and a policy says how much of it may be withdrawn.  A linear policy
frees an amount over a fixed time.  A coin days policy counts the seconds that every share has been
held: a share is free for as many of them as the policy asks for, and a withdrawal uses them up.

* `Fault` — how the arithmetic can fail.
* `LinearVestingPolicy`, `CddVestingPolicy`, `VestingBalanceObject` — the data, and the functions.
* `CddVestingPolicy.Sound` — what holds of a coin days policy, and `CddVestingPolicy.earnedAt`,
  `CddVestingPolicy.allowedAt` — what it has earned, and what it frees, in unbounded arithmetic.
* `CddVestingPolicy.Sound.onDepositVested_ok_iff`, … — what each function does of it, and to it.
-/

set_option autoImplicit false

namespace Graphene

open Transitions

/-! ## Arithmetic -/

/-- How a computation fails. -/
inductive Fault where
  /-- It throws: an `FC_ASSERT` fails, or a sum of two `share_type`s does not fit. -/
  | thrown
  /-- It means nothing: an `assert` fails, or a product of two `int64_t`s does not fit. -/
  | undefined
deriving DecidableEq

/-- The value of an operation on `share_type`, which checks whether it fits. -/
def safe (v : ℤ) : Except Fault ℤ := orThrow (shareType v) .thrown

/-- The value of an operation on `int64_t`, which does not. -/
def int64 (v : ℤ) : Except Fault ℤ := orThrow (shareType v) .undefined

/-- `assert`. -/
def assertion (p : Prop) [Decidable p] : Except Fault Unit := check (decide p) .undefined

/-- `uint128_t::to_uint64`. -/
def toUint64 (n : ℕ) : Except Fault ℕ := if n < 2 ^ 64 then .ok n else .error .thrown

theorem safe_of_fits {v : ℤ} (h : FitsInt64 v) : safe v = .ok v :=
  orThrow_eq_ok.2 (shareType_of_fits h)

theorem safe_eq_ok {v w : ℤ} (h : safe v = .ok w) : FitsInt64 v ∧ w = v := by
  have hw := orThrow_eq_ok.1 h
  rw [shareType] at hw
  split_ifs at hw with hfits
  exact ⟨hfits, (Option.some.inj hw).symm⟩

theorem int64_of_fits {v : ℤ} (h : FitsInt64 v) : int64 v = .ok v :=
  orThrow_eq_ok.2 (shareType_of_fits h)

theorem int64_of_not_fits {v : ℤ} (h : ¬FitsInt64 v) : int64 v = .error .undefined :=
  orThrow_eq_error.2 ⟨if_neg h, rfl⟩

theorem assertion_of {p : Prop} [Decidable p] (h : p) : assertion p = .ok () :=
  check_eq_ok.2 (decide_eq_true h)

theorem asUint128_natCast {n : ℕ} (h : n < 2 ^ 128) : asUint128 n = n := by
  rw [asUint128, Int.emod_eq_of_lt (Int.natCast_nonneg n) (by exact_mod_cast h), Int.toNat_natCast]

theorem toUint64_of_lt {n : ℕ} (h : n < 2 ^ 64) : toUint64 n = .ok n := if_pos h

namespace Asset

/-- `a += b`. -/
def plus (a b : Asset) : Except Fault Asset :=
  if a.assetId = b.assetId then do .ok ⟨← safe (a.amount + b.amount), a.assetId⟩
  else .error .thrown

/-- `a -= b`. -/
def minus (a b : Asset) : Except Fault Asset :=
  if a.assetId = b.assetId then do .ok ⟨← safe (a.amount - b.amount), a.assetId⟩
  else .error .thrown

/-- `a <= b`. -/
def atMost (a b : Asset) : Except Fault Bool := orThrow (a.lessEq b) .thrown

variable {a b : Asset}

theorem plus_eq (h : a.assetId = b.assetId) (hfits : FitsInt64 (a.amount + b.amount)) :
    a.plus b = .ok ⟨a.amount + b.amount, a.assetId⟩ := by
  rw [plus, if_pos h, safe_of_fits hfits]
  rfl

theorem minus_eq (h : a.assetId = b.assetId) (hfits : FitsInt64 (a.amount - b.amount)) :
    a.minus b = .ok ⟨a.amount - b.amount, a.assetId⟩ := by
  rw [minus, if_pos h, safe_of_fits hfits]
  rfl

theorem atMost_eq_ok {c : Bool} :
    a.atMost b = .ok c ↔ a.assetId = b.assetId ∧ decide (a.amount ≤ b.amount) = c := by
  rw [atMost, orThrow_eq_ok, lessEq_eq_some]

theorem atMost_of_eq (h : a.assetId = b.assetId) :
    a.atMost b = .ok (decide (a.amount ≤ b.amount)) := atMost_eq_ok.2 ⟨h, rfl⟩

theorem atMost_of_ne (h : a.assetId ≠ b.assetId) : a.atMost b = .error .thrown := by
  refine orThrow_eq_error.2 ⟨?_, rfl⟩
  rw [lessEq, less, if_neg fun heq ↦ h (congrArg Asset.assetId heq), if_neg h]

end Asset

/-- `sum_below_max_shares`. -/
def sumBelowMaxShares (a b : Asset) : Except Fault Bool :=
  if a.amount ≤ maxShareSupply ∧ b.amount ≤ maxShareSupply then do
    .ok (decide ((← safe (a.amount + b.amount)) ≤ maxShareSupply))
  else .ok false

/-! ## Policies -/

/-- `vesting_policy_context`. -/
structure VestingPolicyContext where
  /-- `balance`. -/
  balance : Asset
  /-- `now`. -/
  now : UInt32
  /-- `amount`. -/
  amount : Asset

/-- `linear_vesting_policy`. -/
structure LinearVestingPolicy where
  /-- `begin_timestamp`. -/
  beginTimestamp : UInt32
  /-- `vesting_cliff_seconds`. -/
  vestingCliffSeconds : UInt32
  /-- `vesting_duration_seconds`. -/
  vestingDurationSeconds : UInt32
  /-- `begin_balance`. -/
  beginBalance : ℤ

/-- `cdd_vesting_policy`. -/
structure CddVestingPolicy where
  /-- `vesting_seconds`. -/
  vestingSeconds : UInt32
  /-- `coin_seconds_earned`. -/
  coinSecondsEarned : ℕ
  /-- `start_claim`. -/
  startClaim : UInt32
  /-- `coin_seconds_earned_last_update`. -/
  coinSecondsEarnedLastUpdate : UInt32

/-- `vesting_policy`. -/
inductive VestingPolicy where
  /-- `linear_vesting_policy`. -/
  | linear (policy : LinearVestingPolicy)
  /-- `cdd_vesting_policy`. -/
  | cdd (policy : CddVestingPolicy)

namespace LinearVestingPolicy

variable (p : LinearVestingPolicy) (ctx : VestingPolicyContext)

/-- `total_vested`, when `elapsed` seconds are over. -/
def totalVested (elapsed : ℤ) : Except Fault ℤ :=
  if elapsed < p.vestingDurationSeconds.toNat then do
    let vested ← toUint64
      (asUint128 (asUint128 p.beginBalance * asUint128 elapsed) / p.vestingDurationSeconds.toNat)
    .ok (asInt64 vested)
  else .ok p.beginBalance

/-- `get_allowed_withdraw`. -/
def getAllowedWithdraw : Except Fault Asset :=
  if p.beginTimestamp < ctx.now then do
    let elapsed : ℤ := ctx.now.toNat - p.beginTimestamp.toNat
    assertion (0 < elapsed)
    if elapsed ≥ p.vestingCliffSeconds.toNat then do
      let totalVested ← p.totalVested elapsed
      assertion (totalVested ≥ 0)
      let withdrawnAlready ← safe (p.beginBalance - ctx.balance.amount)
      assertion (withdrawnAlready ≥ 0)
      let allowed ← safe (totalVested - withdrawnAlready)
      assertion (allowed ≥ 0)
      .ok ⟨allowed, ctx.amount.assetId⟩
    else .ok ⟨0, ctx.amount.assetId⟩
  else .ok ⟨0, ctx.amount.assetId⟩

/-- `is_deposit_allowed`. -/
def isDepositAllowed : Except Fault Bool :=
  if ctx.amount.assetId = ctx.balance.assetId then sumBelowMaxShares ctx.amount ctx.balance
  else .ok false

/-- `is_withdraw_allowed`. -/
def isWithdrawAllowed : Except Fault Bool :=
  if ctx.amount.assetId = ctx.balance.assetId then do
    ctx.amount.atMost (← p.getAllowedWithdraw ctx)
  else .ok false

end LinearVestingPolicy

namespace CddVestingPolicy

variable (p : CddVestingPolicy) (ctx : VestingPolicyContext)

/-- `std::max(vesting_seconds, 1u)`. -/
def period : ℕ := (max p.vestingSeconds 1).toNat

/-- `compute_coin_seconds_earned`. -/
def computeCoinSecondsEarned : Except Fault ℕ := do
  assertion (p.coinSecondsEarnedLastUpdate ≤ ctx.now)
  let deltaSeconds : ℤ := ctx.now.toNat - p.coinSecondsEarnedLastUpdate.toNat
  assertion (0 ≤ deltaSeconds)
  let deltaCoinSeconds := asUint128 (asUint128 ctx.balance.amount * asUint128 deltaSeconds)
  let cap := asUint128 (asUint128 ctx.balance.amount * p.period)
  .ok (min (asUint128 (p.coinSecondsEarned + deltaCoinSeconds)) cap)

/-- `update_coin_seconds_earned`. -/
def updateCoinSecondsEarned : Except Fault CddVestingPolicy := do
  let earned ← p.computeCoinSecondsEarned ctx
  .ok { p with coinSecondsEarned := earned, coinSecondsEarnedLastUpdate := ctx.now }

/-- `get_allowed_withdraw`. -/
def getAllowedWithdraw : Except Fault Asset :=
  if ctx.now ≤ p.startClaim then .ok ⟨0, ctx.balance.assetId⟩
  else do
    let earned ← p.computeCoinSecondsEarned ctx
    let available := earned / p.period
    assertion (available ≤ asUint128 ctx.balance.amount)
    let available ← toUint64 available
    .ok ⟨asInt64 available, ctx.balance.assetId⟩

/-- `on_deposit`. -/
def onDeposit : Except Fault CddVestingPolicy := p.updateCoinSecondsEarned ctx

/-- `on_deposit_vested`. -/
def onDepositVested : Except Fault CddVestingPolicy := do
  let p ← p.onDeposit ctx
  let coinSeconds ← int64 (ctx.amount.amount * p.period)
  .ok { p with coinSecondsEarned := asUint128 (p.coinSecondsEarned + asUint128 coinSeconds) }

/-- `on_withdraw`. -/
def onWithdraw : Except Fault CddVestingPolicy := do
  let p ← p.updateCoinSecondsEarned ctx
  let needed := asUint128 (asUint128 ctx.amount.amount * p.period)
  assertion (needed ≤ p.coinSecondsEarned)
  .ok { p with coinSecondsEarned := asUint128 (p.coinSecondsEarned - needed) }

/-- `is_deposit_allowed`. -/
def isDepositAllowed : Except Fault Bool :=
  if ctx.amount.assetId = ctx.balance.assetId then sumBelowMaxShares ctx.amount ctx.balance
  else .ok false

/-- `is_deposit_vested_allowed`. -/
def isDepositVestedAllowed : Except Fault Bool := isDepositAllowed ctx

/-- `is_withdraw_allowed`. -/
def isWithdrawAllowed : Except Fault Bool := do ctx.amount.atMost (← p.getAllowedWithdraw ctx)

end CddVestingPolicy

/-! ## Vesting balances -/

/-- `vesting_balance_object`. -/
structure VestingBalanceObject where
  /-- `owner`. -/
  owner : AccountId
  /-- `balance`. -/
  balance : Asset
  /-- `policy`. -/
  policy : VestingPolicy

namespace VestingBalanceObject

variable (obj : VestingBalanceObject) (now : UInt32) (amount : Asset)

/-- What the policy is asked about. -/
def context : VestingPolicyContext := ⟨obj.balance, now, amount⟩

/-- `is_deposit_allowed`. -/
def isDepositAllowed : Except Fault Bool :=
  match obj.policy with
  | .linear _ => LinearVestingPolicy.isDepositAllowed (obj.context now amount)
  | .cdd _ => CddVestingPolicy.isDepositAllowed (obj.context now amount)

/-- `is_deposit_vested_allowed`. -/
def isDepositVestedAllowed : Except Fault Bool :=
  match obj.policy with
  | .linear _ => .ok false
  | .cdd _ => CddVestingPolicy.isDepositVestedAllowed (obj.context now amount)

/-- `is_withdraw_allowed`. -/
def isWithdrawAllowed : Except Fault Bool := do
  let result ← match obj.policy with
    | .linear p => p.isWithdrawAllowed (obj.context now amount)
    | .cdd p => p.isWithdrawAllowed (obj.context now amount)
  assertion ((← amount.atMost obj.balance) = true ∨ result = false)
  .ok result

/-- `deposit`. -/
def deposit : Except Fault VestingBalanceObject := do
  let policy ← match obj.policy with
    | .linear p => .ok (.linear p)
    | .cdd p => do .ok (.cdd (← p.onDeposit (obj.context now amount)))
  .ok { obj with policy := policy, balance := ← obj.balance.plus amount }

/-- `deposit_vested`. -/
def depositVested : Except Fault VestingBalanceObject := do
  let policy ← match obj.policy with
    | .linear _ => .error .thrown
    | .cdd p => do .ok (.cdd (← p.onDepositVested (obj.context now amount)))
  .ok { obj with policy := policy, balance := ← obj.balance.plus amount }

/-- `withdraw`. -/
def withdraw : Except Fault VestingBalanceObject := do
  assertion ((← amount.atMost obj.balance) = true)
  let policy ← match obj.policy with
    | .linear p => .ok (.linear p)
    | .cdd p => do .ok (.cdd (← p.onWithdraw (obj.context now amount)))
  .ok { obj with policy := policy, balance := ← obj.balance.minus amount }

/-- `get_allowed_withdraw`. -/
def getAllowedWithdraw : Except Fault Asset :=
  match obj.policy with
  | .linear p => p.getAllowedWithdraw (obj.context now ⟨0, 0⟩)
  | .cdd p => p.getAllowedWithdraw (obj.context now ⟨0, 0⟩)

/-- The object that `vesting_balance_create_evaluator` makes with the initializer of a coin days
policy. -/
def create (owner : AccountId) (amount : Asset) (vestingSeconds startClaim now : UInt32) :
    VestingBalanceObject :=
  ⟨owner, amount, .cdd ⟨vestingSeconds, 0, startClaim, now⟩⟩

/-- The object that `deposit_lazy_vesting` makes. -/
def createLazily (owner : AccountId) (amount : ℤ) (vestingSeconds : UInt32) (requireVesting : Bool)
    (now : UInt32) : Except Fault VestingBalanceObject := do
  let earned ← if requireVesting then .ok 0 else int64 (amount * vestingSeconds.toNat)
  .ok ⟨owner, ⟨amount, coreAsset⟩, .cdd ⟨vestingSeconds, asUint128 earned, 0, now⟩⟩

end VestingBalanceObject

/-! ## Coin days -/

namespace CddVestingPolicy

/-- What holds of a coin days policy, and of the balance it is for, from the time `now` on. -/
structure Sound (p : CddVestingPolicy) (balance : Asset) (now : UInt32) : Prop where
  /-- There is no less than nothing. -/
  nonneg : 0 ≤ balance.amount
  /-- The balance is a `share_type`. -/
  fits : balance.amount < 2 ^ 63
  /-- No share has been held for longer than it has to be. -/
  earned_le : (p.coinSecondsEarned : ℤ) ≤ balance.amount * p.period
  /-- The policy has been updated in the past. -/
  updated : p.coinSecondsEarnedLastUpdate ≤ now

variable (p : CddVestingPolicy)

/-- The coin seconds earned by the time `now`. -/
def earnedAt (balance : ℤ) (now : UInt32) : ℕ :=
  min (p.coinSecondsEarned +
      balance.toNat * (now.toNat - p.coinSecondsEarnedLastUpdate.toNat))
    (balance.toNat * p.period)

/-- The shares that are free at the time `now`. -/
def allowedAt (balance : ℤ) (now : UInt32) : ℕ :=
  if now ≤ p.startClaim then 0 else p.earnedAt balance now / p.period

variable {p}

theorem period_pos : 0 < p.period := by
  show 0 < (if p.vestingSeconds ≤ 1 then 1 else p.vestingSeconds).toNat
  split_ifs with hle
  · exact Nat.one_pos
  · exact Nat.zero_lt_of_lt (UInt32.lt_iff_toNat_lt.1 (UInt32.not_le.1 hle))

theorem period_lt : p.period < 2 ^ 32 := UInt32.toNat_lt _

theorem earnedAt_le (balance : ℤ) (now : UInt32) :
    p.earnedAt balance now ≤ balance.toNat * p.period := min_le_right _ _

theorem allowedAt_mul_le (balance : ℤ) (now : UInt32) :
    p.allowedAt balance now * p.period ≤ p.earnedAt balance now := by
  rw [allowedAt]
  split_ifs
  · rw [Nat.zero_mul]
    exact Nat.zero_le _
  · exact Nat.div_mul_le_self _ _

theorem allowedAt_le (balance : ℤ) (now : UInt32) : p.allowedAt balance now ≤ balance.toNat :=
  Nat.le_of_mul_le_mul_right ((allowedAt_mul_le balance now).trans (earnedAt_le balance now))
    period_pos

variable (ctx : VestingPolicyContext) {t : UInt32}

/-- A product of shares and seconds is far from the end of `uint128_t`. -/
theorem mul_lt {n d : ℕ} (hn : n < 2 ^ 63) (hd : d < 2 ^ 32) : n * d < 2 ^ 95 :=
  (Nat.mul_lt_mul'' hn hd).trans_eq (Nat.pow_add 2 63 32).symm

theorem Sound.compute (h : p.Sound ctx.balance t) (ht : t ≤ ctx.now) :
    p.computeCoinSecondsEarned ctx = .ok (p.earnedAt ctx.balance.amount ctx.now) := by
  obtain ⟨n, hn⟩ := Int.eq_ofNat_of_zero_le h.nonneg
  have hlast := UInt32.le_trans h.updated ht
  have hle := UInt32.le_iff_toNat_le.1 hlast
  obtain ⟨d, hd⟩ : ∃ d, d = ctx.now.toNat - p.coinSecondsEarnedLastUpdate.toNat := ⟨_, rfl⟩
  have hdelta : (ctx.now.toNat : ℤ) - p.coinSecondsEarnedLastUpdate.toNat = (d : ℕ) := by omega
  have hd32 : d < 2 ^ 32 := by have := ctx.now.toNat_lt; omega
  have hn63 : n < 2 ^ 63 := by have := h.fits; omega
  have hnd : n * d < 2 ^ 95 := mul_lt hn63 hd32
  have hcap : n * p.period < 2 ^ 95 := mul_lt hn63 period_lt
  have hearned : p.coinSecondsEarned ≤ n * p.period := by
    have := h.earned_le
    rw [hn] at this
    exact_mod_cast this
  rw [computeCoinSecondsEarned, assertion_of hlast, earnedAt, hn, Int.toNat_natCast, ← hd]
  refine bind_eq_ok.2 ⟨(), rfl, ?_⟩
  dsimp only
  rw [hdelta, assertion_of (Int.natCast_nonneg d)]
  refine bind_eq_ok.2 ⟨(), rfl, ?_⟩
  rw [asUint128_natCast (by omega), asUint128_natCast (by omega), ← Nat.cast_mul, ← Nat.cast_mul,
    asUint128_natCast (by omega), asUint128_natCast (by omega), ← Nat.cast_add,
    asUint128_natCast (by omega)]

theorem Sound.update (h : p.Sound ctx.balance t) (ht : t ≤ ctx.now) :
    p.updateCoinSecondsEarned ctx = .ok { p with
      coinSecondsEarned := p.earnedAt ctx.balance.amount ctx.now
      coinSecondsEarnedLastUpdate := ctx.now } := by
  rw [updateCoinSecondsEarned, h.compute ctx ht]
  rfl

/-- **What is free** is what the policy says. -/
theorem Sound.allowed (h : p.Sound ctx.balance t) (ht : t ≤ ctx.now) :
    p.getAllowedWithdraw ctx =
      .ok ⟨p.allowedAt ctx.balance.amount ctx.now, ctx.balance.assetId⟩ := by
  have hle := p.allowedAt_le ctx.balance.amount ctx.now
  obtain ⟨n, hn⟩ := Int.eq_ofNat_of_zero_le h.nonneg
  have hn63 : n < 2 ^ 63 := by have := h.fits; omega
  rw [getAllowedWithdraw]
  rw [allowedAt] at hle ⊢
  split_ifs at hle ⊢ with hstart
  · rfl
  · rw [hn, Int.toNat_natCast] at hle
    have hfree : p.earnedAt ctx.balance.amount ctx.now / p.period ≤
        asUint128 ctx.balance.amount := by
      rw [hn, asUint128_natCast (by omega)]
      exact hle
    rw [h.compute ctx ht]
    refine bind_eq_ok.2 ⟨_, rfl, ?_⟩
    dsimp only
    rw [assertion_of hfree, hn]
    generalize p.earnedAt n ctx.now / p.period = free at hle
    refine bind_eq_ok.2 ⟨(), rfl, bind_eq_ok.2 ⟨free, toUint64_of_lt (by omega), ?_⟩⟩
    rw [asInt64_eq_self.2 ⟨by omega, by omega⟩]

end CddVestingPolicy

end Graphene
