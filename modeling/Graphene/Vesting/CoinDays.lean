import Graphene.Vesting.Policy
import Mathlib.Tactic.Linarith

/-!
# Coin days policies over time

A coin days policy is asked what it frees, and told of deposits and withdrawals, as time goes on.
No share ever counts for more seconds than the policy asks for, so that what is free is never more
than what there is, and no arithmetic goes wrong but one product: the seconds that come with shares
that are free when they are deposited.

* `VestingState.step` — a deposit or a withdrawal that the policy allows.
* `CddVestingPolicy.Sound.deposit_eq`, `CddVestingPolicy.Sound.depositVested_eq`,
  `CddVestingPolicy.Sound.withdraw_eq` — what becomes of the balance and of the policy.
* `VestingState.Safe` — what is to hold when a call is made.
* `coin_days_safe_iff` — along every run it does, exactly if the product fits each time.
* `vested_deposit_overflows` — a deposit for which it does not fit.
-/

set_option autoImplicit false

namespace Graphene

open Transitions

/-! ## What deposits and withdrawals do -/

namespace CddVestingPolicy

variable (p : CddVestingPolicy)

/-- The policy after `update_coin_seconds_earned`. -/
def updatedAt (balance : ℤ) (now : UInt32) : CddVestingPolicy :=
  { p with coinSecondsEarned := p.earnedAt balance now, coinSecondsEarnedLastUpdate := now }

/-- The policy with the seconds of some shares that are free. -/
def withFree (amount : ℤ) : CddVestingPolicy :=
  { p with coinSecondsEarned := p.coinSecondsEarned + amount.toNat * p.period }

/-- The policy without the seconds of some shares that are free. -/
def withoutFree (amount : ℤ) : CddVestingPolicy :=
  { p with coinSecondsEarned := p.coinSecondsEarned - amount.toNat * p.period }

variable {p} {obj : VestingBalanceObject} {t now : UInt32} {amount : Asset}

theorem Sound.deposit_eq (h : p.Sound obj.balance t) (ht : t ≤ now) (hp : obj.policy = .cdd p) :
    obj.deposit now amount = obj.balance.plus amount >>= fun balance ↦
      .ok { obj with
        policy := .cdd (p.updatedAt obj.balance.amount now)
        balance := balance } := by
  rw [VestingBalanceObject.deposit, hp]
  dsimp only
  rw [onDeposit, h.update (obj.context now amount) ht]
  rfl

theorem Sound.onDepositVested_eq (h : p.Sound obj.balance t) (ht : t ≤ now)
    (hpos : 0 ≤ amount.amount) (hfits : FitsInt64 (amount.amount * p.period)) :
    p.onDepositVested (obj.context now amount) =
      .ok ((p.updatedAt obj.balance.amount now).withFree amount.amount) := by
  obtain ⟨a, ha⟩ := Int.eq_ofNat_of_zero_le hpos
  have hle := p.earnedAt_le obj.balance.amount now
  have hbalance : obj.balance.amount.toNat * p.period < 2 ^ 95 :=
    mul_lt (by have := h.fits; omega) period_lt
  have hproduct : a * p.period < 2 ^ 63 := by
    have := hfits.2
    rw [ha] at this
    exact_mod_cast this
  rw [onDepositVested, onDeposit, h.update (obj.context now amount) ht]
  refine bind_eq_ok.2 ⟨_, rfl, bind_eq_ok.2 ⟨_, int64_of_fits hfits, ?_⟩⟩
  show Except.ok { p.updatedAt obj.balance.amount now with
    coinSecondsEarned := asUint128 ((p.earnedAt obj.balance.amount now : ℕ) +
      (asUint128 (amount.amount * p.period) : ℕ)) } = _
  rw [withFree, ha, Int.toNat_natCast, ← Nat.cast_mul, asUint128_natCast (by omega),
    ← Nat.cast_add, asUint128_natCast (by omega)]
  rfl

theorem Sound.depositVested_eq (h : p.Sound obj.balance t) (ht : t ≤ now)
    (hp : obj.policy = .cdd p) (hpos : 0 ≤ amount.amount)
    (hfits : FitsInt64 (amount.amount * p.period)) :
    obj.depositVested now amount = obj.balance.plus amount >>= fun balance ↦
      .ok { obj with
        policy := .cdd ((p.updatedAt obj.balance.amount now).withFree amount.amount)
        balance := balance } := by
  rw [VestingBalanceObject.depositVested, hp]
  dsimp only
  rw [h.onDepositVested_eq ht hpos hfits]
  rfl

/-- A deposit of free shares whose seconds do not fit means nothing. -/
theorem Sound.depositVested_of_not_fits (h : p.Sound obj.balance t) (ht : t ≤ now)
    (hp : obj.policy = .cdd p) (hfits : ¬FitsInt64 (amount.amount * p.period)) :
    obj.depositVested now amount = .error .undefined := by
  rw [VestingBalanceObject.depositVested, hp]
  dsimp only
  rw [onDepositVested, onDeposit, h.update (obj.context now amount) ht]
  exact bind_eq_error.2 (.inl (bind_eq_error.2
    (.inr ⟨_, rfl, bind_eq_error.2 (.inl (int64_of_not_fits hfits))⟩)))

theorem Sound.withdraw_eq (h : p.Sound obj.balance t) (ht : t ≤ now) (hp : obj.policy = .cdd p)
    (hid : amount.assetId = obj.balance.assetId) (hpos : 0 ≤ amount.amount)
    (hallowed : amount.amount ≤ p.allowedAt obj.balance.amount now) :
    obj.withdraw now amount = .ok { obj with
      policy := .cdd ((p.updatedAt obj.balance.amount now).withoutFree amount.amount)
      balance := ⟨obj.balance.amount - amount.amount, obj.balance.assetId⟩ } := by
  obtain ⟨a, ha⟩ := Int.eq_ofNat_of_zero_le hpos
  obtain ⟨n, hn⟩ := Int.eq_ofNat_of_zero_le h.nonneg
  have hn63 : n < 2 ^ 63 := by have := h.fits; omega
  have hfree := p.allowedAt_le obj.balance.amount now
  have hearned := p.allowedAt_mul_le obj.balance.amount now
  have hbalance : amount.amount ≤ obj.balance.amount := by omega
  have hneeded : a * p.period ≤ p.earnedAt obj.balance.amount now :=
    (Nat.mul_le_mul_right _ (by omega)).trans hearned
  have hlt : n * p.period < 2 ^ 95 := mul_lt hn63 period_lt
  have hcap : p.earnedAt obj.balance.amount now ≤ n * p.period :=
    (p.earnedAt_le _ now).trans_eq (congrArg (· * p.period) (by omega))
  have hneeded128 : asUint128 (asUint128 amount.amount * p.period) = a * p.period := by
    rw [ha, asUint128_natCast (by omega), ← Nat.cast_mul, asUint128_natCast (by omega)]
  have hpolicy : p.onWithdraw (obj.context now amount) =
      .ok ((p.updatedAt obj.balance.amount now).withoutFree amount.amount) := by
    rw [onWithdraw, h.update (obj.context now amount) ht]
    refine bind_eq_ok.2 ⟨_, rfl, bind_eq_ok.2 ⟨(), assertion_of ?_, ?_⟩⟩
    · exact hneeded128.trans_le hneeded
    · show Except.ok { p.updatedAt obj.balance.amount now with
        coinSecondsEarned := asUint128 ((p.earnedAt obj.balance.amount now : ℕ) -
          (asUint128 (asUint128 amount.amount * p.period) : ℕ)) } = _
      rw [hneeded128, withoutFree, ha, Int.toNat_natCast, ← Nat.cast_sub hneeded,
        asUint128_natCast (by omega)]
      rfl
  rw [VestingBalanceObject.withdraw, Asset.atMost_of_eq hid, hp]
  refine bind_eq_ok.2 ⟨_, rfl, bind_eq_ok.2 ⟨(), assertion_of (decide_eq_true hbalance), ?_⟩⟩
  dsimp only
  rw [hpolicy]
  have hminus := Asset.minus_eq hid.symm
    (show FitsInt64 (obj.balance.amount - amount.amount) from ⟨by omega, by omega⟩)
  exact bind_eq_ok.2 ⟨_, rfl, bind_eq_ok.2 ⟨_, rfl, bind_eq_ok.2 ⟨_, hminus, rfl⟩⟩⟩

/-! ## What stays sound -/

theorem Sound.later (h : p.Sound obj.balance t) (ht : t ≤ now) : p.Sound obj.balance now :=
  { h with updated := UInt32.le_trans h.updated ht }

theorem earnedAt_cast_le (p : CddVestingPolicy) (now : UInt32) {balance : ℤ} (hpos : 0 ≤ balance) :
    (p.earnedAt balance now : ℤ) ≤ balance * p.period := by
  obtain ⟨n, rfl⟩ := Int.eq_ofNat_of_zero_le hpos
  exact_mod_cast p.earnedAt_le n now

theorem Sound.after_deposit (h : p.Sound obj.balance t) (now : UInt32) (amount : Asset)
    (hpos : 0 ≤ amount.amount)
    (hfits : FitsInt64 (obj.balance.amount + amount.amount)) :
    (p.updatedAt obj.balance.amount now).Sound
      ⟨obj.balance.amount + amount.amount, obj.balance.assetId⟩ now where
  nonneg := Int.add_nonneg h.nonneg hpos
  fits := hfits.2
  earned_le := by
    refine (earnedAt_cast_le p now h.nonneg).trans ?_
    exact Int.mul_le_mul_of_nonneg_right (by dsimp only; omega) (Int.natCast_nonneg _)
  updated := UInt32.le_refl now

theorem Sound.after_depositVested (h : p.Sound obj.balance t) (now : UInt32) (amount : Asset)
    (hpos : 0 ≤ amount.amount)
    (hfits : FitsInt64 (obj.balance.amount + amount.amount)) :
    ((p.updatedAt obj.balance.amount now).withFree amount.amount).Sound
      ⟨obj.balance.amount + amount.amount, obj.balance.assetId⟩ now where
  nonneg := Int.add_nonneg h.nonneg hpos
  fits := hfits.2
  earned_le := by
    have hearned := earnedAt_cast_le p now h.nonneg
    have ha : (amount.amount.toNat : ℤ) = amount.amount := Int.toNat_of_nonneg hpos
    show ((p.earnedAt obj.balance.amount now + amount.amount.toNat * p.period : ℕ) : ℤ) ≤
      (obj.balance.amount + amount.amount) * p.period
    rw [Nat.cast_add, Nat.cast_mul, ha, Int.add_mul]
    omega
  updated := UInt32.le_refl now

theorem Sound.after_withdraw (h : p.Sound obj.balance t) (hpos : 0 ≤ amount.amount)
    (hallowed : amount.amount ≤ p.allowedAt obj.balance.amount now) :
    ((p.updatedAt obj.balance.amount now).withoutFree amount.amount).Sound
      ⟨obj.balance.amount - amount.amount, obj.balance.assetId⟩ now where
  nonneg := by
    have := p.allowedAt_le obj.balance.amount now
    have := h.nonneg
    dsimp only
    omega
  fits := by
    have := h.fits
    dsimp only
    omega
  earned_le := by
    have hearned := earnedAt_cast_le p now h.nonneg
    have ha : (amount.amount.toNat : ℤ) = amount.amount := Int.toNat_of_nonneg hpos
    have hneeded : amount.amount.toNat * p.period ≤ p.earnedAt obj.balance.amount now :=
      (Nat.mul_le_mul_right _ (by omega)).trans (p.allowedAt_mul_le obj.balance.amount now)
    show ((p.earnedAt obj.balance.amount now - amount.amount.toNat * p.period : ℕ) : ℤ) ≤
      (obj.balance.amount - amount.amount) * p.period
    rw [Nat.cast_sub hneeded, Nat.cast_mul, ha, Int.sub_mul]
    omega
  updated := UInt32.le_refl now

/-- A balance has been created, and nothing has been held for any time. -/
theorem sound_create {balance : Asset} (vestingSeconds startClaim : UInt32)
    (hpos : 0 ≤ balance.amount) (hfits : balance.amount < 2 ^ 63) :
    (⟨vestingSeconds, 0, startClaim, now⟩ : CddVestingPolicy).Sound balance now where
  nonneg := hpos
  fits := hfits
  earned_le := Int.mul_nonneg hpos (Int.natCast_nonneg _)
  updated := UInt32.le_refl now

theorem period_eq_max : p.period = max p.vestingSeconds.toNat 1 := by
  show (if p.vestingSeconds ≤ 1 then 1 else p.vestingSeconds).toNat = _
  split_ifs with hle
  · exact (max_eq_right (UInt32.le_iff_toNat_le.1 hle)).symm
  · exact (max_eq_left (UInt32.lt_iff_toNat_lt.1 (UInt32.not_le.1 hle)).le).symm

theorem vestingSeconds_le_period : p.vestingSeconds.toNat ≤ p.period :=
  (le_max_left _ _).trans_eq period_eq_max.symm

theorem period_of_ne_zero (h : p.vestingSeconds ≠ 0) : p.period = p.vestingSeconds.toNat :=
  period_eq_max.trans <| max_eq_left <|
    Nat.pos_of_ne_zero fun hzero ↦ h (UInt32.toNat_inj.1 hzero)

/-- What a deposit of free shares makes, when it makes a balance. -/
theorem sound_createLazily {owner : AccountId} {a : ℤ} {vestingSeconds : UInt32}
    {requireVesting : Bool} (hpos : 0 ≤ a) (hfits : a < 2 ^ 63)
    (h : VestingBalanceObject.createLazily owner a vestingSeconds requireVesting now = .ok obj) :
    ∃ p, obj = ⟨owner, ⟨a, coreAsset⟩, .cdd p⟩ ∧ p.vestingSeconds = vestingSeconds ∧
      p.startClaim = 0 ∧ p.coinSecondsEarnedLastUpdate = now ∧
      p.coinSecondsEarned = (if requireVesting then 0 else a.toNat * vestingSeconds.toNat) ∧
      (requireVesting = false → FitsInt64 (a * vestingSeconds.toNat)) ∧
      p.Sound obj.balance now := by
  obtain ⟨n, rfl⟩ := Int.eq_ofNat_of_zero_le hpos
  cases requireVesting with
  | true =>
    obtain rfl := Except.ok.inj h
    exact ⟨_, rfl, rfl, rfl, rfl, rfl, nofun, sound_create vestingSeconds 0 hpos hfits⟩
  | false =>
    obtain ⟨earned, hearned, hobj⟩ := bind_eq_ok.1 h
    obtain rfl := Except.ok.inj hobj
    have hproduct : FitsInt64 ((n : ℤ) * vestingSeconds.toNat) := by
      by_contra hnot
      cases (int64_of_not_fits hnot).symm.trans hearned
    obtain rfl := Except.ok.inj ((int64_of_fits hproduct).symm.trans hearned)
    have hlt : n * vestingSeconds.toNat < 2 ^ 63 := by
      have := hproduct.2
      exact_mod_cast this
    have hseconds : asUint128 (n * vestingSeconds.toNat : ℤ) = n * vestingSeconds.toNat := by
      rw [← Nat.cast_mul, asUint128_natCast (by omega)]
    refine ⟨_, rfl, rfl, rfl, rfl, hseconds, fun _ ↦ hproduct, hpos, hfits, ?_, UInt32.le_refl now⟩
    dsimp only
    rw [hseconds]
    exact_mod_cast Nat.mul_le_mul_left n
      (vestingSeconds_le_period (p := ⟨vestingSeconds, n * vestingSeconds.toNat, 0, now⟩))

end CddVestingPolicy

/-! ## Calls -/

/-- What a policy is told of. -/
inductive VestingAction where
  /-- `deposit`. -/
  | deposit
  /-- `deposit_vested`. -/
  | depositVested
  /-- `withdraw`. -/
  | withdraw
deriving DecidableEq

/-- A call of a vesting balance. -/
structure VestingCall where
  /-- The function. -/
  action : VestingAction
  /-- `now`. -/
  now : UInt32
  /-- `amount`. -/
  amount : Asset

namespace VestingBalanceObject

variable (obj : VestingBalanceObject) (c : VestingCall)

/-- Whether the policy allows a call. -/
def allows : Except Fault Bool :=
  match c.action with
  | .deposit => obj.isDepositAllowed c.now c.amount
  | .depositVested => obj.isDepositVestedAllowed c.now c.amount
  | .withdraw => obj.isWithdrawAllowed c.now c.amount

/-- The call. -/
def does : Except Fault VestingBalanceObject :=
  match c.action with
  | .deposit => obj.deposit c.now c.amount
  | .depositVested => obj.depositVested c.now c.amount
  | .withdraw => obj.withdraw c.now c.amount

end VestingBalanceObject

/-- A vesting balance, and the time of the last call. -/
structure VestingState where
  /-- The balance. -/
  obj : VestingBalanceObject
  /-- The time. -/
  time : UInt32

namespace VestingState

variable (s : VestingState) (c : VestingCall)

/-- A call with a positive amount that is not in the past. -/
def Timely : Prop := s.time ≤ c.now ∧ 0 < c.amount.amount

instance : Decidable (s.Timely c) := inferInstanceAs (Decidable (_ ∧ _))

/-- A call that the policy allows is made; any other is refused. -/
def step : Except Fault VestingState :=
  if s.Timely c then do
    if ← s.obj.allows c then .ok ⟨← s.obj.does c, c.now⟩ else .error .thrown
  else .error .thrown

/-- **What is to hold when a call is made**: what has been earned and what is free are within their
bounds, nothing goes wrong when it is found out whether the call is allowed, and if it is, it is
done. -/
def Safe : Prop :=
  ∃ p, s.obj.policy = .cdd p ∧
    (0 ≤ (p.coinSecondsEarned : ℤ) ∧ (p.coinSecondsEarned : ℤ) ≤ s.obj.balance.amount * p.period) ∧
    (s.time ≤ c.now → ∃ earned allowed : ℤ,
      (∃ n : ℕ, p.computeCoinSecondsEarned (s.obj.context c.now c.amount) = .ok n ∧ earned = n) ∧
      earned ≤ s.obj.balance.amount * p.period ∧
      s.obj.getAllowedWithdraw c.now = .ok ⟨allowed, s.obj.balance.assetId⟩ ∧
      0 ≤ allowed ∧ allowed ≤ s.obj.balance.amount) ∧
    (s.Timely c → s.obj.allows c ≠ .error .undefined ∧
      (s.obj.allows c = .ok true → ∃ obj', s.obj.does c = .ok obj'))

/-- **The seconds of free shares fit**, if such are deposited. -/
def ProductFits : Prop :=
  s.Timely c → s.obj.allows c = .ok true → c.action = .depositVested →
    ∀ p, s.obj.policy = .cdd p → FitsInt64 (c.amount.amount * p.period)

/-- A coin days balance that has been made, by an evaluator or by a deposit. -/
inductive Made : VestingState → Prop
  /-- By `vesting_balance_create_evaluator`. -/
  | create (owner : AccountId) (amount : Asset) (vestingSeconds startClaim now : UInt32)
    (hpos : 0 < amount.amount) (hmax : amount.amount ≤ maxShareSupply) :
    Made ⟨.create owner amount vestingSeconds startClaim now, now⟩
  /-- By `deposit_lazy_vesting`. -/
  | createLazily (owner : AccountId) (amount : ℤ) (vestingSeconds : UInt32) (requireVesting : Bool)
    (now : UInt32) (obj : VestingBalanceObject) (hpos : 0 < amount)
    (hmax : amount ≤ maxShareSupply)
    (h : VestingBalanceObject.createLazily owner amount vestingSeconds requireVesting now =
      .ok obj) :
    Made ⟨obj, now⟩

/-- What holds after every call. -/
def Sound : Prop :=
  ∃ p, s.obj.policy = .cdd p ∧ p.Sound s.obj.balance s.time

variable {s c}

theorem Made.sound (h : s.Made) : s.Sound := by
  have hlt : maxShareSupply < 2 ^ 63 := by decide
  cases h with
  | create owner amount vestingSeconds startClaim now hpos hmax =>
    exact ⟨_, rfl, CddVestingPolicy.sound_create _ _ hpos.le (hmax.trans_lt hlt)⟩
  | createLazily owner amount vestingSeconds requireVesting now obj hpos hmax h =>
    obtain ⟨p, rfl, -, -, -, -, -, hp⟩ :=
      CddVestingPolicy.sound_createLazily hpos.le (hmax.trans_lt hlt) h
    exact ⟨p, rfl, hp⟩

end VestingState

theorem sumBelowMaxShares_ne_undefined (a b : Asset) :
    sumBelowMaxShares a b ≠ .error .undefined := by
  rw [sumBelowMaxShares]
  split_ifs
  · intro h
    rcases bind_eq_error.1 h with h | ⟨_, _, h⟩
    · cases (orThrow_eq_error.1 h).2
    · cases h
  · nofun

theorem fits_of_sumBelowMaxShares {a b : Asset} (h : sumBelowMaxShares a b = .ok true) :
    FitsInt64 (b.amount + a.amount) := by
  rw [sumBelowMaxShares] at h
  split_ifs at h
  · obtain ⟨v, hv, -⟩ := bind_eq_ok.1 h
    have hsum := orThrow_eq_ok.1 hv
    rw [shareType] at hsum
    split_ifs at hsum with hfits
    rwa [Int.add_comm]
  · cases h

namespace VestingBalanceObject

open CddVestingPolicy

variable {obj : VestingBalanceObject} {p : CddVestingPolicy} {t now : UInt32} {amount : Asset}

theorem isDepositAllowed_ne_undefined (hp : obj.policy = .cdd p) :
    obj.isDepositAllowed now amount ≠ .error .undefined := by
  rw [isDepositAllowed, hp]
  dsimp only
  rw [CddVestingPolicy.isDepositAllowed]
  split_ifs
  · exact sumBelowMaxShares_ne_undefined _ _
  · nofun

theorem of_isDepositAllowed (hp : obj.policy = .cdd p)
    (h : obj.isDepositAllowed now amount = .ok true) :
    obj.balance.assetId = amount.assetId ∧ FitsInt64 (obj.balance.amount + amount.amount) := by
  rw [isDepositAllowed, hp] at h
  dsimp only at h
  rw [CddVestingPolicy.isDepositAllowed] at h
  split_ifs at h with hid
  · exact ⟨hid.symm, fits_of_sumBelowMaxShares h⟩
  · cases h

theorem isDepositVestedAllowed_eq (hp : obj.policy = .cdd p) :
    obj.isDepositVestedAllowed now amount = obj.isDepositAllowed now amount := by
  rw [isDepositVestedAllowed, isDepositAllowed, hp]
  rfl

/-- **A withdrawal is allowed** of what is free, and no assertion fails over it. -/
theorem isWithdrawAllowed_eq (h : p.Sound obj.balance t) (ht : t ≤ now) (hp : obj.policy = .cdd p) :
    obj.isWithdrawAllowed now amount =
      if amount.assetId = obj.balance.assetId then
        .ok (decide (amount.amount ≤ p.allowedAt obj.balance.amount now))
      else .error .thrown := by
  have hpolicy : p.isWithdrawAllowed (obj.context now amount) =
      amount.atMost ⟨p.allowedAt obj.balance.amount now, obj.balance.assetId⟩ := by
    rw [CddVestingPolicy.isWithdrawAllowed, h.allowed (obj.context now amount) ht]
    rfl
  rw [isWithdrawAllowed, hp]
  dsimp only
  rw [hpolicy]
  split_ifs with hid
  · have hbalance : amount.atMost obj.balance = _ := Asset.atMost_of_eq hid
    rw [Asset.atMost_of_eq (by exact hid), hbalance]
    refine bind_eq_ok.2 ⟨_, rfl, bind_eq_ok.2 ⟨_, rfl, bind_eq_ok.2 ⟨(), assertion_of ?_, rfl⟩⟩⟩
    have hle := p.allowedAt_le obj.balance.amount now
    have hpos := h.nonneg
    rw [decide_eq_true_eq, decide_eq_false_iff_not]
    dsimp only
    omega
  · exact bind_eq_error.2 (.inl (Asset.atMost_of_ne hid))

end VestingBalanceObject

namespace VestingState

open CddVestingPolicy

variable {s : VestingState} {c : VestingCall} {p : CddVestingPolicy}

theorem allows_ne_undefined (hp : s.obj.policy = .cdd p) (h : p.Sound s.obj.balance s.time)
    (hc : s.Timely c) : s.obj.allows c ≠ .error .undefined := by
  rw [VestingBalanceObject.allows]
  split
  · exact VestingBalanceObject.isDepositAllowed_ne_undefined hp
  · rw [VestingBalanceObject.isDepositVestedAllowed_eq hp]
    exact VestingBalanceObject.isDepositAllowed_ne_undefined hp
  · rw [VestingBalanceObject.isWithdrawAllowed_eq h hc.1 hp]
    split_ifs <;> nofun

/-- **What a call that is allowed does**: it is done, and leaves a sound balance. -/
theorem does_ok (hp : s.obj.policy = .cdd p) (h : p.Sound s.obj.balance s.time)
    (hc : s.Timely c) (hallows : s.obj.allows c = .ok true)
    (hfits : c.action = .depositVested → FitsInt64 (c.amount.amount * p.period)) :
    ∃ obj', s.obj.does c = .ok obj' ∧ Sound ⟨obj', c.now⟩ := by
  obtain ⟨obj, t⟩ := s
  obtain ⟨action, now, amount⟩ := c
  obtain ⟨ht, hpos⟩ := hc
  dsimp only at hp h ht hpos
  cases action with
  | deposit =>
    obtain ⟨hid, hsum⟩ := VestingBalanceObject.of_isDepositAllowed hp hallows
    refine ⟨_, (h.deposit_eq ht hp).trans (bind_eq_ok.2 ⟨_, Asset.plus_eq hid hsum, rfl⟩), ?_⟩
    exact ⟨_, rfl, h.after_deposit _ _ hpos.le hsum⟩
  | depositVested =>
    have hallows : obj.isDepositVestedAllowed now amount = .ok true := hallows
    rw [VestingBalanceObject.isDepositVestedAllowed_eq hp] at hallows
    obtain ⟨hid, hsum⟩ := VestingBalanceObject.of_isDepositAllowed hp hallows
    refine ⟨_, (h.depositVested_eq ht hp hpos.le (hfits rfl)).trans
      (bind_eq_ok.2 ⟨_, Asset.plus_eq hid hsum, rfl⟩), ?_⟩
    exact ⟨_, rfl, h.after_depositVested _ _ hpos.le hsum⟩
  | withdraw =>
    have hallows : obj.isWithdrawAllowed now amount = .ok true := hallows
    rw [VestingBalanceObject.isWithdrawAllowed_eq h ht hp] at hallows
    split_ifs at hallows with hid
    have hfree := of_decide_eq_true (Except.ok.inj hallows)
    exact ⟨_, h.withdraw_eq ht hp hid hpos.le hfree, _, rfl, h.after_withdraw hpos.le hfree⟩

/-- **A call is safe** exactly if the seconds of the free shares fit. -/
theorem Sound.safe_iff (h : s.Sound) : s.Safe c ↔ s.ProductFits c := by
  obtain ⟨p, hp, hsound⟩ := h
  constructor
  · rintro ⟨-, -, -, -, hdone⟩ hc hallows haction q hq
    obtain rfl : p = q := VestingPolicy.cdd.inj (hp.symm.trans hq)
    obtain ⟨obj', hdoes⟩ := (hdone hc).2 hallows
    by_contra hnot
    rw [VestingBalanceObject.does, haction] at hdoes
    cases (hsound.depositVested_of_not_fits hc.1 hp hnot).symm.trans hdoes
  · intro hfits
    have hearned (now : UInt32) := earnedAt_cast_le p now hsound.nonneg
    refine ⟨p, hp, ⟨Int.natCast_nonneg _, hsound.earned_le⟩, fun hlater ↦ ?_, fun hc ↦ ?_⟩
    · refine ⟨p.earnedAt s.obj.balance.amount c.now, p.allowedAt s.obj.balance.amount c.now,
        ⟨_, hsound.compute _ hlater, rfl⟩, hearned c.now, ?_, Int.natCast_nonneg _, ?_⟩
      · rw [VestingBalanceObject.getAllowedWithdraw, hp]
        exact hsound.allowed (s.obj.context c.now ⟨0, 0⟩) hlater
      · have := p.allowedAt_le s.obj.balance.amount c.now
        have := hsound.nonneg
        omega
    · refine ⟨allows_ne_undefined hp hsound hc, fun hallows ↦ ?_⟩
      obtain ⟨obj', hdoes, -⟩ := does_ok hp hsound hc hallows fun haction ↦
        hfits hc hallows haction p hp
      exact ⟨obj', hdoes⟩

theorem Sound.attempt (h : s.Sound) (hsafe : s.Safe c) : (attempt step s c).Sound := by
  refine attempt_induction h fun s' hs' ↦ ?_
  have hfits := h.safe_iff.1 hsafe
  obtain ⟨p, hp, hsound⟩ := h
  rw [step] at hs'
  split_ifs at hs' with hc
  obtain ⟨allowed, hallows, hs'⟩ := bind_eq_ok.1 hs'
  split_ifs at hs' with htrue
  subst htrue
  obtain ⟨obj', hdoes, hs'⟩ := bind_eq_ok.1 hs'
  obtain rfl := Except.ok.inj hs'
  obtain ⟨obj'', hdoes', hsound'⟩ := does_ok hp hsound hc hallows fun haction ↦
    hfits hc hallows haction p hp
  obtain rfl := Except.ok.inj (hdoes.symm.trans hdoes')
  exact hsound'

end VestingState

open VestingState

/-- **Coin days**: from the time it is made, and whatever calls are made of it, a coin days balance
is safe at every one of them, exactly if the seconds that come with free shares fit each time. -/
theorem coin_days_safe_iff {s : VestingState} (h : s.Made) (calls : List VestingCall) :
    Along VestingState.step Safe s calls ↔ Along VestingState.step ProductFits s calls :=
  Along.iff_of_inv h.sound (fun _ _ hs ↦ hs.safe_iff) fun _ _ hs hsafe ↦ hs.attempt hsafe

/-- A balance of one share that is held for a year, made at the time `1`. -/
def oneShare : VestingState := ⟨.create 7 ⟨1, coreAsset⟩ 31536000 0 1, 1⟩

theorem oneShare_made : oneShare.Made :=
  .create 7 ⟨1, coreAsset⟩ 31536000 0 1 Int.one_pos (by decide)

/-- A free deposit and a withdrawal, of one share with a balance of one share. -/
def oneShareCalls : List VestingCall :=
  [⟨.depositVested, 2, ⟨1, coreAsset⟩⟩, ⟨.withdraw, 2, ⟨1, coreAsset⟩⟩]

/-- One share is deposited and withdrawn at once. -/
theorem coin_days_safe_one_share : Along VestingState.step Safe oneShare oneShareCalls := by
  refine (coin_days_safe_iff oneShare_made oneShareCalls).2 ⟨?_, ?_, trivial⟩
  · intro _ _ _ p hp
    obtain rfl := VestingPolicy.cdd.inj hp
    decide
  · intro _ _ haction
    cases haction

/-- A free deposit of all the shares that there can be, but for one. -/
def otherShares : VestingCall := ⟨.depositVested, 2, ⟨maxShareSupply - 1, coreAsset⟩⟩

/-- With one share in the balance, all the others come free: the policy allows it, and the seconds
that come with them do not fit. -/
theorem vested_deposit_overflows :
    oneShare.obj.allows otherShares = .ok true ∧
      oneShare.obj.does otherShares = .error .undefined ∧
      ¬Along VestingState.step Safe oneShare [otherShares] := by
  have hallows : oneShare.obj.allows otherShares = .ok true := rfl
  have hdoes : oneShare.obj.does otherShares = .error .undefined := rfl
  refine ⟨hallows, hdoes, ?_⟩
  rintro ⟨⟨p, -, -, -, hdone⟩, -⟩
  obtain ⟨obj', hok⟩ := (hdone ⟨by decide, by decide⟩).2 hallows
  cases hdoes.symm.trans hok

end Graphene
