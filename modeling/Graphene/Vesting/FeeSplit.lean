import Graphene.Accounts.SpecialAuthorities
import Graphene.Lib.ProRata
import Graphene.Proposals.Proposal
import Graphene.Vesting.Cashback

/-!
# Splitting fees

The fees that an account has paid are pending until they are split between the network, the lifetime
referrer, the referrer and the registrar of the account, by percentages that the account has from
its creation or its upgrade.

Nothing checks the percentages when fees are split; they have to add up because the operations that
write them see to it, each in its own way.  Hence the states of a chain, and an invariant over the
accounts in them.

* `cutFee`, `FeeState.payOutFees`, `FeeState.processFees` — the split.
* `FeeState.upgradeAccount` — `account_upgrade_evaluator`.
* `FeeState.Reached` — the states of a chain: accounts are created, updated and upgraded.
* `Split` — a split of an amount; `Registration.AccountObject.split` — the one by the percentages.
* `process_fees_conserves_iff` — when the fees of an account are split.
-/

set_option autoImplicit false

namespace Graphene

namespace Registration

open Transitions

variable {K : Type}

/-! ## Fees -/

/-- `account_statistics_object`, as far as fees go. -/
@[ext]
structure FeeStatistics where
  /-- `pending_fees`. -/
  pendingFees : ℤ
  /-- `pending_vested_fees`. -/
  pendingVestedFees : ℤ
  /-- `lifetime_fees_paid`. -/
  lifetimeFeesPaid : ℤ

/-- The accounts, and what fees are split into. -/
structure FeeState (K : Type) where
  /-- The accounts, and what there is beside them. -/
  registration : State K
  /-- The `account_statistics_object`s, by the instances of their ids. -/
  statistics : ℕ → FeeStatistics
  /-- The vesting balances, and the supply. -/
  vesting : VestingDatabase
  /-- `accumulated_fees` of the core asset. -/
  accumulatedFees : ℤ
  /-- `reserve_percent_of_fee`. -/
  reservePercentOfFee : ℕ
  /-- `cashback_vesting_period_seconds`. -/
  cashbackVestingPeriodSeconds : UInt32

/-- `cut_fee`. -/
def cutFee (a : ℤ) (p : ℕ) : Except Fault ℤ :=
  if a = 0 ∨ p = 0 then .ok 0
  else if p = hundredPercentOfFee then .ok a
  else do .ok (asInt64 (← toUint64 (asUint128 (asUint128 a * p) / hundredPercentOfFee)))

namespace FeeState

variable (s : FeeState K)

/-- `get` of an account. -/
def account (account : AccountId) : Except Fault (AccountObject K) :=
  within (fun _ ↦ .thrown) (s.registration.account account)

/-- `modify` of an account. -/
def setAccount (account : AccountId) (a : AccountObject K) : FeeState K :=
  { s with registration :=
    { s.registration with accounts := s.registration.accounts.set account a } }

/-- `statistics` of an account. -/
def statisticsOf (a : AccountObject K) : FeeStatistics := s.statistics a.statistics

/-- `head_block_time()`, as vesting balances have it. -/
def now : UInt32 := .ofNat s.registration.headBlockTime

/-- `deposit_cashback`, of what the account is found by. -/
def depositCashback (account : AccountId) (amount : ℤ) (requireVesting : Bool) :
    Except Fault (FeeState K) := do
  let _ ← s.account account
  .ok { s with
    vesting := ← s.vesting.depositCashback amount s.cashbackVestingPeriodSeconds requireVesting
      s.now account }

/-- What `pay_out_fees` does of the referrer: if he's no longer a member, pay to the lifetime
referrer instead. -/
def checkReferrer (account : AccountId) : Except Fault (FeeState K) := do
  let a ← s.account account
  let referrer ← s.account a.referrer
  .ok (if referrer.isBasicAccount s.registration.headBlockTime then
    s.setAccount account { a with referrer := a.lifetimeReferrer } else s)

/-- `pay_out_fees`. -/
def payOutFees (account : AccountId) (coreFeeTotal : ℤ) (requireVesting : Bool) :
    Except Fault (FeeState K) := do
  let s ← s.checkReferrer account
  let a ← s.account account
  let networkCut ← cutFee coreFeeTotal a.networkFeePercentage
  assertion (networkCut ≤ coreFeeTotal)
  let reserveed ← cutFee networkCut s.reservePercentOfFee
  let accumulated ← safe (networkCut - reserveed)
  let sum ← safe (accumulated + reserveed)
  assertion (sum = networkCut)
  let lifetimeCut ← cutFee coreFeeTotal a.lifetimeReferrerFeePercentage
  let rest ← safe (coreFeeTotal - networkCut)
  let referral ← safe (rest - lifetimeCut)
  let accumulatedFees ← safe (s.accumulatedFees + networkCut)
  let referrerCut ← cutFee referral a.referrerRewardsPercentage
  let registrarCut ← safe (referral - referrerCut)
  let s := { s with accumulatedFees := accumulatedFees }
  let s ← s.depositCashback a.lifetimeReferrer lifetimeCut requireVesting
  let s ← s.depositCashback a.referrer referrerCut requireVesting
  let s ← s.depositCashback a.registrar registrarCut requireVesting
  let sum ← safe (referrerCut + registrarCut)
  let sum ← safe (sum + accumulated)
  let sum ← safe (sum + reserveed)
  let sum ← safe (sum + lifetimeCut)
  assertion (sum = coreFeeTotal)
  .ok s

/-- `process_fees`, of the statistics of the account. -/
def processFees (account : AccountId) : Except Fault (FeeState K) := do
  let a ← s.account account
  let stats := s.statisticsOf a
  if stats.pendingFees > 0 ∨ stats.pendingVestedFees > 0 then do
    let s ← s.payOutFees account stats.pendingFees true
    let s ← s.payOutFees account stats.pendingVestedFees false
    let pending ← safe (stats.pendingFees + stats.pendingVestedFees)
    let lifetimeFeesPaid ← safe (stats.lifetimeFeesPaid + pending)
    .ok { s with
      statistics := Function.update s.statistics a.statistics ⟨0, 0, lifetimeFeesPaid⟩ }
  else .ok s

/-- `account_upgrade_evaluator`. -/
def upgradeAccount (account : AccountId) (upgradeToLifetimeMember : Bool) :
    Except Fault (FeeState K) := do
  check (s.registration.headBlockTime < hardfork1Time) .thrown
  let a ← s.account account
  check (!a.isLifetimeMember) .thrown
  check upgradeToLifetimeMember .thrown
  let s ← s.processFees account
  let a ← s.account account
  .ok (s.setAccount account { a with
    membershipExpirationDate := maximumTime
    referrer := account
    registrar := account
    lifetimeReferrer := account
    lifetimeReferrerFeePercentage :=
      (hundredPercentOfFee + 2 ^ 16 - a.networkFeePercentage) % 2 ^ 16 })

end FeeState

/-! ## A split -/

/-- **A split** of an amount between the network, the lifetime referrer, the referrer and the
registrar of an account. -/
structure Split (total : ℤ) where
  /-- What the network gets. -/
  network : ℤ
  /-- What the lifetime referrer gets. -/
  lifetimeReferrer : ℤ
  /-- What the referrer gets. -/
  referrer : ℤ
  /-- What the registrar gets. -/
  registrar : ℤ
  /-- Nobody has to pay. -/
  nonneg : 0 ≤ network ∧ 0 ≤ lifetimeReferrer ∧ 0 ≤ referrer ∧ 0 ≤ registrar
  /-- All of it is split, and no more. -/
  sum_eq : network + lifetimeReferrer + referrer + registrar = total

/-- What is paid to the accounts. -/
def Split.cashbacks {total : ℤ} (p : Split total) (a : AccountObject K) (requireVesting : Bool) :
    List Cashback :=
  [⟨a.lifetimeReferrer, p.lifetimeReferrer, requireVesting⟩,
    ⟨a.referrer, p.referrer, requireVesting⟩, ⟨a.registrar, p.registrar, requireVesting⟩]

/-- Nobody is paid more than all of it. -/
theorem Split.cashbacks_valid {total : ℤ} (p : Split total) (hfits : total < 2 ^ 63)
    {a : AccountObject K} {requireVesting : Bool} :
    ∀ c ∈ p.cashbacks a requireVesting, c.Valid := by
  obtain ⟨hnetwork, hlifetime, hreferrer, hregistrar⟩ := p.nonneg
  have hsum := p.sum_eq
  simp only [cashbacks, List.forall_mem_cons]
  exact ⟨⟨hlifetime, by dsimp only; omega⟩, ⟨hreferrer, by dsimp only; omega⟩,
    ⟨hregistrar, by dsimp only; omega⟩, nofun⟩

/-- A percentage of fees. -/
def percentage (p : ℕ) : ProRata where
  fund := p
  shares := hundredPercentOfFee
  fund_nonneg := Int.natCast_nonneg p
  shares_pos := by decide

theorem percentage_add_le {p q : ℕ} (h : p + q ≤ hundredPercentOfFee) :
    (percentage p).fund + (percentage q).fund ≤ (percentage p).shares := by
  show (p : ℤ) + q ≤ (hundredPercentOfFee : ℕ)
  exact_mod_cast h

/-- The percentages of an account are such that nobody has to pay:
`chain_parameters::validate` and `account_create_operation::validate` see to it. -/
structure AccountObject.Splits (a : AccountObject K) : Prop where
  /-- What the network and the lifetime referrer get is no more than all. -/
  network_le : a.networkFeePercentage + a.lifetimeReferrerFeePercentage ≤ hundredPercentOfFee
  /-- What the referrer gets of the rest is no more than all of it. -/
  rewards_le : a.referrerRewardsPercentage ≤ hundredPercentOfFee

namespace AccountObject

variable (a : AccountObject K)

/-- What the network gets of `total`. -/
def networkCut (total : ℤ) : ℤ := (percentage a.networkFeePercentage).payout total

/-- What the lifetime referrer gets of `total`. -/
def lifetimeCut (total : ℤ) : ℤ := (percentage a.lifetimeReferrerFeePercentage).payout total

/-- What is left for the referrer and the registrar. -/
def referral (total : ℤ) : ℤ := total - a.networkCut total - a.lifetimeCut total

/-- What the referrer gets of `total`. -/
def referrerCut (total : ℤ) : ℤ :=
  (percentage a.referrerRewardsPercentage).payout (a.referral total)

/-- What the registrar gets of `total`. -/
def registrarCut (total : ℤ) : ℤ := a.referral total - a.referrerCut total

variable {a} {total : ℤ}

theorem networkCut_nonneg (h : 0 ≤ total) : 0 ≤ a.networkCut total := ProRata.payout_nonneg h

theorem lifetimeCut_nonneg (h : 0 ≤ total) : 0 ≤ a.lifetimeCut total := ProRata.payout_nonneg h

theorem Splits.referral_nonneg (ha : a.Splits) (h : 0 ≤ total) : 0 ≤ a.referral total := by
  have hle : a.networkCut total + a.lifetimeCut total ≤ total :=
    ProRata.payout_add_le rfl (percentage_add_le ha.network_le) h
  rw [referral]
  omega

theorem Splits.referrerCut_nonneg (ha : a.Splits) (h : 0 ≤ total) : 0 ≤ a.referrerCut total :=
  ProRata.payout_nonneg (ha.referral_nonneg h)

theorem Splits.registrarCut_nonneg (ha : a.Splits) (h : 0 ≤ total) : 0 ≤ a.registrarCut total := by
  have hle : a.referrerCut total + (percentage 0).payout (a.referral total) ≤ a.referral total :=
    ProRata.payout_add_le rfl (percentage_add_le ha.rewards_le) (ha.referral_nonneg h)
  have hnone : 0 ≤ (percentage 0).payout (a.referral total) :=
    ProRata.payout_nonneg (ha.referral_nonneg h)
  rw [registrarCut]
  omega

/-- What is paid to the accounts. -/
def cashbacks (a : AccountObject K) (total : ℤ) (requireVesting : Bool) : List Cashback :=
  [⟨a.lifetimeReferrer, a.lifetimeCut total, requireVesting⟩,
    ⟨a.referrer, a.referrerCut total, requireVesting⟩,
    ⟨a.registrar, a.registrarCut total, requireVesting⟩]

/-- **The split by the percentages** of the account. -/
def split (ha : a.Splits) (h : 0 ≤ total) : Split total where
  network := a.networkCut total
  lifetimeReferrer := a.lifetimeCut total
  referrer := a.referrerCut total
  registrar := a.registrarCut total
  nonneg := ⟨networkCut_nonneg h, lifetimeCut_nonneg h, ha.referrerCut_nonneg h,
    ha.registrarCut_nonneg h⟩
  sum_eq := by
    rw [registrarCut, referral]
    omega

end AccountObject

/-- **A cut** is a percentage, rounded down. -/
theorem cutFee_eq {a : ℤ} {p : ℕ} (hpos : 0 ≤ a) (hfits : a < 2 ^ 63)
    (hp : p ≤ hundredPercentOfFee) : cutFee a p = .ok ((percentage p).payout a) := by
  obtain ⟨n, rfl⟩ := Int.eq_ofNat_of_zero_le hpos
  have hn : n < 2 ^ 63 := by exact_mod_cast hfits
  have hcut : (percentage p).payout n = (n * p / hundredPercentOfFee : ℕ) := by
    rw [Int.natCast_ediv, Nat.cast_mul]
    rfl
  rw [cutFee, hcut]
  split_ifs with hnone hall
  · have hzero : n * p = 0 := by
      rcases hnone with hn | hp
      · rw [Int.natCast_eq_zero.1 hn, Nat.zero_mul]
      · rw [hp, Nat.mul_zero]
    rw [hzero, Nat.zero_div, Nat.cast_zero]
  · rw [hall, Nat.mul_div_cancel _ (by decide)]
  · have hle : n * p / hundredPercentOfFee ≤ n :=
      Nat.div_le_of_le_mul (Nat.mul_comm n p ▸ Nat.mul_le_mul_right n hp)
    have hproduct : n * p < 2 ^ 128 :=
      (Nat.mul_le_mul hn.le (hp.trans (by decide : hundredPercentOfFee ≤ 2 ^ 14))).trans_lt
        (by decide)
    rw [asUint128_natCast (hn.trans (by decide)), ← Nat.cast_mul, asUint128_natCast hproduct,
      toUint64_of_lt (hle.trans_lt (hn.trans (by decide)))]
    generalize n * p / hundredPercentOfFee = cut at hle
    exact congrArg _ (asInt64_eq_self.2 ⟨by omega, by omega⟩)

/-! ## The states of a chain -/

/-- What `chain_parameters::validate` asks of the percentages of fees. -/
def PercentagesValid (p : ChainParameters) (reservePercentOfFee : ℕ) : Prop :=
  reservePercentOfFee ≤ hundredPercentOfFee ∧ p.networkPercentOfFee ≤ hundredPercentOfFee ∧
    p.lifetimeReferrerPercentOfFee ≤ hundredPercentOfFee ∧
    p.networkPercentOfFee + p.lifetimeReferrerPercentOfFee ≤ hundredPercentOfFee

/-- What is counted is a `share_type`, and not negative. -/
structure FeeStatistics.Valid (t : FeeStatistics) : Prop where
  /-- `pending_fees`. -/
  pending : 0 ≤ t.pendingFees ∧ t.pendingFees < 2 ^ 63
  /-- `pending_vested_fees`. -/
  pendingVested : 0 ≤ t.pendingVestedFees ∧ t.pendingVestedFees < 2 ^ 63
  /-- `lifetime_fees_paid`. -/
  lifetime : 0 ≤ t.lifetimeFeesPaid ∧ t.lifetimeFeesPaid < 2 ^ 63

/-- `GRAPHENE_PROXY_TO_SELF_ACCOUNT`. -/
def proxyToSelfAccount : AccountId := 5

/-- `GRAPHENE_DEFAULT_NETWORK_PERCENT_OF_FEE`. -/
def defaultNetworkPercentOfFee : ℕ := 20 * (hundredPercentOfFee / 100)

/-- A blockchain account, as `init_genesis` creates it. -/
structure IsSpecialAccount (id : AccountId) (a : AccountObject K) : Prop where
  /-- It is a lifetime member. -/
  membershipExpirationDate : a.membershipExpirationDate = maximumTime
  /-- `registrar`. -/
  registrar : a.registrar = if id = proxyToSelfAccount then nullAccount else id
  /-- `referrer`. -/
  referrer : a.referrer = a.registrar
  /-- `lifetime_referrer`. -/
  lifetimeReferrer : a.lifetimeReferrer = a.registrar
  /-- `network_fee_percentage`. -/
  networkFeePercentage : a.networkFeePercentage =
    if id = nullAccount ∨ id = proxyToSelfAccount then 0 else defaultNetworkPercentOfFee
  /-- `lifetime_referrer_fee_percentage`. -/
  lifetimeReferrerFeePercentage :
    a.lifetimeReferrerFeePercentage = hundredPercentOfFee - a.networkFeePercentage
  /-- `referrer_rewards_percentage`. -/
  referrerRewardsPercentage : a.referrerRewardsPercentage = 0

namespace FeeState

/-- What is counted of fees, and where they go. -/
structure Counted (s : FeeState K) : Prop where
  /-- The vesting balances are those of a chain. -/
  vesting : s.vesting.Reached s.now
  /-- The supply is a `share_type`. -/
  supply : FitsInt64 s.vesting.currentSupply
  /-- The fees of the network are a `share_type`. -/
  accumulated : FitsInt64 s.accumulatedFees
  /-- What accounts have paid. -/
  statistics : ∀ i, (s.statistics i).Valid

/-- The state when the blockchain accounts have been created. -/
structure AtGenesis (s : FeeState K) : Prop where
  /-- There are no other accounts. -/
  special : ∀ id a, s.registration.accounts[id]? = some a → IsSpecialAccount id a
  /-- None is missing. -/
  length : proxyToSelfAccount < s.registration.accounts.length
  /-- The time is not zero. -/
  time : 0 < s.registration.headBlockTime ∧ s.registration.headBlockTime ≤ maximumTime
  /-- The parameters are valid. -/
  percentages : PercentagesValid s.registration.parameters s.reservePercentOfFee
  /-- What is counted. -/
  counted : s.Counted

/-- **The states of a chain**: accounts are created, updated and upgraded, and fees are split. -/
inductive Reached : FeeState K → Prop
  /-- Genesis. -/
  | genesis {s : FeeState K} : s.AtGenesis → Reached s
  /-- An initial account is created, without `validate`. -/
  | initial {s : FeeState K} {r : State K} (o : AccountCreate K)
    (hpercent : o.referrerPercent = 0) : Reached s → o.doEvaluate s.registration = .ok () →
      o.doApply s.registration = .ok r → Reached { s with registration := r }
  /-- An account is created or updated. -/
  | operation {s : FeeState K} {r : State K} (op : AccountOperation K) :
    Reached s → applyOperation s.registration op = .ok r → Reached { s with registration := r }
  /-- An account is upgraded. -/
  | upgrade {s s' : FeeState K} (account : AccountId) (upgradeToLifetimeMember : Bool) :
    Reached s → s.upgradeAccount account upgradeToLifetimeMember = .ok s' → Reached s'
  /-- The fees of an account are split. -/
  | processFees {s s' : FeeState K} (account : AccountId) :
    Reached s → s.processFees account = .ok s' → Reached s'
  /-- The committee changes the parameters. -/
  | parameters {s : FeeState K} (p : ChainParameters) (reservePercentOfFee : ℕ)
    (cashbackVestingPeriodSeconds : UInt32) (hvalid : PercentagesValid p reservePercentOfFee) :
    Reached s → Reached { s with
      registration := { s.registration with parameters := p }
      reservePercentOfFee := reservePercentOfFee
      cashbackVestingPeriodSeconds := cashbackVestingPeriodSeconds }
  /-- Time goes by, fees are paid, and balances and the fees of the network are used. -/
  | elsewhere {s s' : FeeState K} (headBlockTime : ℕ)
    (htime : s.registration.headBlockTime ≤ headBlockTime ∧ headBlockTime ≤ maximumTime)
    (haccounts : s'.registration = { s.registration with headBlockTime := headBlockTime })
    (hreserve : s'.reservePercentOfFee = s.reservePercentOfFee) (hcounted : s'.Counted) :
    Reached s → Reached s'

end FeeState

/-! ## What holds of accounts -/

/-- An account whose fees can be split. -/
structure AccountOk (accounts : List (AccountObject K)) (a : AccountObject K) : Prop where
  /-- Nobody has to pay. -/
  splits : a.Splits
  /-- It is a basic account or a lifetime member. -/
  membership : a.membershipExpirationDate = 0 ∨ a.membershipExpirationDate = maximumTime
  /-- The referrer is a lifetime member. -/
  referrer : ∃ r, accounts[a.referrer]? = some r ∧ r.isLifetimeMember = true
  /-- There is the lifetime referrer. -/
  lifetimeReferrer : a.lifetimeReferrer < accounts.length
  /-- There is the registrar. -/
  registrar : a.registrar < accounts.length

/-- **What holds of the accounts of a chain.** -/
structure State.FeesOk (s : State K) : Prop where
  /-- The accounts. -/
  accounts : ∀ a ∈ s.accounts, AccountOk s.accounts a
  /-- The time is not zero. -/
  time : 0 < s.headBlockTime ∧ s.headBlockTime ≤ maximumTime
  /-- The parameters. -/
  percentages : s.parameters.networkPercentOfFee + s.parameters.lifetimeReferrerPercentOfFee ≤
    hundredPercentOfFee

/-- The accounts that there were are there, and lifetime members stay so. -/
structure AccountsGrow (accounts accounts' : List (AccountObject K)) : Prop where
  /-- The accounts are there. -/
  length_le : accounts.length ≤ accounts'.length
  /-- The lifetime members. -/
  members : ∀ (i : ℕ) (r : AccountObject K), accounts[i]? = some r → r.isLifetimeMember = true →
    ∃ r' : AccountObject K, accounts'[i]? = some r' ∧ r'.isLifetimeMember = true

section

variable {accounts accounts' : List (AccountObject K)} {a a' : AccountObject K} {id : AccountId}

theorem AccountOk.grow (h : AccountOk accounts a) (hgrow : AccountsGrow accounts accounts') :
    AccountOk accounts' a where
  splits := h.splits
  membership := h.membership
  referrer := by
    obtain ⟨r, hr, hmember⟩ := h.referrer
    exact hgrow.members _ r hr hmember
  lifetimeReferrer := h.lifetimeReferrer.trans_le hgrow.length_le
  registrar := h.registrar.trans_le hgrow.length_le

theorem accountsGrow_append (accounts : List (AccountObject K)) (a : AccountObject K) :
    AccountsGrow accounts (accounts ++ [a]) where
  length_le := by
    rw [List.length_append]
    exact Nat.le_add_right _ _
  members i r hr hmember := by
    refine ⟨r, ?_, hmember⟩
    rw [List.getElem?_append_left (List.getElem?_eq_some_iff.1 hr).1, hr]

theorem accountsGrow_set (ha : accounts[id]? = some a)
    (hmember : a.isLifetimeMember = true → a'.isLifetimeMember = true) :
    AccountsGrow accounts (accounts.set id a') where
  length_le := (List.length_set ..).ge
  members i r hr hr' := by
    by_cases hi : id = i
    · subst hi
      obtain rfl := Option.some.inj (ha.symm.trans hr)
      exact ⟨a', List.getElem?_set_self (List.getElem?_eq_some_iff.1 hr).1, hmember hr'⟩
    · exact ⟨r, (List.getElem?_set_ne hi).trans hr, hr'⟩

end

/-! ## Creating and updating accounts -/

/-- What fees go by, beside the accounts. -/
structure SameParameters (s s' : State K) : Prop where
  /-- `network_percent_of_fee`. -/
  network : s'.parameters.networkPercentOfFee = s.parameters.networkPercentOfFee
  /-- `lifetime_referrer_percent_of_fee`. -/
  lifetime : s'.parameters.lifetimeReferrerPercentOfFee = s.parameters.lifetimeReferrerPercentOfFee
  /-- `head_block_time()`. -/
  time : s'.headBlockTime = s.headBlockTime

section

variable {s s' s'' : State K} {account : AccountId}

theorem SameParameters.refl (s : State K) : SameParameters s s := ⟨rfl, rfl, rfl⟩

theorem SameParameters.trans (h : SameParameters s s') (h' : SameParameters s' s'') :
    SameParameters s s'' :=
  ⟨h'.network.trans h.network, h'.lifetime.trans h.lifetime, h'.time.trans h.time⟩

theorem createSpecialAuthority_same (h : s.createSpecialAuthority account = .ok s') :
    s'.accounts = s.accounts ∧ SameParameters s s' := by
  rw [State.createSpecialAuthority] at h
  split at h
  · obtain rfl := Except.ok.inj h
    exact ⟨rfl, rfl, rfl, rfl⟩
  · cases h

theorem removeSpecialAuthority_same (h : s.removeSpecialAuthority account = .ok s') :
    s'.accounts = s.accounts ∧ SameParameters s s' := by
  rw [State.removeSpecialAuthority] at h
  split at h
  · obtain rfl := Except.ok.inj h
    exact ⟨rfl, rfl, rfl, rfl⟩
  · cases h

theorem countRegistered_same (h : s.countRegistered = .ok s') :
    s'.accounts = s.accounts ∧ SameParameters s s' := by
  obtain ⟨-, -, h⟩ := bind_eq_ok.1 h
  obtain rfl := Except.ok.inj h
  exact ⟨rfl, rfl, rfl, rfl⟩

variable {o : AccountCreate K}

theorem registerSpecialAuthority_same (h : o.registerSpecialAuthority account s = .ok s') :
    s'.accounts = s.accounts ∧ SameParameters s s' := by
  rw [AccountCreate.registerSpecialAuthority] at h
  split at h
  · exact createSpecialAuthority_same h
  · obtain rfl := Except.ok.inj h
    exact ⟨rfl, .refl s⟩

theorem registerBuyback_same (h : o.registerBuyback account s = .ok s') :
    s'.accounts = s.accounts ∧ SameParameters s s' := by
  rw [AccountCreate.registerBuyback] at h
  split at h
  · obtain ⟨-, -, h⟩ := bind_eq_ok.1 h
    obtain ⟨asset, -, h⟩ := bind_eq_ok.1 h
    obtain rfl := Except.ok.inj h
    exact ⟨rfl, rfl, rfl, rfl⟩
  · obtain rfl := Except.ok.inj h
    exact ⟨rfl, .refl s⟩

/-- **A new account** has the percentages of the parameters, and the lifetime referrer of its
referrer. -/
structure AccountCreate.Makes (o : AccountCreate K) (s : State K) (a : AccountObject K) : Prop where
  /-- `membership_expiration_date`. -/
  membership : a.membershipExpirationDate = 0
  /-- `registrar`. -/
  registrar : a.registrar = o.registrar
  /-- `referrer`. -/
  referrer : a.referrer = o.referrer
  /-- `lifetime_referrer`. -/
  lifetimeReferrer : ∃ r, s.accounts[o.referrer]? = some r ∧ a.lifetimeReferrer = r.lifetimeReferrer
  /-- `network_fee_percentage`. -/
  network : a.networkFeePercentage = s.parameters.networkPercentOfFee
  /-- `lifetime_referrer_fee_percentage`. -/
  lifetime : a.lifetimeReferrerFeePercentage = s.parameters.lifetimeReferrerPercentOfFee
  /-- `referrer_rewards_percentage`. -/
  rewards : a.referrerRewardsPercentage = o.referrerPercent

theorem createAccount_makes (h : o.createAccount s = .ok s') :
    ∃ a, o.Makes s a ∧ s'.accounts = s.accounts ++ [a] ∧ SameParameters s s' := by
  obtain ⟨r, hr, h⟩ := bind_eq_ok.1 h
  obtain ⟨-, -, h⟩ := bind_eq_ok.1 h
  obtain rfl := Except.ok.inj h
  refine ⟨_, ?_, rfl, rfl, rfl, rfl⟩
  exact ⟨rfl, rfl, rfl, ⟨r, account_eq_ok.1 hr, rfl⟩, rfl, rfl, rfl⟩

theorem create_makes (h : o.doApply s = .ok s') :
    ∃ a, o.Makes s a ∧ s'.accounts = s.accounts ++ [a] ∧ SameParameters s s' := by
  simp only [AccountCreate.doApply, bind_eq_ok, within_eq_ok] at h
  obtain ⟨s₁, h₁, s₂, h₂, s₃, h₃, h₄⟩ := h
  obtain ⟨a, ha, hacc₁, hsame₁⟩ := createAccount_makes h₁
  obtain ⟨hacc₂, hsame₂⟩ := countRegistered_same h₂
  obtain ⟨hacc₃, hsame₃⟩ := registerSpecialAuthority_same h₃
  obtain ⟨hacc₄, hsame₄⟩ := registerBuyback_same h₄
  exact ⟨a, ha, by rw [hacc₄, hacc₃, hacc₂, hacc₁],
    ((hsame₁.trans hsame₂).trans hsame₃).trans hsame₄⟩

/-- What the evaluator asks of the registrar and of the referrer. -/
theorem create_evaluated (h : o.doEvaluate s = .ok ()) :
    o.registrar < s.accounts.length ∧
      ∃ r, s.accounts[o.referrer]? = some r ∧ r.isMember s.headBlockTime = true := by
  obtain ⟨payer, hpayer, h⟩ := bind_eq_ok.1 h
  obtain ⟨_, -, h⟩ := bind_eq_ok.1 h
  obtain ⟨_, -, h⟩ := bind_eq_ok.1 h
  obtain ⟨r, hr, h⟩ := bind_eq_ok.1 h
  obtain ⟨_, hmember, -⟩ := bind_eq_ok.1 h
  exact ⟨(List.getElem?_eq_some_iff.1 (account_eq_ok.1 hpayer)).1, r, account_eq_ok.1 hr,
    check_eq_ok.1 hmember⟩

theorem State.FeesOk.create (h : s.FeesOk) (hpercent : o.referrerPercent ≤ hundredPercentOfFee)
    (heval : o.doEvaluate s = .ok ()) (happly : o.doApply s = .ok s') :
    s'.FeesOk ∧ s'.headBlockTime = s.headBlockTime := by
  obtain ⟨hregistrar, r, hr, hmember⟩ := create_evaluated heval
  obtain ⟨a, ha, haccounts, hsame⟩ := create_makes happly
  have hrOk := h.accounts r (List.mem_of_getElem? hr)
  have hgrow := accountsGrow_append s.accounts a
  have hlife : r.isLifetimeMember = true := by
    rw [AccountObject.isMember, AccountObject.isBasicAccount] at hmember
    rcases hrOk.membership with hbasic | hlife
    · rw [hbasic, decide_eq_true h.time.1] at hmember
      cases hmember
    · exact decide_eq_true hlife
  have haOk : AccountOk s.accounts a := by
    refine ⟨⟨?_, ?_⟩, .inl ha.membership, ?_, ?_, ?_⟩
    · rw [ha.network, ha.lifetime]
      exact h.percentages
    · rw [ha.rewards]
      exact hpercent
    · exact ⟨r, ha.referrer ▸ hr, hlife⟩
    · obtain ⟨r', hr', hlifetime⟩ := ha.lifetimeReferrer
      obtain rfl := Option.some.inj (hr.symm.trans hr')
      exact hlifetime ▸ hrOk.lifetimeReferrer
    · exact ha.registrar ▸ hregistrar
  refine ⟨⟨fun b hb ↦ ?_, hsame.time ▸ h.time, ?_⟩, hsame.time⟩
  · rw [haccounts] at hb ⊢
    rcases List.mem_append.1 hb with hb | hb
    · exact (h.accounts b hb).grow hgrow
    · obtain rfl := List.mem_singleton.1 hb
      exact haOk.grow hgrow
  · rw [hsame.network, hsame.lifetime]
    exact h.percentages

/-- An account is set to one that is fine as well. -/
theorem State.FeesOk.set {a a' : AccountObject K} (h : s.FeesOk)
    (ha : s.accounts[account]? = some a) (ha' : AccountOk (s.accounts.set account a') a')
    (hmember : a.isLifetimeMember = true → a'.isLifetimeMember = true)
    (haccounts : s'.accounts = s.accounts.set account a') (hsame : SameParameters s s') :
    s'.FeesOk := by
  refine ⟨fun b hb ↦ ?_, hsame.time ▸ h.time, ?_⟩
  · rw [haccounts] at hb ⊢
    rcases List.mem_or_eq_of_mem_set hb with hb | rfl
    · exact (h.accounts b hb).grow (accountsGrow_set ha hmember)
    · exact ha'
  · rw [hsame.network, hsame.lifetime]
    exact h.percentages

theorem State.FeesOk.update {o : AccountUpdate K} (h : s.FeesOk) (happly : o.doApply s = .ok s') :
    s'.FeesOk ∧ s'.headBlockTime = s.headBlockTime := by
  obtain ⟨a, ha, happly⟩ := bind_eq_ok.1 happly
  have ha := account_eq_ok.1 (within_eq_ok.1 ha)
  have hsame : s'.accounts = s.accounts.set o.account (o.updated a) ∧ SameParameters s s' := by
    dsimp only at happly
    split_ifs at happly
    · obtain ⟨haccounts, hsame⟩ := removeSpecialAuthority_same happly
      exact ⟨haccounts, hsame.network, hsame.lifetime, hsame.time⟩
    · obtain ⟨haccounts, hsame⟩ := createSpecialAuthority_same happly
      exact ⟨haccounts, hsame.network, hsame.lifetime, hsame.time⟩
    · obtain rfl := Except.ok.inj happly
      exact ⟨rfl, rfl, rfl, rfl⟩
  have hgrow : AccountsGrow s.accounts (s.accounts.set o.account (o.updated a)) :=
    accountsGrow_set ha id
  have haOk := (h.accounts a (List.mem_of_getElem? ha)).grow hgrow
  have hupdated : AccountOk (s.accounts.set o.account (o.updated a)) (o.updated a) :=
    ⟨⟨haOk.splits.network_le, haOk.splits.rewards_le⟩, haOk.membership, haOk.referrer,
      haOk.lifetimeReferrer, haOk.registrar⟩
  exact ⟨h.set ha hupdated id hsame.1 hsame.2, hsame.2.time⟩

theorem State.FeesOk.operation {op : AccountOperation K} (h : s.FeesOk)
    (happly : applyOperation s op = .ok s') : s'.FeesOk ∧ s'.headBlockTime = s.headBlockTime := by
  cases op with
  | create o =>
    obtain ⟨_, hvalid, happly⟩ := bind_eq_ok.1 happly
    obtain ⟨_, heval, happly⟩ := bind_eq_ok.1 happly
    have hvalid := check_eq_ok.1 (within_eq_ok.1 hvalid)
    simp only [AccountCreate.validate, Bool.and_eq_true, decide_eq_true_eq] at hvalid
    exact h.create hvalid.1.1.1.1.1.1.2 (within_eq_ok.1 heval) happly
  | update o =>
    obtain ⟨_, -, happly⟩ := bind_eq_ok.1 happly
    obtain ⟨_, -, happly⟩ := bind_eq_ok.1 happly
    exact h.update happly

end

/-! ## Splitting fees -/

namespace FeeState

variable {s s' : FeeState K} {account : AccountId} {a : AccountObject K} {total amount : ℤ}
  {requireVesting : Bool}

theorem AtGenesis.feesOk (h : s.AtGenesis) : s.registration.FeesOk := by
  refine ⟨fun a ha ↦ ?_, h.time, h.percentages.2.2.2⟩
  obtain ⟨id, hid⟩ := List.getElem?_of_mem ha
  have hspecial := h.special id a hid
  have hlength := h.length
  rw [proxyToSelfAccount] at hlength
  have hlt : a.registrar < s.registration.accounts.length := by
    rw [hspecial.registrar]
    split_ifs
    · exact (by decide : nullAccount < 5).trans hlength
    · exact (List.getElem?_eq_some_iff.1 hid).1
  have hnetwork : a.networkFeePercentage ≤ hundredPercentOfFee := by
    rw [hspecial.networkFeePercentage]
    split_ifs <;> decide
  refine ⟨⟨?_, ?_⟩, .inr hspecial.membershipExpirationDate, ?_, ?_, hlt⟩
  · rw [hspecial.lifetimeReferrerFeePercentage]
    omega
  · rw [hspecial.referrerRewardsPercentage]
    exact Nat.zero_le _
  · refine ⟨_, List.getElem?_eq_getElem (hspecial.referrer ▸ hlt), ?_⟩
    exact decide_eq_true
      (h.special _ _ (List.getElem?_eq_getElem (hspecial.referrer ▸ hlt))).membershipExpirationDate
  · exact hspecial.lifetimeReferrer ▸ hlt

theorem ok_bind {ε α β : Type} (x : α) (f : α → Except ε β) : (Except.ok x >>= f) = f x := rfl

theorem account_of_some (ha : s.registration.accounts[account]? = some a) :
    s.account account = .ok a :=
  within_eq_ok.2 (account_eq_ok.2 ha)

theorem depositCashback_eq (hlt : account < s.registration.accounts.length) :
    s.depositCashback account amount requireVesting =
      s.vesting.depositCashback amount s.cashbackVestingPeriodSeconds requireVesting s.now
        account >>= fun vesting ↦ .ok { s with vesting := vesting } := by
  rw [depositCashback, account_of_some (List.getElem?_eq_getElem hlt)]
  rfl

theorem depositCashbacks_eq {cs : List Cashback}
    (hcs : ∀ c ∈ cs, c.acct < s.registration.accounts.length) :
    cs.foldlM (fun s c ↦ s.depositCashback c.acct c.amount c.requireVesting) s =
      s.vesting.depositCashbacks s.cashbackVestingPeriodSeconds s.now cs >>= fun vesting ↦
        .ok { s with vesting := vesting } := by
  induction cs generalizing s with
  | nil => rfl
  | cons c cs ih =>
    obtain ⟨hc, hcs⟩ := List.forall_mem_cons.1 hcs
    rw [List.foldlM_cons, depositCashback_eq hc, VestingDatabase.depositCashbacks,
      List.foldlM_cons, bind_assoc, bind_assoc]
    exact bind_congr fun vesting ↦ ih (s := { s with vesting := vesting }) hcs

/-- The referrer is a lifetime member: nothing has to be done about it. -/
theorem checkReferrer_eq (h : s.registration.FeesOk)
    (ha : s.registration.accounts[account]? = some a) : s.checkReferrer account = .ok s := by
  obtain ⟨r, hr, hmember⟩ := (h.accounts a (List.mem_of_getElem? ha)).referrer
  have hbasic : ¬r.isBasicAccount s.registration.headBlockTime = true := by
    rw [AccountObject.isBasicAccount, of_decide_eq_true hmember, decide_eq_true_eq]
    exact Nat.not_lt.2 h.time.2
  rw [checkReferrer, account_of_some ha, ok_bind, account_of_some hr, ok_bind, if_neg hbasic]

/-- **Paying out fees** splits them by the percentages of the account. -/
theorem payOutFees_eq (h : s.registration.FeesOk)
    (hreserve : s.reservePercentOfFee ≤ hundredPercentOfFee)
    (ha : s.registration.accounts[account]? = some a) (hpos : 0 ≤ total) (hfits : total < 2 ^ 63) :
    s.payOutFees account total requireVesting =
      safe (s.accumulatedFees + a.networkCut total) >>= fun accumulatedFees ↦
        s.vesting.depositCashbacks s.cashbackVestingPeriodSeconds s.now
          (a.cashbacks total requireVesting) >>= fun vesting ↦
          .ok { s with accumulatedFees := accumulatedFees, vesting := vesting } := by
  have haOk := h.accounts a (List.mem_of_getElem? ha)
  have hsplits := haOk.splits
  obtain ⟨r, hr, -⟩ := haOk.referrer
  obtain ⟨hn, hl, hrc, hreg⟩ : 0 ≤ a.networkCut total ∧ 0 ≤ a.lifetimeCut total ∧
    0 ≤ a.referrerCut total ∧ 0 ≤ a.registrarCut total := (a.split hsplits hpos).nonneg
  have href := hsplits.referral_nonneg hpos
  have hreferral : a.referral total = total - a.networkCut total - a.lifetimeCut total := rfl
  have hregistrar : a.registrarCut total = a.referral total - a.referrerCut total := rfl
  have hnetwork : cutFee total a.networkFeePercentage = .ok (a.networkCut total) :=
    cutFee_eq hpos hfits ((Nat.le_add_right _ _).trans hsplits.network_le)
  have hlifetime : cutFee total a.lifetimeReferrerFeePercentage = .ok (a.lifetimeCut total) :=
    cutFee_eq hpos hfits ((Nat.le_add_left _ _).trans hsplits.network_le)
  have hreferrer : cutFee (a.referral total) a.referrerRewardsPercentage =
      .ok (a.referrerCut total) := cutFee_eq href (by omega) hsplits.rewards_le
  obtain ⟨res, hres, hnonneg, hle⟩ : ∃ res, cutFee (a.networkCut total) s.reservePercentOfFee =
      .ok res ∧ 0 ≤ res ∧ res ≤ a.networkCut total := by
    refine ⟨_, cutFee_eq hn (by omega) hreserve, ProRata.payout_nonneg hn, ?_⟩
    have hadd := ProRata.payout_add_le (p := percentage s.reservePercentOfFee) (q := percentage 0)
      rfl (percentage_add_le hreserve) hn
    have hzero : 0 ≤ (percentage 0).payout (a.networkCut total) := ProRata.payout_nonneg hn
    omega
  have hsafe (v : ℤ) (hv : 0 ≤ v) (hv' : v ≤ total) : safe v = .ok v :=
    safe_of_fits (VestingDatabase.fits_of_nonneg ⟨hv, hv'.trans_lt hfits⟩)
  have hrest : total - a.networkCut total - a.lifetimeCut total = a.referral total := rfl
  have hleft : a.referral total - a.referrerCut total = a.registrarCut total := rfl
  have hback : a.referrerCut total + a.registrarCut total = a.referral total := by omega
  have hall : a.referral total + (a.networkCut total - res) + res + a.lifetimeCut total =
      total := by omega
  simp only [payOutFees, checkReferrer_eq h ha, ok_bind, account_of_some ha, hnetwork, hres,
    assertion_of (show a.networkCut total ≤ total by omega),
    hsafe (a.networkCut total - res) (by omega) (by omega), sub_add_cancel,
    hsafe (a.networkCut total) hn (by omega), assertion_of, hlifetime,
    hsafe (total - a.networkCut total) (by omega) (by omega), hrest,
    hsafe (a.referral total) href (by omega), hreferrer, hleft,
    hsafe (a.registrarCut total) hreg (by omega), hback,
    hsafe (a.referral total + (a.networkCut total - res)) (by omega) (by omega),
    hsafe (a.referral total + (a.networkCut total - res) + res) (by omega) (by omega), hall,
    hsafe total hpos le_rfl]
  refine bind_congr fun accumulatedFees ↦ ?_
  have hcs : ∀ c ∈ a.cashbacks total requireVesting, c.acct < s.registration.accounts.length := by
    simp only [AccountObject.cashbacks, List.forall_mem_cons]
    exact ⟨haOk.lifetimeReferrer, (List.getElem?_eq_some_iff.1 hr).1, haOk.registrar,
      List.forall_mem_nil _⟩
  exact depositCashbacks_eq (s := { s with accumulatedFees := accumulatedFees }) hcs

/-- What is paid to accounts of the fees of one. -/
def payments (s : FeeState K) (a : AccountObject K) : List Cashback :=
  a.cashbacks (s.statisticsOf a).pendingFees true ++
    a.cashbacks (s.statisticsOf a).pendingVestedFees false

/-- **The fees of an account fit**: what the network gets, what accounts are paid, and what the
account has paid. -/
structure FeesFit (s : FeeState K) (a : AccountObject K) : Prop where
  /-- What the network gets. -/
  accumulated : FitsInt64 (s.accumulatedFees +
    (a.networkCut (s.statisticsOf a).pendingFees +
      a.networkCut (s.statisticsOf a).pendingVestedFees))
  /-- What accounts are paid. -/
  payments : Cashback.AllFit (s.payments a) s.cashbackVestingPeriodSeconds s.vesting.currentSupply
    (s.vesting.cashbackBalance s.cashbackVestingPeriodSeconds)
  /-- What the account has paid. -/
  lifetime : FitsInt64 ((s.statisticsOf a).lifetimeFeesPaid +
    ((s.statisticsOf a).pendingFees + (s.statisticsOf a).pendingVestedFees))

/-- The state after the fees of an account have been split. -/
def paid (s : FeeState K) (a : AccountObject K) (vesting : VestingDatabase) : FeeState K :=
  { s with
    accumulatedFees := s.accumulatedFees +
      (a.networkCut (s.statisticsOf a).pendingFees +
        a.networkCut (s.statisticsOf a).pendingVestedFees)
    vesting := vesting
    statistics := Function.update s.statistics a.statistics
      ⟨0, 0, (s.statisticsOf a).lifetimeFeesPaid +
        ((s.statisticsOf a).pendingFees +
          (s.statisticsOf a).pendingVestedFees)⟩ }

/-- **What holds of every state.** -/
structure Inv (s : FeeState K) : Prop where
  /-- The accounts. -/
  feesOk : s.registration.FeesOk
  /-- `reserve_percent_of_fee`. -/
  reserve_le : s.reservePercentOfFee ≤ hundredPercentOfFee
  /-- What is counted. -/
  counted : s.Counted

theorem Inv.payments_valid (h : s.Inv) (ha : s.registration.accounts[account]? = some a) :
    ∀ c ∈ s.payments a, c.Valid := by
  have hstats : (s.statisticsOf a).Valid := h.counted.statistics a.statistics
  have hsplits := (h.feesOk.accounts a (List.mem_of_getElem? ha)).splits
  intro c hc
  rcases List.mem_append.1 hc with hc | hc
  · exact (a.split hsplits hstats.pending.1).cashbacks_valid hstats.pending.2 c hc
  · exact (a.split hsplits hstats.pendingVested.1).cashbacks_valid hstats.pendingVested.2 c hc

/-- Nothing is paid of nothing. -/
theorem cashbacks_zero : ∀ c ∈ a.cashbacks 0 requireVesting, c.amount = 0 := by
  have hcut (p : ℕ) : (percentage p).payout 0 = 0 := by
    rw [ProRata.payout, Int.zero_mul, Int.zero_ediv]
  have hreferral : a.referral 0 = 0 := by
    rw [AccountObject.referral, AccountObject.networkCut, AccountObject.lifetimeCut, hcut, hcut]
    rfl
  have hreferrer : a.referrerCut 0 = 0 := by rw [AccountObject.referrerCut, hreferral, hcut]
  have hregistrar : a.registrarCut 0 = 0 := by
    rw [AccountObject.registrarCut, hreferral, hreferrer]
    rfl
  simp only [AccountObject.cashbacks, List.forall_mem_cons]
  exact ⟨hcut _, hreferrer, hregistrar, nofun⟩

theorem networkCut_zero : a.networkCut 0 = 0 := by
  rw [AccountObject.networkCut, ProRata.payout, Int.zero_mul, Int.zero_ediv]

/-- **Processing the fees** of an account pays out what is pending, one after the other. -/
theorem Inv.processFees_eq (h : s.Inv) (ha : s.registration.accounts[account]? = some a) :
    s.processFees account =
      safe (s.accumulatedFees + a.networkCut (s.statisticsOf a).pendingFees) >>=
        fun accumulatedFees ↦
      s.vesting.depositCashbacks s.cashbackVestingPeriodSeconds s.now
        (a.cashbacks (s.statisticsOf a).pendingFees true) >>= fun vesting ↦
      safe (accumulatedFees + a.networkCut (s.statisticsOf a).pendingVestedFees) >>=
        fun accumulatedFees ↦
      vesting.depositCashbacks s.cashbackVestingPeriodSeconds s.now
        (a.cashbacks (s.statisticsOf a).pendingVestedFees false) >>= fun vesting ↦
      safe ((s.statisticsOf a).pendingFees +
        (s.statisticsOf a).pendingVestedFees) >>= fun pending ↦
      safe ((s.statisticsOf a).lifetimeFeesPaid + pending) >>= fun lifetimeFeesPaid ↦
      .ok { s with
        accumulatedFees := accumulatedFees
        vesting := vesting
        statistics := Function.update s.statistics a.statistics ⟨0, 0, lifetimeFeesPaid⟩ } := by
  have hstats : (s.statisticsOf a).Valid := h.counted.statistics a.statistics
  rw [processFees, account_of_some ha, ok_bind]
  dsimp only
  split_ifs with hpending
  · rw [payOutFees_eq h.feesOk h.reserve_le ha hstats.pending.1 hstats.pending.2, bind_assoc]
    refine bind_congr fun accumulatedFees ↦ ?_
    rw [bind_assoc]
    refine bind_congr fun vesting ↦ ?_
    rw [ok_bind]
    have hnext : payOutFees { s with accumulatedFees := accumulatedFees, vesting := vesting }
        account (s.statisticsOf a).pendingVestedFees false = _ :=
      payOutFees_eq h.feesOk h.reserve_le ha hstats.pendingVested.1 hstats.pendingVested.2
    rw [hnext, bind_assoc]
    refine bind_congr fun accumulatedFees ↦ ?_
    rw [bind_assoc]
    rfl
  · obtain ⟨hp, hv⟩ := not_or.1 hpending
    have hp : (s.statisticsOf a).pendingFees = 0 :=
      le_antisymm (Int.not_lt.1 hp) hstats.pending.1
    have hv : (s.statisticsOf a).pendingVestedFees = 0 :=
      le_antisymm (Int.not_lt.1 hv) hstats.pendingVested.1
    have hlifetime := safe_of_fits (VestingDatabase.fits_of_nonneg hstats.lifetime)
    rw [hp, hv, networkCut_zero, Int.add_zero, safe_of_fits h.counted.accumulated, ok_bind,
      VestingDatabase.depositCashbacks_of_zero cashbacks_zero, ok_bind, Int.add_zero,
      safe_of_fits h.counted.accumulated, ok_bind,
      VestingDatabase.depositCashbacks_of_zero cashbacks_zero, ok_bind, Int.add_zero,
      safe_of_fits (by decide), ok_bind, Int.add_zero, hlifetime, ok_bind]
    have hsame : (⟨0, 0, (s.statisticsOf a).lifetimeFeesPaid⟩ : FeeStatistics) =
        s.statisticsOf a := FeeStatistics.ext hp.symm hv.symm rfl
    rw [hsame, statisticsOf, Function.update_eq_self]

theorem Inv.networkCut_nonneg (h : s.Inv) :
    0 ≤ a.networkCut (s.statisticsOf a).pendingFees ∧
      0 ≤ a.networkCut (s.statisticsOf a).pendingVestedFees := by
  have hstats : (s.statisticsOf a).Valid := h.counted.statistics a.statistics
  exact ⟨a.networkCut_nonneg hstats.pending.1, a.networkCut_nonneg hstats.pendingVested.1⟩

/-- **The fees of an account are processed** exactly if they fit. -/
theorem Inv.processFees_cases (h : s.Inv) (ha : s.registration.accounts[account]? = some a) :
    (s.FeesFit a ∧ ∃ vesting, s.processFees account = .ok (s.paid a vesting) ∧
        vesting.Reached s.now ∧ FitsInt64 vesting.currentSupply ∧
        s.vesting.Deposited vesting s.cashbackVestingPeriodSeconds
          (Cashback.allBurned (s.payments a)) (Cashback.allPaidTo (s.payments a))) ∨
      ¬s.FeesFit a ∧ ∀ s', s.processFees account ≠ .ok s' := by
  have hstats : (s.statisticsOf a).Valid := h.counted.statistics a.statistics
  obtain ⟨hn, hn'⟩ := h.networkCut_nonneg (a := a)
  have hacc := h.counted.accumulated
  have hpayments := h.counted.vesting.depositCashbacks_cases s.cashbackVestingPeriodSeconds
    (h.payments_valid ha) h.counted.supply
  by_cases hfits : s.FeesFit a
  · refine .inl ⟨hfits, ?_⟩
    rcases hpayments with ⟨-, vesting, hok, hreached, hsupply, hdone⟩ | ⟨hnot, -⟩
    · refine ⟨vesting, ?_, hreached, hsupply, hdone⟩
      rw [VestingDatabase.depositCashbacks, payments, List.foldlM_append] at hok
      obtain ⟨vesting₁, hok₁, hok₂⟩ := bind_eq_ok.1 hok
      have haccumulated := hfits.accumulated
      have hlifetime := hfits.lifetime
      have hsum := hstats.pending.1
      have hsum' := hstats.pendingVested.1
      have hpaid := hstats.lifetime.1
      rw [h.processFees_eq ha,
        safe_of_fits ⟨by have := hacc.1; omega, by have := haccumulated.2; omega⟩, ok_bind,
        show s.vesting.depositCashbacks _ _ _ = _ from hok₁, ok_bind, Int.add_assoc,
        safe_of_fits haccumulated, ok_bind,
        show vesting₁.depositCashbacks _ _ _ = _ from hok₂, ok_bind,
        safe_of_fits ⟨by omega, by have := hlifetime.2; omega⟩, ok_bind, safe_of_fits hlifetime]
      rfl
    · exact absurd hfits.payments hnot
  · refine .inr ⟨hfits, fun s' hs' ↦ hfits ?_⟩
    rw [h.processFees_eq ha] at hs'
    obtain ⟨accumulated, hacc₁, hs'⟩ := bind_eq_ok.1 hs'
    obtain ⟨vesting₁, hok₁, hs'⟩ := bind_eq_ok.1 hs'
    obtain ⟨accumulated', hacc₂, hs'⟩ := bind_eq_ok.1 hs'
    obtain ⟨vesting₂, hok₂, hs'⟩ := bind_eq_ok.1 hs'
    obtain ⟨pending, hpending, hs'⟩ := bind_eq_ok.1 hs'
    obtain ⟨lifetime, hlifetime, -⟩ := bind_eq_ok.1 hs'
    obtain ⟨-, rfl⟩ := safe_eq_ok hacc₁
    obtain ⟨-, rfl⟩ := safe_eq_ok hpending
    refine ⟨Int.add_assoc .. ▸ (safe_eq_ok hacc₂).1, ?_, (safe_eq_ok hlifetime).1⟩
    rcases hpayments with ⟨hall, -⟩ | ⟨-, herror⟩
    · exact hall
    · refine absurd ?_ (herror vesting₂)
      rw [VestingDatabase.depositCashbacks, payments, List.foldlM_append]
      exact bind_eq_ok.2 ⟨vesting₁, hok₁, hok₂⟩

theorem Inv.processFees (h : s.Inv) (hok : s.processFees account = .ok s') :
    s'.Inv ∧ s'.registration = s.registration := by
  obtain ⟨a, ha, -⟩ := bind_eq_ok.1 hok
  have ha := account_eq_ok.1 (within_eq_ok.1 ha)
  rcases h.processFees_cases ha with ⟨hfits, vesting, hpaid, hreached, hsupply, -⟩ | ⟨-, herror⟩
  · obtain rfl := Except.ok.inj (hpaid.symm.trans hok)
    refine ⟨⟨h.feesOk, h.reserve_le, hreached, hsupply, hfits.accumulated, fun i ↦ ?_⟩, rfl⟩
    dsimp only [paid]
    rw [Function.update_apply]
    split_ifs
    · have hstats : (s.statisticsOf a).Valid := h.counted.statistics a.statistics
      have hlifetime := hfits.lifetime.2
      have hsum := hstats.pending.1
      have hsum' := hstats.pendingVested.1
      have hpaid := hstats.lifetime.1
      have hzero : (0 : ℤ) ≤ 0 ∧ (0 : ℤ) < 2 ^ 63 := by decide
      exact ⟨hzero, hzero, ⟨by dsimp only; omega, hlifetime⟩⟩
    · exact h.counted.statistics i
  · exact absurd hok (herror s')

theorem Inv.register {r : State K} (h : s.Inv)
    (hr : r.FeesOk ∧ r.headBlockTime = s.registration.headBlockTime) :
    ({ s with registration := r } : FeeState K).Inv := by
  refine ⟨hr.1, h.reserve_le, ?_, h.counted.supply, h.counted.accumulated, h.counted.statistics⟩
  have hnow : ({ s with registration := r } : FeeState K).now = s.now := by
    rw [now, now, hr.2]
  rw [hnow]
  exact h.counted.vesting

theorem Inv.upgrade {upgradeToLifetimeMember : Bool} (h : s.Inv)
    (hok : s.upgradeAccount account upgradeToLifetimeMember = .ok s') : s'.Inv := by
  obtain ⟨_, -, hok⟩ := bind_eq_ok.1 hok
  obtain ⟨_, -, hok⟩ := bind_eq_ok.1 hok
  obtain ⟨_, -, hok⟩ := bind_eq_ok.1 hok
  obtain ⟨_, -, hok⟩ := bind_eq_ok.1 hok
  obtain ⟨s₁, hprocess, hok⟩ := bind_eq_ok.1 hok
  obtain ⟨a, ha, hok⟩ := bind_eq_ok.1 hok
  obtain rfl := Except.ok.inj hok
  obtain ⟨h₁, -⟩ := h.processFees hprocess
  have ha := account_eq_ok.1 (within_eq_ok.1 ha)
  have hlt := (List.getElem?_eq_some_iff.1 ha).1
  have hsplits := (h₁.feesOk.accounts a (List.mem_of_getElem? ha)).splits
  have hlength (a' : AccountObject K) :
      account < (s₁.registration.accounts.set account a').length :=
    (List.length_set ..).symm ▸ hlt
  refine h₁.register ⟨h₁.feesOk.set ha ?_ (fun _ ↦ decide_eq_true rfl) rfl ⟨rfl, rfl, rfl⟩, rfl⟩
  refine ⟨⟨?_, hsplits.rewards_le⟩, .inr rfl, ?_, hlength _, hlength _⟩
  · have hle := hsplits.network_le
    dsimp only [hundredPercentOfFee] at hle ⊢
    omega
  · exact ⟨_, List.getElem?_set_self hlt, decide_eq_true rfl⟩

/-- **What holds of every state**, wherever accounts have been created, updated and upgraded. -/
theorem Reached.inv (h : s.Reached) : s.Inv := by
  induction h with
  | genesis h => exact ⟨h.feesOk, h.percentages.1, h.counted⟩
  | initial o hpercent _ heval happly ih =>
    exact ih.register (ih.feesOk.create (hpercent ▸ Nat.zero_le _) heval happly)
  | operation op _ happly ih => exact ih.register (ih.feesOk.operation happly)
  | upgrade account upgradeToLifetimeMember _ hok ih => exact ih.upgrade hok
  | processFees account _ hok ih => exact (ih.processFees hok).1
  | parameters p reservePercentOfFee cashbackVestingPeriodSeconds hvalid _ ih =>
    exact ⟨⟨ih.feesOk.accounts, ih.feesOk.time, hvalid.2.2.2⟩, hvalid.1, ih.counted.vesting,
      ih.counted.supply, ih.counted.accumulated, ih.counted.statistics⟩
  | elsewhere headBlockTime htime haccounts hreserve hcounted _ ih =>
    refine ⟨?_, hreserve ▸ ih.reserve_le, hcounted⟩
    rw [haccounts]
    exact ⟨ih.feesOk.accounts, ⟨ih.feesOk.time.1.trans_le htime.1, htime.2⟩,
      ih.feesOk.percentages⟩

/-! ## What becomes of fees -/

/-- **The fees of an account are distributed**: what is pending is split, the network, the supply
and what the accounts have change by it, and nothing is pending any more. -/
def Distributes (s : FeeState K) (account : AccountId) (a : AccountObject K) : Prop :=
  ∃ (s' : FeeState K) (p : Split (s.statisticsOf a).pendingFees)
    (v : Split (s.statisticsOf a).pendingVestedFees), s.processFees account = .ok s' ∧
    s'.accumulatedFees = s.accumulatedFees + (p.network + v.network) ∧
    s'.vesting.currentSupply =
      s.vesting.currentSupply - Cashback.allBurned (p.cashbacks a true ++ v.cashbacks a false) ∧
    (∀ x, s'.vesting.heldBy x =
      s.vesting.heldBy x + Cashback.allPaidTo (p.cashbacks a true ++ v.cashbacks a false) x) ∧
    (s'.statisticsOf a).pendingFees = 0 ∧ (s'.statisticsOf a).pendingVestedFees = 0

end FeeState

open FeeState

/-- **Splitting fees conserves them**, for every account of every chain, exactly if they fit. -/
theorem process_fees_conserves_iff {s : FeeState K} {account : AccountId} {a : AccountObject K}
    (h : s.Reached) (ha : s.registration.accounts[account]? = some a) :
    s.Distributes account a ↔ s.FeesFit a := by
  have hinv := h.inv
  rcases hinv.processFees_cases ha with ⟨hfits, vesting, hok, -, -, hdone⟩ | ⟨hfits, herror⟩
  · refine iff_of_true ?_ hfits
    have hstats : (s.statisticsOf a).Valid := hinv.counted.statistics a.statistics
    have hsplits := (hinv.feesOk.accounts a (List.mem_of_getElem? ha)).splits
    have hupdated : (s.paid a vesting).statisticsOf a = ⟨0, 0, _⟩ := Function.update_self ..
    exact ⟨_, a.split hsplits hstats.pending.1, a.split hsplits hstats.pendingVested.1, hok, rfl,
      hdone.supply, hdone.held, congrArg FeeStatistics.pendingFees hupdated,
      congrArg FeeStatistics.pendingVestedFees hupdated⟩
  · refine iff_of_false ?_ hfits
    rintro ⟨s', p, v, hok, -⟩
    exact herror s' hok

/-! ## A lifetime member -/

/-- A blockchain account. -/
def specialAccount (id : AccountId) (name : List Char) : AccountObject ℕ where
  membershipExpirationDate := maximumTime
  registrar := if id = proxyToSelfAccount then nullAccount else id
  referrer := if id = proxyToSelfAccount then nullAccount else id
  lifetimeReferrer := if id = proxyToSelfAccount then nullAccount else id
  networkFeePercentage :=
    if id = nullAccount ∨ id = proxyToSelfAccount then 0 else defaultNetworkPercentOfFee
  lifetimeReferrerFeePercentage := hundredPercentOfFee -
    if id = nullAccount ∨ id = proxyToSelfAccount then 0 else defaultNetworkPercentOfFee
  referrerRewardsPercentage := 0
  name := name
  owner := oneKey
  active := oneKey
  options := noVotes
  statistics := id
  ownerSpecialAuthority := .noSpecialAuthority
  activeSpecialAuthority := .noSpecialAuthority
  topNControlFlags := 0
  allowedAssets := none

theorem specialAccount_isSpecial (id : AccountId) (name : List Char) :
    IsSpecialAccount id (specialAccount id name) :=
  ⟨rfl, rfl, rfl, rfl, rfl, rfl, rfl⟩

/-- The blockchain accounts. -/
def genesisRegistration : State ℕ where
  accounts := [specialAccount 0 "committee-account".toList,
    specialAccount 1 "witness-account".toList,
    specialAccount 2 "relaxed-committee-account".toList, specialAccount 3 "null-account".toList,
    specialAccount 4 "temp-account".toList, specialAccount 5 "proxy-to-self".toList]
  statistics := [0, 1, 2, 3, 4, 5]
  specialAuthorities := ⟨[], 0, SpecialAuthorityIndex.id_lt_nil,
    SpecialAuthorityIndex.sorted_nil, List.nodup_nil⟩
  assets := [⟨3, none⟩]
  buybacks := []
  parameters := ⟨10, 1001, 1001, 2000, 3000, 1000, 4, 500000⟩
  accountsRegistered := 0
  headBlockTime := 1500000000

/-- No fees are pending. -/
def genesisFees : FeeState ℕ where
  registration := genesisRegistration
  statistics := fun _ ↦ ⟨0, 0, 0⟩
  vesting := newChain
  accumulatedFees := 0
  reservePercentOfFee := 2000
  cashbackVestingPeriodSeconds := 31536000

/-- An initial account. -/
def createAlice : AccountCreate ℕ :=
  ⟨tempAccount, 0, 0, "alice".toList, oneKey, oneKey, noVotes, none, none, none⟩

/-- The account. -/
def newAlice : AccountObject ℕ where
  membershipExpirationDate := 0
  registrar := tempAccount
  referrer := 0
  lifetimeReferrer := 0
  networkFeePercentage := 2000
  lifetimeReferrerFeePercentage := 3000
  referrerRewardsPercentage := 0
  name := "alice".toList
  owner := oneKey
  active := oneKey
  options := noVotes
  statistics := 6
  ownerSpecialAuthority := .noSpecialAuthority
  activeSpecialAuthority := .noSpecialAuthority
  topNControlFlags := 0
  allowedAssets := none

/-- The account, when it has been upgraded. -/
def alice : AccountObject ℕ :=
  { newAlice with
    membershipExpirationDate := maximumTime
    registrar := 6
    referrer := 6
    lifetimeReferrer := 6
    lifetimeReferrerFeePercentage := 8000 }

/-- The accounts with one more. -/
def withAlice (a : AccountObject ℕ) : State ℕ :=
  { genesisRegistration with
    accounts := genesisRegistration.accounts ++ [a]
    statistics := genesisRegistration.statistics ++ [6]
    accountsRegistered := 1 }

/-- A state with such statistics of the account. -/
def aliceFees (t : FeeStatistics) : FeeState ℕ :=
  { genesisFees with
    registration := withAlice alice
    statistics := Function.update genesisFees.statistics 6 t }

/-- Nothing has been paid. -/
theorem zero_valid : (⟨0, 0, 0⟩ : FeeStatistics).Valid := ⟨by decide, by decide, by decide⟩

theorem genesisFees_counted : genesisFees.Counted where
  vesting := .genesis maxShareSupply _ (by decide)
  supply := by decide
  accumulated := by decide
  statistics _ := zero_valid

theorem genesisFees_atGenesis : genesisFees.AtGenesis where
  special id a h := by
    match id, h with
    | 0, h | 1, h | 2, h | 3, h | 4, h | 5, h =>
      obtain rfl := Option.some.inj h
      exact specialAccount_isSpecial _ _
    | n + 6, h => cases h
  length := by decide
  time := by decide
  percentages := ⟨by decide, by decide, by decide, by decide⟩
  counted := genesisFees_counted

theorem alice_there (t : FeeStatistics) :
    (aliceFees t).registration.accounts[6]? = some alice := rfl

/-- The account is created and upgraded, and pays fees. -/
theorem aliceFees_reached {t : FeeStatistics} (ht : t.Valid) : (aliceFees t).Reached := by
  have hcreated : ({ genesisFees with registration := withAlice newAlice } : FeeState ℕ).Reached :=
    .initial createAlice rfl (.genesis genesisFees_atGenesis) rfl rfl
  have hupgraded : ({ genesisFees with registration := withAlice alice } : FeeState ℕ).Reached :=
    .upgrade 6 true hcreated rfl
  refine .elsewhere (s := { genesisFees with registration := withAlice alice }) 1500000000
    (by decide) rfl rfl ?_ hupgraded
  refine ⟨genesisFees_counted.vesting, genesisFees_counted.supply,
    genesisFees_counted.accumulated, fun i ↦ ?_⟩
  dsimp only [aliceFees]
  rw [Function.update_apply]
  split_ifs
  · exact ht
  · exact genesisFees_counted.statistics i

/-- A hundred shares are pending, and fifty that are not to be held. -/
def hundredAndFifty : FeeStatistics := ⟨100, 50, 0⟩

theorem hundredAndFifty_valid : hundredAndFifty.Valid := ⟨by decide, by decide, by decide⟩

/-- They are distributed. -/
theorem alice_distributes : (aliceFees hundredAndFifty).Distributes 6 alice := by
  have hreached := aliceFees_reached hundredAndFifty_valid
  refine (process_fees_conserves_iff hreached (alice_there _)).2 ?_
  rcases hreached.inv.processFees_cases (alice_there _) with ⟨hfits, -⟩ | ⟨-, herror⟩
  · exact hfits
  · have hok : failure ((aliceFees hundredAndFifty).processFees 6) = none := by decide +kernel
    cases hs' : (aliceFees hundredAndFifty).processFees 6 with
    | ok s' => exact absurd hs' (herror s')
    | error e => cases (failure_eq_some.2 hs').symm.trans hok

/-- Ten million core that are not to be held are pending. -/
def tenMillion : FeeStatistics := ⟨0, 1000000000000, 0⟩

theorem tenMillion_valid : tenMillion.Valid := ⟨by decide, by decide, by decide⟩

/-- **Fees that do not fit** mean nothing: the seconds of what the account is paid of its own fees
do not. -/
theorem alice_overflows : (aliceFees tenMillion).Reached ∧
    (aliceFees tenMillion).processFees 6 = .error .undefined ∧
    ¬(aliceFees tenMillion).Distributes 6 alice := by
  have herror : (aliceFees tenMillion).processFees 6 = .error .undefined :=
    failure_eq_some.1 (by decide +kernel)
  refine ⟨aliceFees_reached tenMillion_valid, herror, ?_⟩
  rintro ⟨s', p, v, hok, -⟩
  cases herror.symm.trans hok

end Registration

end Graphene
