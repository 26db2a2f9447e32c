import Graphene.Ledger.Transfers
import Graphene.Lib.Transitions
import Mathlib.Algebra.Ring.Int.Defs

/-!
# Withdraw permissions over time

A withdraw permission lets an account withdraw up to a limit in each of a number of periods.  The
permission keeps when its current period began and what has been claimed in it, and a claim moves it
on to the period of the claim.

How far the permission has to move is worked out in 32 bits, from the time of the claim.  The state
does not tell what has been claimed in the periods before, so to say what a limit for each period
means, what has been granted and claimed is kept beside it, each claim with its time.

* `Withdrawals` — the state, with what has been granted and claimed so far.
* `WithdrawStep`, `Withdrawals.step` — an operation, or what happens elsewhere.
* `Withdrawals.Limited` — no more is claimed in a period than its limit, nothing before the first
  period and nothing after the last.
* `Withdrawals.withdrawals_limited` — so it is after every run in which the periods of a permission
  end before 2^32 and no claim comes before the first of them, and only after these.
* `Withdrawals.withdrawals_not_limited` — a run where the limit is exceeded, and one where a claim
  comes too soon.
-/

set_option autoImplicit false

namespace Graphene

open Transitions

/-! ## What has been granted and claimed -/

/-- A claim that was made. -/
structure WithdrawClaim where
  /-- The head block time. -/
  time : ℕ
  /-- `amount_to_withdraw`. -/
  amount : Asset
deriving DecidableEq

/-- The terms of a permission from when it was created or updated on, and the claims under them. -/
structure Grant where
  /-- The terms. -/
  terms : WithdrawTerms
  /-- `expiration` of the permission. -/
  expiration : ℕ
  /-- The claims, the last one first. -/
  claims : List WithdrawClaim := []
deriving DecidableEq

namespace Grant

/-- When the last period ends. -/
def finish (g : Grant) : ℕ :=
  g.terms.periodStartTime + g.terms.periodsUntilExpiration * g.terms.withdrawalPeriodSec

/-- When a period begins. -/
def period (g : Grant) (k : ℕ) : ℕ := g.terms.periodStartTime + k * g.terms.withdrawalPeriodSec

/-- What has been claimed in the period that begins at `start`. -/
def claimedFrom (g : Grant) (start : ℕ) : ℤ :=
  ((g.claims.filter fun c ↦
    start ≤ c.time ∧ c.time < start + g.terms.withdrawalPeriodSec).map (·.amount.amount)).sum

/-- A claim more. -/
def add (g : Grant) (c : WithdrawClaim) : Grant := { g with claims := c :: g.claims }

/-- `g'` is the same grant, perhaps with more claims. -/
def Extends (g g' : Grant) : Prop :=
  g'.terms = g.terms ∧ g'.expiration = g.expiration ∧ ∀ c ∈ g.claims, c ∈ g'.claims

theorem Extends.refl (g : Grant) : g.Extends g := ⟨rfl, rfl, fun _ hc ↦ hc⟩

/-- What is to hold of the claims under a grant. -/
structure Kept (g : Grant) : Prop where
  /-- The permission expires when the last period ends. -/
  expiration_eq : g.expiration = g.finish
  /-- No claim is made before the first period or after the last. -/
  within : ∀ c ∈ g.claims, g.terms.periodStartTime ≤ c.time ∧ c.time < g.finish
  /-- Claims are of the asset of the limit. -/
  asset_eq : ∀ c ∈ g.claims, c.amount.assetId = g.terms.withdrawalLimit.assetId
  /-- No more is claimed in a period than the limit. -/
  claimed_le : ∀ k, g.claimedFrom (g.period k) ≤ g.terms.withdrawalLimit.amount

end Grant

/-- The state, with the grants of each permission, the last one first. -/
structure Withdrawals where
  /-- The state. -/
  state : TransferState
  /-- The grants. -/
  grants : WithdrawPermissionId → List Grant

/-- What happens. -/
inductive WithdrawStep where
  /-- An operation with its fee. -/
  | operation (flags : EvaluationFlags) (requiredFee : Option ℤ) (op : TransferOperation)
      (fee : Asset)
  /-- Anything that is not about withdraw permissions: new balances, accounts and assets, new rules
  of these, a new block interval, and a head block time that is not earlier. -/
  | elsewhere (ledger : Ledger) (rules : AssetId → TransferRules) (blockInterval : ℕ)
  /-- `update_withdraw_permissions`. -/
  | updateWithdrawPermissions

namespace Withdrawals

/-- The permission `id` is granted on new terms; `s` is the state after it. -/
def grant (w : Withdrawals) (s : TransferState) (id : WithdrawPermissionId)
    (terms : WithdrawTerms) : WithdrawPermissionId → List Grant :=
  Function.update w.grants id
    ({ terms, expiration := ((s.permissions id).map (·.expiration)).getD 0 } :: w.grants id)

/-- The grants after an operation; `s` is the state after it. -/
def record (w : Withdrawals) (s : TransferState) :
    TransferOperation → WithdrawPermissionId → List Grant
  | .withdrawPermissionCreate terms => w.grant s w.state.nextPermission terms
  | .withdrawPermissionUpdate id terms => w.grant s id terms
  | .withdrawPermissionClaim id _ _ amount =>
    Function.update w.grants id
      ((w.grants id).modifyHead (·.add ⟨w.state.headBlockTime, amount⟩))
  | _ => w.grants

/-- What is left of the permissions: `update_withdraw_permissions` goes through them in the order of
their expiration. -/
def updatePermissions (s : TransferState) : TransferState :=
  { s with permissions := fun id ↦
      (s.permissions id).filter fun permit ↦ ¬ permit.expiration ≤ s.headBlockTime }

/-- A step. -/
def step (w : Withdrawals) : WithdrawStep → Option Withdrawals
  | .operation flags requiredFee op fee => do
    let s ← w.state.applyOperation flags requiredFee op fee
    return ⟨s, w.record s op⟩
  | .elsewhere ledger rules blockInterval =>
    if w.state.headBlockTime ≤ ledger.headBlockTime then
      some { w with state := { w.state with ledger, rules, blockInterval } }
    else none
  | .updateWithdrawPermissions => some { w with state := updatePermissions w.state }

/-- The periods of a permission end before 2^32, and no claim comes before the first of them. -/
def InTime (w : Withdrawals) : WithdrawStep → Prop
  | .operation _ _ (.withdrawPermissionCreate terms) _
  | .operation _ _ (.withdrawPermissionUpdate _ terms) _ =>
    terms.periodStartTime + terms.periodsUntilExpiration * terms.withdrawalPeriodSec < 2 ^ 32
  | .operation _ _ (.withdrawPermissionClaim id _ _ _) _ =>
    ∀ permit ∈ w.state.permissions id, permit.periodStartTime ≤ w.state.headBlockTime
  | _ => True

/-- What is to hold of the permissions: every grant is kept, and a permission is at one of the
periods of its terms, the end of which is a `time_point_sec`. -/
structure Limited (w : Withdrawals) : Prop where
  /-- Every grant is kept. -/
  kept : ∀ id, ∀ g ∈ w.grants id, g.Kept
  /-- A permission is at one of the periods of its terms. -/
  at_period : ∀ id, ∀ permit ∈ w.state.permissions id, ∃ g ∈ (w.grants id).head?,
    ∃ k < g.terms.periodsUntilExpiration, permit.periodStartTime = g.period k ∧
      permit.periodStartTime + permit.withdrawalPeriodSec < 2 ^ 32

end Withdrawals

/-! ## What an operation does to the permissions -/

namespace TransferState

variable {s s' : TransferState} {flags : EvaluationFlags} {requiredFee : Option ℤ} {fee : Asset}
  {op : TransferOperation} {id : WithdrawPermissionId} {source target : AccountId} {amount : Asset}

/-- What becomes of the permissions. -/
def PermissionsAfter (s s' : TransferState) : TransferOperation → Prop
  | .withdrawPermissionCreate terms =>
    s'.permissions = Function.update s.permissions s.nextPermission (some
      { withdrawFromAccount := terms.withdrawFromAccount
        authorizedAccount := terms.authorizedAccount
        withdrawalLimit := terms.withdrawalLimit
        withdrawalPeriodSec := terms.withdrawalPeriodSec
        periodStartTime := terms.periodStartTime
        expiration := terms.expiration })
  | .withdrawPermissionUpdate id terms => ∃ permit ∈ s.permissions id,
    s'.permissions = Function.update s.permissions id (some
      { permit with
        periodStartTime := terms.periodStartTime
        expiration := terms.expiration
        withdrawalLimit := terms.withdrawalLimit
        withdrawalPeriodSec := terms.withdrawalPeriodSec })
  | .withdrawPermissionClaim id _ _ amount => ∃ permit ∈ s.permissions id,
    ∃ permit' ∈ permit.claim s.headBlockTime amount.amount,
      s'.permissions = Function.update s.permissions id (some permit')
  | .withdrawPermissionDelete _ _ id => s'.permissions = Function.update s.permissions id none
  | _ => s'.permissions = s.permissions

theorem adjustBalance_headBlockTime {l l' : Ledger} {account : AccountId} {delta : Asset}
    (h : l.adjustBalance account delta = some l') : l'.headBlockTime = l.headBlockTime := by
  obtain rfl | ⟨balance, rfl⟩ := l.eq_or_setBalance_of_adjustBalance h <;> rfl

/-- Moving an asset changes nothing but balances. -/
theorem move_spec (h : s.move source target amount = some s') :
    s'.headBlockTime = s.headBlockTime ∧ s'.permissions = s.permissions := by
  simp only [move, Option.bind_eq_bind, Option.bind_eq_some_iff] at h
  obtain ⟨l, hdebit, l', hcredit, hs'⟩ := h
  obtain rfl := Option.some.inj hs'
  have hdebit := adjustBalance_headBlockTime hdebit
  have hcredit := adjustBalance_headBlockTime hcredit
  exact ⟨hcredit.trans hdebit, rfl⟩

theorem doApply_spec (h : s.doApply op = some s') :
    s'.headBlockTime = s.headBlockTime ∧ s.PermissionsAfter s' op := by
  cases op with
  | transfer => exact move_spec h
  | overrideTransfer => exact move_spec h
  | withdrawPermissionCreate =>
    obtain rfl := Option.some.inj h
    exact ⟨rfl, rfl⟩
  | withdrawPermissionUpdate =>
    obtain ⟨permit, hpermit, hs'⟩ := Option.bind_eq_some_iff.1 h
    obtain rfl := Option.some.inj hs'
    exact ⟨rfl, permit, hpermit, rfl⟩
  | withdrawPermissionClaim =>
    obtain ⟨permit, hpermit, h⟩ := Option.bind_eq_some_iff.1 h
    obtain ⟨permit', hclaim, hmove⟩ := Option.bind_eq_some_iff.1 h
    obtain ⟨htime, hpermissions⟩ := move_spec hmove
    exact ⟨htime, permit, hpermit, permit', hclaim, hpermissions⟩
  | withdrawPermissionDelete =>
    obtain rfl := Option.some.inj h
    exact ⟨rfl, rfl⟩

/-- **What an operation does to the permissions**, and what it was checked for. -/
theorem applyOperation_spec (h : s.applyOperation flags requiredFee op fee = some s') :
    op.validate = true ∧ s.doEvaluate op = some () ∧ s'.headBlockTime = s.headBlockTime ∧
      s.PermissionsAfter s' op := by
  simp only [applyOperation, Option.bind_eq_bind, Option.bind_eq_some_iff, Option.guard_eq_some',
    exists_const] at h
  obtain ⟨hvalid, coreFeePaid, -, -, ⟨⟩, heval, s₁, happly, l, hadjust, hs'⟩ := h
  obtain rfl := Option.some.inj hs'
  obtain ⟨htime, hafter⟩ := doApply_spec happly
  have hcharged : s₁.headBlockTime = s.headBlockTime := htime.trans (charged_headBlockTime _)
  refine ⟨hvalid, heval, (adjustBalance_headBlockTime hadjust).trans hcharged, ?_⟩
  cases op with
  | withdrawPermissionClaim =>
    obtain ⟨permit, hpermit, permit', hclaim, hpermissions⟩ := hafter
    rw [headBlockTime, charged_headBlockTime] at hclaim
    exact ⟨permit, hpermit, permit', hclaim, hpermissions⟩
  | _ => exact hafter

end TransferState

/-! ## A claim -/

namespace WithdrawPermission

variable {p p' : WithdrawPermission} {now : ℕ} {amount : ℤ}

/-- A claim in the current period or a later one moves the permission on to the period of the
claim. -/
theorem claim_spec (h : p.claim now amount = some p') (hstart : p.periodStartTime ≤ now)
    (hnow : now < 2 ^ 32) :
    p' = { p with
      periodStartTime := p.periodStartTime +
        (now - p.periodStartTime) / p.withdrawalPeriodSec * p.withdrawalPeriodSec
      claimedThisPeriod :=
        if (now - p.periodStartTime) / p.withdrawalPeriodSec = 0 then p.claimedThisPeriod + amount
        else amount } := by
  have hsub : (now : ℤ) - p.periodStartTime = (now - p.periodStartTime : ℕ) := by omega
  have hdiv : ((now : ℤ) - p.periodStartTime).tdiv p.withdrawalPeriodSec =
      ((now - p.periodStartTime) / p.withdrawalPeriodSec : ℕ) := by
    rw [hsub, Int.tdiv_eq_ediv_of_nonneg (Int.natCast_nonneg _)]
    norm_cast
  have hle := Nat.div_mul_le_self (now - p.periodStartTime) p.withdrawalPeriodSec
  rw [claim, hdiv] at h
  generalize (now - p.periodStartTime) / p.withdrawalPeriodSec = q at hle h ⊢
  have hmod : (((p.periodStartTime : ℤ) + (q : ℤ) * p.withdrawalPeriodSec) % 2 ^ 32).toNat =
      p.periodStartTime + q * p.withdrawalPeriodSec := by
    have hcast : (p.periodStartTime : ℤ) + (q : ℤ) * p.withdrawalPeriodSec =
        (p.periodStartTime + q * p.withdrawalPeriodSec : ℕ) := by norm_cast
    rw [hcast]
    omega
  simp only [hmod, Option.bind_eq_bind, Option.bind_eq_some_iff] at h
  obtain ⟨claimed, hclaimed, hp'⟩ := h
  obtain rfl := Option.some.inj hp'
  congr 1
  by_cases hq : q = 0
  · rw [if_pos (by omega), shareType] at hclaimed
    rw [if_pos hq]
    split at hclaimed
    · exact (Option.some.inj hclaimed).symm
    · cases hclaimed
  · rw [if_neg (by omega)] at hclaimed
    rw [if_neg hq]
    exact (Option.some.inj hclaimed).symm

/-- What may be claimed, where the end of the period is a `time_point_sec`. -/
theorem availableThisPeriod_amount
    (hperiod : p.periodStartTime + p.withdrawalPeriodSec < 2 ^ 32) :
    (p.availableThisPeriod now).amount =
      if p.periodStartTime + p.withdrawalPeriodSec ≤ now then p.withdrawalLimit.amount
      else if p.withdrawalLimit.amount > p.claimedThisPeriod then
        p.withdrawalLimit.amount - p.claimedThisPeriod
      else 0 := by
  rw [availableThisPeriod, Nat.mod_eq_of_lt hperiod]
  split <;> rfl

end WithdrawPermission

/-! ## The permission and its grant -/

namespace Grant

variable {g : Grant} {c : WithdrawClaim}

/-- A claim counts for the period it is made in. -/
theorem claimedFrom_add (start : ℕ) : (g.add c).claimedFrom start =
    (if start ≤ c.time ∧ c.time < start + g.terms.withdrawalPeriodSec then c.amount.amount else 0) +
      g.claimedFrom start := by
  rw [claimedFrom, claimedFrom, add]
  dsimp only
  rw [List.filter_cons]
  split
  · next h =>
    rw [if_pos (by simpa using h), List.map_cons, List.sum_cons]
  · next h =>
    rw [if_neg (by simpa using h), zero_add]

/-- Nothing has been claimed in a period that begins after every claim. -/
theorem claimedFrom_eq_zero {start : ℕ} (h : ∀ c ∈ g.claims, c.time < start) :
    g.claimedFrom start = 0 := by
  have hnil : (g.claims.filter fun c ↦
      start ≤ c.time ∧ c.time < start + g.terms.withdrawalPeriodSec) = [] := by
    rw [List.filter_eq_nil_iff]
    intro c hc
    have := h c hc
    simp only [decide_eq_true_eq]
    omega
  rw [claimedFrom, hnil]
  rfl

/-- Two periods with a moment in common are the same. -/
theorem period_unique {now j k : ℕ} (hj : g.period j ≤ now)
    (hj' : now < g.period j + g.terms.withdrawalPeriodSec) (hk : g.period k ≤ now)
    (hk' : now < g.period k + g.terms.withdrawalPeriodSec) : j = k := by
  rw [period] at hj hj' hk hk'
  have hjk : j < k + 1 := by
    by_contra hlt
    have := Nat.mul_le_mul_right g.terms.withdrawalPeriodSec (not_lt.1 hlt)
    rw [Nat.add_one_mul] at this
    omega
  have hkj : k < j + 1 := by
    by_contra hlt
    have := Nat.mul_le_mul_right g.terms.withdrawalPeriodSec (not_lt.1 hlt)
    rw [Nat.add_one_mul] at this
    omega
  omega

/-- A period that begins before the last one ends is one of them, and ends no later. -/
theorem period_lt_finish {k : ℕ} (h : g.period k < g.finish) :
    k < g.terms.periodsUntilExpiration ∧
      g.period k + g.terms.withdrawalPeriodSec ≤ g.finish := by
  rw [period, finish] at h ⊢
  have hlt : k < g.terms.periodsUntilExpiration := by
    refine lt_of_not_ge fun hle ↦ ?_
    have := Nat.mul_le_mul_right g.terms.withdrawalPeriodSec hle
    omega
  have hle := Nat.mul_le_mul_right g.terms.withdrawalPeriodSec (Nat.succ_le_of_lt hlt)
  rw [Nat.succ_mul] at hle
  exact ⟨hlt, by omega⟩

end Grant

/-- A permission at a time, and the grant it stands for. -/
structure Current (now : ℕ) (p : WithdrawPermission) (g : Grant) : Prop where
  /-- The limit is that of the terms. -/
  limit_eq : p.withdrawalLimit = g.terms.withdrawalLimit
  /-- So is the length of a period. -/
  length_eq : p.withdrawalPeriodSec = g.terms.withdrawalPeriodSec
  /-- The permission expires when the last period ends. -/
  expiration_eq : p.expiration = g.finish
  /-- That is a `time_point_sec`. -/
  finish_lt : g.finish < 2 ^ 32
  /-- Periods are not empty. -/
  length_pos : 0 < g.terms.withdrawalPeriodSec
  /-- The permission is at the first period, or at one that has begun. -/
  at_period : ∃ k < g.terms.periodsUntilExpiration, p.periodStartTime = g.period k ∧
    (k = 0 ∨ p.periodStartTime ≤ now)
  /-- No claim is of a later period. -/
  claims_lt : ∀ c ∈ g.claims, c.time < p.periodStartTime + g.terms.withdrawalPeriodSec
  /-- What has been claimed is not negative. -/
  claimed_nonneg : 0 ≤ p.claimedThisPeriod
  /-- It is what has been claimed in the period, or more. -/
  claimed_le : g.claimedFrom p.periodStartTime ≤ p.claimedThisPeriod

namespace Current

variable {now now' : ℕ} {p p' : WithdrawPermission} {g : Grant} {amount : Asset}

theorem later (h : Current now p g) (hle : now ≤ now') : Current now' p g where
  limit_eq := h.limit_eq
  length_eq := h.length_eq
  expiration_eq := h.expiration_eq
  finish_lt := h.finish_lt
  length_pos := h.length_pos
  at_period := by
    obtain ⟨k, hk, hstart, hbegun⟩ := h.at_period
    exact ⟨k, hk, hstart, hbegun.imp_right fun hnow ↦ hnow.trans hle⟩
  claims_lt := h.claims_lt
  claimed_nonneg := h.claimed_nonneg
  claimed_le := h.claimed_le

/-- The end of the current period is a `time_point_sec`. -/
theorem period_end_lt (h : Current now p g) :
    p.periodStartTime + p.withdrawalPeriodSec < 2 ^ 32 := by
  obtain ⟨k, hk, hstart, -⟩ := h.at_period
  have hmul := Nat.mul_lt_mul_of_pos_right hk h.length_pos
  have hlt : g.period k < g.finish := by
    rw [Grant.period, Grant.finish]
    omega
  have hle := (Grant.period_lt_finish hlt).2
  have hfinish := h.finish_lt
  rw [hstart, h.length_eq]
  omega

/-- **A claim keeps the grant**: the permission is at the period of the claim afterwards, and what
has been claimed in it is within the limit. -/
theorem claim (h : Current now p g) (hg : g.Kept) (hstart : p.periodStartTime ≤ now)
    (hexpiration : now < p.expiration) (hasset : amount.assetId = p.withdrawalLimit.assetId)
    (hpos : 0 < amount.amount) (hamount : amount.amount ≤ (p.availableThisPeriod now).amount)
    (hclaim : p.claim now amount.amount = some p') :
    Current now p' (g.add ⟨now, amount⟩) ∧ (g.add ⟨now, amount⟩).Kept := by
  obtain ⟨k, -, hk, -⟩ := h.at_period
  have hend := h.period_end_lt
  have hfinish := h.finish_lt
  have hnonneg := h.claimed_nonneg
  have hclaimed := h.claimed_le
  rw [h.expiration_eq] at hexpiration
  rw [WithdrawPermission.availableThisPeriod_amount hend] at hamount
  obtain rfl := WithdrawPermission.claim_spec hclaim hstart (by omega)
  rw [h.length_eq] at hend hamount ⊢
  -- the period of the claim is `q` periods after the one the permission was at
  have hdiv := Nat.div_add_mod' (now - p.periodStartTime) g.terms.withdrawalPeriodSec
  have hmod := Nat.mod_lt (now - p.periodStartTime) h.length_pos
  have hzero : (now - p.periodStartTime) / g.terms.withdrawalPeriodSec = 0 ↔
      now < p.periodStartTime + g.terms.withdrawalPeriodSec := by
    rw [Nat.div_eq_zero_iff_lt h.length_pos]
    omega
  have hmul : g.period (k + (now - p.periodStartTime) / g.terms.withdrawalPeriodSec) =
      p.periodStartTime + (now - p.periodStartTime) / g.terms.withdrawalPeriodSec *
        g.terms.withdrawalPeriodSec := by
    rw [hk, Grant.period, Grant.period, Nat.add_mul, Nat.add_assoc]
  generalize (now - p.periodStartTime) / g.terms.withdrawalPeriodSec = q at hdiv hzero hmul ⊢
  generalize hstart' : p.periodStartTime + q * g.terms.withdrawalPeriodSec = start at hmul ⊢
  have hle : start ≤ now := by omega
  have hlt : now < start + g.terms.withdrawalPeriodSec := by omega
  obtain ⟨hcount, -⟩ := Grant.period_lt_finish (hmul.trans_lt (hle.trans_lt hexpiration))
  have hnew : (g.add ⟨now, amount⟩).claimedFrom start = amount.amount + g.claimedFrom start := by
    rw [Grant.claimedFrom_add, if_pos ⟨hle, hlt⟩]
  -- what has been claimed in the period of the claim is within the limit
  have hbound : (g.add ⟨now, amount⟩).claimedFrom start ≤
      (if q = 0 then p.claimedThisPeriod + amount.amount else amount.amount) ∧
        (if q = 0 then p.claimedThisPeriod + amount.amount else amount.amount) ≤
          g.terms.withdrawalLimit.amount := by
    rw [hnew, ← h.limit_eq]
    by_cases hq : q = 0
    · have hsame : start = p.periodStartTime := by rw [← hstart', hq, Nat.zero_mul, Nat.add_zero]
      have hnow := hzero.1 hq
      rw [if_neg (by omega)] at hamount
      rw [if_pos hq, hsame]
      split at hamount <;> omega
    · have hnone : g.claimedFrom start = 0 := by
        refine Grant.claimedFrom_eq_zero fun c hc ↦ (h.claims_lt c hc).trans_le ?_
        have := Nat.mul_le_mul_right g.terms.withdrawalPeriodSec (Nat.one_le_iff_ne_zero.2 hq)
        omega
      have hnow : p.periodStartTime + g.terms.withdrawalPeriodSec ≤ now :=
        not_lt.1 fun hnow ↦ hq (hzero.2 hnow)
      rw [if_pos hnow] at hamount
      rw [if_neg hq, hnone]
      omega
  constructor
  · exact {
      limit_eq := h.limit_eq
      length_eq := rfl
      expiration_eq := h.expiration_eq
      finish_lt := h.finish_lt
      length_pos := h.length_pos
      at_period := ⟨_, hcount, hmul.symm, .inr hle⟩
      claims_lt := by
        intro c hc
        obtain rfl | hc := List.mem_cons.1 hc
        · exact hlt
        · have := h.claims_lt c hc
          show c.time < start + g.terms.withdrawalPeriodSec
          omega
      claimed_nonneg := by
        show 0 ≤ if q = 0 then p.claimedThisPeriod + amount.amount else amount.amount
        split <;> omega
      claimed_le := hbound.1 }
  · exact {
      expiration_eq := hg.expiration_eq
      within := by
        intro c hc
        obtain rfl | hc := List.mem_cons.1 hc
        · have hfirst : g.terms.periodStartTime ≤ p.periodStartTime := by
            rw [hk, Grant.period]
            exact Nat.le_add_right ..
          exact ⟨hfirst.trans hstart, hexpiration⟩
        · exact hg.within c hc
      asset_eq := by
        intro c hc
        obtain rfl | hc := List.mem_cons.1 hc
        · rw [h.limit_eq] at hasset
          exact hasset
        · exact hg.asset_eq c hc
      claimed_le := by
        intro j
        show (g.add ⟨now, amount⟩).claimedFrom (g.period j) ≤ g.terms.withdrawalLimit.amount
        by_cases hj : g.period j ≤ now ∧ now < g.period j + g.terms.withdrawalPeriodSec
        · obtain rfl := Grant.period_unique hj.1 hj.2 (hmul.trans_le hle)
            (by rw [hmul]; exact hlt)
          rw [hmul]
          exact hbound.1.trans hbound.2
        · rw [Grant.claimedFrom_add, if_neg hj, zero_add]
          exact hg.claimed_le j }

end Current

/-! ## Runs -/

namespace Withdrawals

variable {w w' : Withdrawals} {i : WithdrawStep}

/-- What is true of every state that is reached as long as everything is in time. -/
structure Inv (w : Withdrawals) : Prop where
  /-- Every grant is kept. -/
  kept : ∀ id, ∀ g ∈ w.grants id, g.Kept
  /-- Every permission stands for the last of its grants. -/
  current : ∀ id, ∀ p ∈ w.state.permissions id, ∃ g gs, w.grants id = g :: gs ∧
    Current w.state.headBlockTime p g

theorem Inv.limited (h : w.Inv) : w.Limited where
  kept := h.kept
  at_period := by
    intro id p hp
    obtain ⟨g, gs, hgrants, hcurrent⟩ := h.current id p hp
    obtain ⟨k, hk, hstart, -⟩ := hcurrent.at_period
    exact ⟨g, by rw [hgrants]; rfl, k, hk, hstart, hcurrent.period_end_lt⟩

/-- A grant that is not kept, for good. -/
def Spoilt (w : Withdrawals) : Prop :=
  ∃ id, ∃ g ∈ w.grants id,
    g.expiration ≠ g.finish ∨ ∃ c ∈ g.claims, c.time < g.terms.periodStartTime

theorem Spoilt.not_limited (h : w.Spoilt) : ¬ w.Limited := by
  intro hlimited
  obtain ⟨id, g, hg, hexpiration | ⟨c, hc, hearly⟩⟩ := h
  · exact hexpiration (hlimited.kept id g hg).expiration_eq
  · have := ((hlimited.kept id g hg).within c hc).1
    omega

theorem mem_grant {s : TransferState} {id id' : WithdrawPermissionId} {terms : WithdrawTerms}
    {g : Grant} (hg : g ∈ w.grants id') : g ∈ w.grant s id terms id' := by
  rw [grant]
  obtain rfl | hne := eq_or_ne id' id
  · rw [Function.update_self]
    exact List.mem_cons_of_mem _ hg
  · rw [Function.update_of_ne hne]
    exact hg

/-- An operation adds a grant, or a claim to one. -/
theorem mem_record (w : Withdrawals) (s : TransferState) (op : TransferOperation)
    {id : WithdrawPermissionId} {g : Grant} (hg : g ∈ w.grants id) :
    ∃ g' ∈ w.record s op id, g.Extends g' := by
  cases op with
  | withdrawPermissionCreate => exact ⟨g, mem_grant hg, .refl g⟩
  | withdrawPermissionUpdate => exact ⟨g, mem_grant hg, .refl g⟩
  | withdrawPermissionClaim id' source target amount =>
    rw [record]
    obtain rfl | hne := eq_or_ne id id'
    · rw [Function.update_self]
      obtain ⟨first, rest, hgrants⟩ := List.exists_cons_of_ne_nil (List.ne_nil_of_mem hg)
      rw [hgrants, List.modifyHead_cons]
      rw [hgrants] at hg
      obtain rfl | hg := List.mem_cons.1 hg
      · exact ⟨_, List.mem_cons_self, rfl, rfl, fun c hc ↦ List.mem_cons_of_mem _ hc⟩
      · exact ⟨g, List.mem_cons_of_mem _ hg, .refl g⟩
    · rw [Function.update_of_ne hne]
      exact ⟨g, hg, .refl g⟩
  | _ => exact ⟨g, hg, .refl g⟩

/-- A step adds grants, and claims to them. -/
theorem mem_step (h : w.step i = some w') {id : WithdrawPermissionId} {g : Grant}
    (hg : g ∈ w.grants id) : ∃ g' ∈ w'.grants id, g.Extends g' := by
  cases i with
  | operation flags requiredFee op fee =>
    obtain ⟨s, happly, hw'⟩ := Option.bind_eq_some_iff.1 h
    obtain rfl := Option.some.inj hw'
    exact w.mem_record s op hg
  | elsewhere ledger rules blockInterval =>
    rw [step] at h
    split at h
    · obtain rfl := Option.some.inj h
      exact ⟨g, hg, .refl g⟩
    · exact absurd h (by simp)
  | updateWithdrawPermissions =>
    obtain rfl := Option.some.inj h
    exact ⟨g, hg, .refl g⟩

/-- It stays so. -/
theorem Spoilt.step (hw : w.Spoilt) (h : w.step i = some w') : w'.Spoilt := by
  obtain ⟨id, g, hg, hspoilt⟩ := hw
  obtain ⟨g', hg', hterms, hexpiration, hclaims⟩ := mem_step h hg
  refine ⟨id, g', hg', ?_⟩
  rw [Grant.finish, hterms, hexpiration]
  exact hspoilt.imp_right fun ⟨c, hc, hearly⟩ ↦ ⟨c, hclaims c hc, hearly⟩

/-- Where only permissions `id` and its grants change, and time goes on, the others are as they
were. -/
theorem Inv.update (hw : w.Inv) {s : TransferState} {id : WithdrawPermissionId}
    {p : Option WithdrawPermission} {gs : List Grant}
    (htime : w.state.headBlockTime ≤ s.headBlockTime)
    (hs : s.permissions = Function.update w.state.permissions id p) (hkept : ∀ g ∈ gs, g.Kept)
    (hcurrent : ∀ p' ∈ p, ∃ g gs', gs = g :: gs' ∧ Current s.headBlockTime p' g) :
    Inv ⟨s, Function.update w.grants id gs⟩ where
  kept := by
    intro id' g hg
    dsimp only at hg
    obtain rfl | hne := eq_or_ne id' id
    · rw [Function.update_self] at hg
      exact hkept g hg
    · rw [Function.update_of_ne hne] at hg
      exact hw.kept id' g hg
  current := by
    intro id' p' hp'
    dsimp only at hp' ⊢
    rw [hs] at hp'
    obtain rfl | hne := eq_or_ne id' id
    · rw [Function.update_self] at hp' ⊢
      exact hcurrent p' hp'
    · rw [Function.update_of_ne hne] at hp' ⊢
      obtain ⟨g, gs', hgrants, hnow⟩ := hw.current id' p' hp'
      exact ⟨g, gs', hgrants, hnow.later htime⟩

/-- A permission on new terms, which end in time. -/
theorem Inv.grant (hw : w.Inv) {s : TransferState} {id : WithdrawPermissionId}
    {terms : WithdrawTerms} {p : WithdrawPermission}
    (htime : w.state.headBlockTime ≤ s.headBlockTime)
    (hs : s.permissions = Function.update w.state.permissions id (some p))
    (hlimit : p.withdrawalLimit = terms.withdrawalLimit)
    (hlength : p.withdrawalPeriodSec = terms.withdrawalPeriodSec)
    (hstart : p.periodStartTime = terms.periodStartTime)
    (hexpiration : p.expiration = terms.expiration)
    (hclaimed : 0 ≤ p.claimedThisPeriod) (hamount : 0 < terms.withdrawalLimit.amount)
    (hpos : 0 < terms.withdrawalPeriodSec) (hcount : 0 < terms.periodsUntilExpiration)
    (hfits : terms.periodStartTime + terms.periodsUntilExpiration * terms.withdrawalPeriodSec <
      2 ^ 32) : Inv ⟨s, w.grant s id terms⟩ := by
  have hfinish : terms.expiration =
      terms.periodStartTime + terms.periodsUntilExpiration * terms.withdrawalPeriodSec := by
    have hproduct : terms.periodsUntilExpiration * terms.withdrawalPeriodSec % 2 ^ 32 =
        terms.periodsUntilExpiration * terms.withdrawalPeriodSec := Nat.mod_eq_of_lt (by omega)
    rw [WithdrawTerms.expiration, hproduct, Nat.mod_eq_of_lt hfits]
  have hstored : ((s.permissions id).map (·.expiration)).getD 0 = terms.expiration := by
    rw [hs, Function.update_self, Option.map_some, Option.getD_some, hexpiration]
  rw [Withdrawals.grant, hstored]
  refine hw.update htime hs ?_ ?_
  · intro g hg
    obtain rfl | hg := List.mem_cons.1 hg
    · exact {
        expiration_eq := hfinish
        within := by simp
        asset_eq := by simp
        claimed_le := fun k ↦ hamount.le }
    · exact hw.kept id g hg
  · intro p' hp'
    obtain rfl := Option.some.inj hp'
    exact ⟨_, _, rfl, {
      limit_eq := hlimit
      length_eq := hlength
      expiration_eq := hexpiration.trans hfinish
      finish_lt := hfits
      length_pos := hpos
      at_period := ⟨0, hcount, by rw [hstart, Grant.period, Nat.zero_mul, Nat.add_zero], .inl rfl⟩
      claims_lt := by simp
      claimed_nonneg := hclaimed
      claimed_le := hclaimed }⟩

/-- An operation that is in time. -/
theorem Inv.operation (hw : w.Inv) {flags : EvaluationFlags} {requiredFee : Option ℤ}
    {op : TransferOperation} {fee : Asset} {s : TransferState}
    (h : w.state.applyOperation flags requiredFee op fee = some s)
    (hin : w.InTime (.operation flags requiredFee op fee)) : Inv ⟨s, w.record s op⟩ := by
  obtain ⟨hvalid, heval, htime, hafter⟩ := TransferState.applyOperation_spec h
  have hunchanged (hs : s.permissions = w.state.permissions) : Inv ⟨s, w.grants⟩ := by
    refine ⟨hw.kept, fun id p hp ↦ ?_⟩
    rw [hs] at hp
    obtain ⟨g, gs, hgrants, hcurrent⟩ := hw.current id p hp
    exact ⟨g, gs, hgrants, hcurrent.later htime.ge⟩
  cases op with
  | transfer => exact hunchanged hafter
  | overrideTransfer => exact hunchanged hafter
  | withdrawPermissionCreate terms =>
    simp only [TransferOperation.validate, Bool.and_eq_true, decide_eq_true_eq] at hvalid
    obtain ⟨⟨⟨-, hamount⟩, hpos⟩, hcount⟩ := hvalid
    exact hw.grant htime.ge hafter rfl rfl rfl rfl le_rfl hamount hpos hcount hin
  | withdrawPermissionUpdate id terms =>
    simp only [TransferOperation.validate, Bool.and_eq_true, decide_eq_true_eq] at hvalid
    obtain ⟨⟨⟨hamount, hpos⟩, -⟩, hcount⟩ := hvalid
    obtain ⟨p, hp, hs⟩ := hafter
    obtain ⟨g, gs, -, hcurrent⟩ := hw.current id p hp
    exact hw.grant htime.ge hs rfl rfl rfl rfl hcurrent.claimed_nonneg hamount hpos hcount hin
  | withdrawPermissionClaim id source target amount =>
    simp only [TransferOperation.validate, Bool.and_eq_true, decide_eq_true_eq] at hvalid
    obtain ⟨p, hp, p', hclaim, hs⟩ := hafter
    obtain ⟨⟨permit, hpermit, hexpiration, -, -, hasset, hamount⟩, -⟩ :=
      TransferState.evaluateClaim_eq_some.1 heval
    obtain rfl : permit = p := Option.some.inj (hpermit.symm.trans hp)
    obtain ⟨g, gs, hgrants, hcurrent⟩ := hw.current id permit hp
    have hg : g ∈ w.grants id := by
      rw [hgrants]
      exact List.mem_cons_self
    obtain ⟨hcurrent', hkept⟩ := hcurrent.claim (hw.kept id g hg) (hin permit hp) hexpiration hasset
      hvalid.2 hamount hclaim
    rw [record, hgrants, List.modifyHead_cons]
    refine hw.update htime.ge hs ?_ ?_
    · intro g' hg'
      obtain rfl | hg' := List.mem_cons.1 hg'
      · exact hkept
      · refine hw.kept id g' ?_
        rw [hgrants]
        exact List.mem_cons_of_mem _ hg'
    · intro p'' hp''
      obtain rfl := Option.some.inj hp''
      rw [htime]
      exact ⟨_, _, rfl, hcurrent'⟩
  | withdrawPermissionDelete source authorized id =>
    have hupdate : Inv ⟨s, Function.update w.grants id (w.grants id)⟩ :=
      hw.update htime.ge hafter (hw.kept id) (by simp)
    rwa [Function.update_eq_self] at hupdate

/-- **A step that is in time keeps what is true.** -/
theorem Inv.step (hw : w.Inv) (h : w.step i = some w') (hin : w.InTime i) : w'.Inv := by
  cases i with
  | operation flags requiredFee op fee =>
    obtain ⟨s, happly, hw'⟩ := Option.bind_eq_some_iff.1 h
    obtain rfl := Option.some.inj hw'
    exact hw.operation happly hin
  | elsewhere ledger rules blockInterval =>
    rw [Withdrawals.step] at h
    split at h
    · next htime =>
      obtain rfl := Option.some.inj h
      refine ⟨hw.kept, fun id p hp ↦ ?_⟩
      obtain ⟨g, gs, hgrants, hcurrent⟩ := hw.current id p hp
      exact ⟨g, gs, hgrants, hcurrent.later htime⟩
    · exact absurd h (by simp)
  | updateWithdrawPermissions =>
    obtain rfl := Option.some.inj h
    exact ⟨hw.kept, fun id p hp ↦ hw.current id p ((Option.mem_filter_iff.1 hp).1)⟩

/-- A grant whose terms do not end in time expires too soon. -/
theorem spoilt_grant {s : TransferState} {id : WithdrawPermissionId} {terms : WithdrawTerms}
    {p : WithdrawPermission} (hs : s.permissions = Function.update w.state.permissions id (some p))
    (hexpiration : p.expiration = terms.expiration)
    (hlate : ¬ terms.periodStartTime + terms.periodsUntilExpiration * terms.withdrawalPeriodSec <
      2 ^ 32) : Spoilt ⟨s, w.grant s id terms⟩ := by
  have hstored : ((s.permissions id).map (·.expiration)).getD 0 = terms.expiration := by
    rw [hs, Function.update_self, Option.map_some, Option.getD_some, hexpiration]
  have hlt : terms.expiration < 2 ^ 32 := Nat.mod_lt _ (Nat.two_pow_pos 32)
  refine ⟨id, ⟨terms, terms.expiration, []⟩, ?_, .inl ?_⟩
  · show _ ∈ Function.update w.grants id _ id
    rw [Function.update_self, hstored]
    exact List.mem_cons_self
  · show terms.expiration ≠
      terms.periodStartTime + terms.periodsUntilExpiration * terms.withdrawalPeriodSec
    omega

/-- **A step that is not in time spoils a grant.** -/
theorem Inv.spoilt (hw : w.Inv) (h : w.step i = some w') (hin : ¬ w.InTime i) : w'.Spoilt := by
  cases i with
  | operation flags requiredFee op fee =>
    obtain ⟨s, happly, hw'⟩ := Option.bind_eq_some_iff.1 h
    obtain rfl := Option.some.inj hw'
    obtain ⟨-, -, htime, hafter⟩ := TransferState.applyOperation_spec happly
    cases op with
    | withdrawPermissionCreate terms => exact spoilt_grant hafter rfl hin
    | withdrawPermissionUpdate id terms =>
      obtain ⟨p, -, hs⟩ := hafter
      exact spoilt_grant hs rfl hin
    | withdrawPermissionClaim id source target amount =>
      -- the claim is made before the first period, since no later one has begun
      obtain ⟨p, hp, hearly⟩ : ∃ p ∈ w.state.permissions id,
          ¬ p.periodStartTime ≤ w.state.headBlockTime := by simpa [InTime] using hin
      obtain ⟨g, gs, hgrants, hcurrent⟩ := hw.current id p hp
      obtain ⟨k, -, hstart, rfl | hbegun⟩ := hcurrent.at_period
      · rw [Grant.period, Nat.zero_mul, Nat.add_zero] at hstart
        refine ⟨id, g.add ⟨w.state.headBlockTime, amount⟩, ?_, .inr ⟨_, List.mem_cons_self, ?_⟩⟩
        · show _ ∈ Function.update w.grants id _ id
          rw [Function.update_self, hgrants]
          exact List.mem_cons_self
        · show w.state.headBlockTime < g.terms.periodStartTime
          omega
      · exact absurd hbegun hearly
    | _ => exact absurd trivial hin
  | _ => exact absurd trivial hin

/-- **Withdrawals are limited**, and within the periods of their permission: along a run from a
state without permissions, exactly if the periods that are granted end before 2^32 and no claim
comes before the period its permission is at. -/
theorem withdrawals_limited {s : TransferState} (hs : ∀ id, s.permissions id = none)
    {steps : List WithdrawStep} (h : applied step ⟨s, fun _ ↦ []⟩ steps = some w) :
    w.Limited ↔ Throughout step InTime ⟨s, fun _ ↦ []⟩ steps := by
  have hinv : Inv ⟨s, fun _ ↦ []⟩ := by
    refine ⟨by simp, fun id p hp ↦ ?_⟩
    rw [hs id] at hp
    exact absurd hp (by simp)
  obtain ⟨hall, hnot⟩ := throughout_iff (fun _ _ _ hw hstep hin ↦ Inv.step hw hstep hin)
    (fun _ _ _ hw hstep hin ↦ Inv.spoilt hw hstep hin)
    (fun _ _ _ hw hstep ↦ Spoilt.step hw hstep) hinv h
  constructor
  · intro hlimited
    by_contra hlate
    exact (hnot hlate).not_limited hlimited
  · exact fun hin ↦ (hall hin).limited

/-! ## Three runs -/

/-- Account 1, which has 1000 of the asset 3, and account 2. -/
def payingState (headBlockTime : ℕ) : TransferState where
  ledger :=
    { headBlockTime
      cashbackVestingThreshold := 0
      accounts := fun a ↦ if a = 1 ∨ a = 2 then some (TransferState.accountOf ∅) else none
      statistics := fun _ ↦ ⟨0, 0⟩
      assets := fun i ↦ if i = 0 ∨ i = 3 then some (TransferState.assetOf false ∅) else none
      dynamicData := fun _ ↦ ⟨0, 0, 0⟩
      balances := fun a i ↦ if a = 1 ∧ i = 3 then some 1000 else none
      migrations := [] }
  blockInterval := 3
  rules := fun _ ↦ ⟨9, false, false⟩
  permissions := fun _ ↦ none
  nextPermission := 0

/-- An operation without a fee. -/
def free (op : TransferOperation) : WithdrawStep :=
  .operation ⟨false, false⟩ (some 0) op ⟨0, coreAsset⟩

/-- Account 1 lets account 2 withdraw 10 of the asset 3 in each period. -/
def permit (period count start : ℕ) : WithdrawStep :=
  free (.withdrawPermissionCreate ⟨1, 2, ⟨10, 3⟩, period, count, start⟩)

/-- Account 2 withdraws some of it. -/
def withdraw (amount : ℤ) : WithdrawStep :=
  free (.withdrawPermissionClaim 0 1 2 ⟨amount, 3⟩)

/-- Time goes on. -/
def wait (headBlockTime : ℕ) : WithdrawStep :=
  .elsewhere (payingState headBlockTime).ledger (fun _ ↦ ⟨9, false, false⟩) 3

/-- Two claims in the first period, and one in the second. -/
theorem withdrawals_limited_two : ∃ w : Withdrawals,
    (w.grants 0).map (·.claims) = [[⟨170, ⟨10, 3⟩⟩, ⟨115, ⟨4, 3⟩⟩, ⟨115, ⟨6, 3⟩⟩]] ∧
      (w.Limited ↔ Throughout step InTime ⟨payingState 100, fun _ ↦ []⟩
        [permit 60 5 110, wait 115, withdraw 6, withdraw 4, wait 170, withdraw 10]) := by
  have hrun : (applied step ⟨payingState 100, fun _ ↦ []⟩
      [permit 60 5 110, wait 115, withdraw 6, withdraw 4, wait 170, withdraw 10]).map
        (fun w ↦ (w.grants 0).map (·.claims)) =
      some [[⟨170, ⟨10, 3⟩⟩, ⟨115, ⟨4, 3⟩⟩, ⟨115, ⟨6, 3⟩⟩]] := by decide +kernel
  obtain ⟨w, happlied, hclaims⟩ := Option.map_eq_some_iff.1 hrun
  exact ⟨w, hclaims, withdrawals_limited (fun _ ↦ rfl) happlied⟩

/-- **Withdrawals that are not limited**: where the end of the period wraps around, the limit may be
withdrawn again and again, and a claim may come before the first period. -/
theorem withdrawals_not_limited :
    (∃ (s : TransferState) (steps : List WithdrawStep) (w : Withdrawals),
      (∀ id, s.permissions id = none) ∧ applied step ⟨s, fun _ ↦ []⟩ steps = some w ∧
        ¬ w.Limited ∧
          ∃ g ∈ w.grants 0, g.terms.withdrawalLimit.amount < g.claimedFrom (g.period 0)) ∧
    ∃ (s : TransferState) (steps : List WithdrawStep) (w : Withdrawals),
      (∀ id, s.permissions id = none) ∧ applied step ⟨s, fun _ ↦ []⟩ steps = some w ∧
        ¬ w.Limited ∧ ∃ g ∈ w.grants 0, ∃ c ∈ g.claims, c.time < g.terms.periodStartTime := by
  constructor
  · have hrun : (applied step ⟨payingState 1499999990, fun _ ↦ []⟩
        [permit (2 ^ 32 - 1000) (2 ^ 32 - 1000) 1500000000, wait 1500000005, withdraw 10,
          withdraw 10]).map (fun w ↦ (w.grants 0).map fun g ↦
            decide (g.terms.withdrawalLimit.amount < g.claimedFrom (g.period 0))) =
        some [true] := by
      decide +kernel
    obtain ⟨w, happlied, hgrants⟩ := Option.map_eq_some_iff.1 hrun
    obtain ⟨g, _, hgs, hover, -⟩ := List.map_eq_cons_iff.1 hgrants
    have hg : g ∈ w.grants 0 := by
      rw [hgs]
      exact List.mem_cons_self
    have hover := of_decide_eq_true hover
    refine ⟨_, _, w, fun _ ↦ rfl, happlied, fun hlimited ↦ ?_, g, hg, hover⟩
    have := (hlimited.kept 0 g hg).claimed_le 0
    omega
  · have hrun : (applied step ⟨payingState 100, fun _ ↦ []⟩
        [permit 60 5 110, withdraw 10]).map (fun w ↦ (w.grants 0).map fun g ↦
          g.claims.map fun c ↦ decide (c.time < g.terms.periodStartTime)) = some [[true]] := by
      decide +kernel
    obtain ⟨w, happlied, hgrants⟩ := Option.map_eq_some_iff.1 hrun
    obtain ⟨g, _, hgs, hclaims, -⟩ := List.map_eq_cons_iff.1 hgrants
    obtain ⟨c, _, hcs, hearly, -⟩ := List.map_eq_cons_iff.1 hclaims
    have hg : g ∈ w.grants 0 := by
      rw [hgs]
      exact List.mem_cons_self
    have hc : c ∈ g.claims := by
      rw [hcs]
      exact List.mem_cons_self
    have hearly := of_decide_eq_true hearly
    refine ⟨_, _, w, fun _ ↦ rfl, happlied, fun hlimited ↦ ?_, g, hg, c, hc, hearly⟩
    have := ((hlimited.kept 0 g hg).within c hc).1
    omega

end Withdrawals

end Graphene
