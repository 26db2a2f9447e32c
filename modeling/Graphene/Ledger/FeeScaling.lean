import Graphene.Lib.Transitions
import Mathlib.Algebra.Order.Group.Nat
import Mathlib.Tactic.Ring

/-!
# The scaling of the registration fee

Whenever `accounts_per_fee_scale` accounts have been registered, the fee for the next ones is
shifted left; at maintenance it is shifted back, by what the number of accounts registered since
then says, and pending parameters take effect.

* `FeeScaling.registerAccount`, `maintain`, `initGenesis` — what the source does, in its arithmetic.
* `FeeScaling.Tracked` — with it the fee that is configured, which the source does not keep.
* `FeeScaling.Exact` — the fee in force is the configured one, scaled without loss.
* `FeeScaling.fee_scaling_exact_iff` — when this is so throughout, and nothing undefined is done.

Three things are not seen to.  Neither `chain_parameters::validate` nor anything else asks
`accounts_per_fee_scale` not to be zero; the shift to the left may lose bits; and the accounts of
the genesis state are counted, though the fee they would have scaled is replaced afterwards.
-/

set_option autoImplicit false

namespace Graphene.FeeScaling

open Transitions

/-- Why a call does not return. -/
inductive FeeFailure where
  /-- "Operation fee parameter not found". -/
  | feeNotFound
  /-- What it does has no defined meaning: it divides by zero, or shifts by as many bits as there
  are or more. -/
  | undefined
deriving DecidableEq

/-- What there is in `chain_parameters` about the registration fee. -/
structure FeeParameters where
  /-- `basic_fee` of `account_create_operation` in `current_fees`, which may have no entry for
  it. -/
  basicFee : Option UInt64
  /-- `accounts_per_fee_scale`. -/
  accountsPerFeeScale : UInt16
  /-- `account_fee_scale_bitshifts`. -/
  accountFeeScaleBitshifts : UInt8
deriving DecidableEq

/-- What there is in the global properties about it. -/
structure FeeState where
  /-- `parameters`. -/
  parameters : FeeParameters
  /-- `pending_parameters`. -/
  pendingParameters : Option FeeParameters := none
  /-- `accounts_registered_this_interval`. -/
  accountsRegisteredThisInterval : UInt32 := 0
deriving DecidableEq

/-- `x << n`. -/
def shiftLeft (x : UInt64) (n : ℕ) : Except FeeFailure UInt64 :=
  if n < 64 then .ok (UInt64.ofNat (x.toNat * 2 ^ n)) else .error .undefined

/-- `x >> n`. -/
def shiftRight (x : UInt64) (n : ℕ) : Except FeeFailure UInt64 :=
  if n < 64 then .ok (UInt64.ofNat (x.toNat / 2 ^ n)) else .error .undefined

/-- `current_fees->get<account_create_operation>().basic_fee`. -/
def FeeParameters.getBasicFee (p : FeeParameters) : Except FeeFailure UInt64 :=
  match p.basicFee with
  | some fee => .ok fee
  | none => .error .feeNotFound

namespace FeeState

/-- `account_create_evaluator::do_apply`. -/
def registerAccount (s : FeeState) : Except FeeFailure FeeState := do
  let registered := s.accountsRegisteredThisInterval + 1
  check (s.parameters.accountsPerFeeScale ≠ 0) FeeFailure.undefined
  if registered % s.parameters.accountsPerFeeScale.toUInt32 = 0 then
    let fee ← s.parameters.getBasicFee
    let fee ← shiftLeft fee s.parameters.accountFeeScaleBitshifts.toNat
    return { s with
      accountsRegisteredThisInterval := registered
      parameters := { s.parameters with basicFee := some fee } }
  else return { s with accountsRegisteredThisInterval := registered }

/-- How far `perform_chain_maintenance` shifts the fee back, in `uint32_t`. -/
def unscaling (s : FeeState) : UInt32 :=
  s.parameters.accountFeeScaleBitshifts.toUInt32 *
    (s.accountsRegisteredThisInterval / s.parameters.accountsPerFeeScale.toUInt32)

/-- `perform_chain_maintenance`. -/
def maintain (s : FeeState) : Except FeeFailure FeeState := do
  check (s.parameters.accountsPerFeeScale ≠ 0) FeeFailure.undefined
  let fee ← s.parameters.getBasicFee
  let fee ← shiftRight fee s.unscaling.toNat
  return {
    parameters := s.pendingParameters.getD { s.parameters with basicFee := some fee }
    pendingParameters := none
    accountsRegisteredThisInterval := 0 }

/-- `committee_member_update_global_parameters_evaluator::do_apply`. -/
def updateGlobalParameters (s : FeeState) (p : FeeParameters) : FeeState :=
  { s with pendingParameters := some p }

/-- The registration of the initial accounts. -/
def registerAccounts : ℕ → FeeState → Except FeeFailure FeeState
  | 0, s => .ok s
  | n + 1, s => s.registerAccount >>= registerAccounts n

end FeeState

/-- `init_genesis`: the fees are zero until the initial accounts are registered. -/
def initGenesis (initialAccounts : ℕ) (initial : FeeParameters) : Except FeeFailure FeeState := do
  let s ← FeeState.registerAccounts initialAccounts
    { parameters := { initial with basicFee := some 0 } }
  return { s with parameters := { s.parameters with basicFee := initial.basicFee } }

/-! ## The configured fee -/

/-- The state and the fee that is configured. -/
structure Tracked where
  /-- The state. -/
  state : FeeState
  /-- The fee of the parameters that took effect last. -/
  configured : Option UInt64
deriving DecidableEq

/-- What may happen. -/
inductive Event where
  /-- An account is registered. -/
  | registerAccount
  /-- New parameters are set for the next maintenance. -/
  | updateGlobalParameters (p : FeeParameters)
  /-- Maintenance. -/
  | maintain
deriving DecidableEq

/-- An event; one that throws is refused. -/
def step (t : Tracked) : Event → Except FeeFailure Tracked
  | .registerAccount => do
    let s ← t.state.registerAccount
    return { t with state := s }
  | .updateGlobalParameters p => .ok { t with state := t.state.updateGlobalParameters p }
  | .maintain => do
    let s ← t.state.maintain
    return {
      state := s
      configured := (t.state.pendingParameters.map FeeParameters.basicFee).getD t.configured }

/-- How often the fee has been scaled. -/
def FeeState.scalings (s : FeeState) : ℕ :=
  s.accountsRegisteredThisInterval.toNat / s.parameters.accountsPerFeeScale.toNat

/-- The fee in force is the configured one, scaled without loss. -/
def Exact (t : Tracked) : Prop :=
  t.state.parameters.basicFee.map UInt64.toNat = t.configured.map fun fee ↦
    fee.toNat * 2 ^ (t.state.parameters.accountFeeScaleBitshifts.toNat * t.state.scalings)

instance (t : Tracked) : Decidable (Exact t) := inferInstanceAs (Decidable (_ = _))

/-- The event does nothing undefined, and the fee is exact after it. -/
def KeptExact (t : Tracked) (e : Event) : Prop :=
  step t e ≠ .error .undefined ∧ Exact (attempt step t e)

/-- From genesis on, nothing undefined is done and the fee is exact. -/
def ExactThroughout (initialAccounts : ℕ) (initial : FeeParameters) (events : List Event) : Prop :=
  ∃ s, initGenesis initialAccounts initial = .ok s ∧ Exact ⟨s, initial.basicFee⟩ ∧
    Along step KeptExact ⟨s, initial.basicFee⟩ events

/-! ## When it is -/

/-- The event is harmless: it neither divides by zero nor shifts too far, and no bit is lost. -/
def Harmless (t : Tracked) : Event → Prop
  | .registerAccount =>
    t.state.parameters.accountsPerFeeScale ≠ 0 ∧
      ((t.state.accountsRegisteredThisInterval + 1) %
          t.state.parameters.accountsPerFeeScale.toUInt32 = 0 →
        ∀ fee ∈ t.state.parameters.basicFee,
          t.state.parameters.accountFeeScaleBitshifts.toNat < 64 ∧
          fee.toNat * 2 ^ t.state.parameters.accountFeeScaleBitshifts.toNat < 2 ^ 64)
  | .updateGlobalParameters _ => True
  | .maintain =>
    t.state.parameters.accountsPerFeeScale ≠ 0 ∧
      ∀ _fee ∈ t.state.parameters.basicFee, t.state.unscaling.toNat < 64

/-- The initial accounts are harmless: they are registered, and would not have scaled the fee. -/
def HarmlessGenesis (initialAccounts : ℕ) (initial : FeeParameters) : Prop :=
  (initialAccounts = 0 ∨ initial.accountsPerFeeScale ≠ 0 ∧
    (initial.accountFeeScaleBitshifts.toNat < 64 ∨
      initialAccounts < initial.accountsPerFeeScale.toNat)) ∧
  ∀ fee ∈ initial.basicFee, fee = 0 ∨ initial.accountFeeScaleBitshifts = 0 ∨
    initialAccounts % 2 ^ 32 / initial.accountsPerFeeScale.toNat = 0

/-! ## The arithmetic -/

/-- Where the fee is exact, scaling it once more loses nothing exactly if it stays so; the number of
accounts may wrap around only where there is nothing to scale. -/
theorem scaled_iff {F f b q q' : ℕ} (hf : f = F * 2 ^ (b * q)) (hlt : f < 2 ^ 64)
    (hq : q' = q + 1 ∨ q' = 0 ∧ 64 ≤ q) :
    f * 2 ^ b % 2 ^ 64 = F * 2 ^ (b * q') ↔ f * 2 ^ b < 2 ^ 64 := by
  rcases hq with rfl | ⟨rfl, hq⟩
  · have hnext : F * 2 ^ (b * (q + 1)) = f * 2 ^ b := by
      rw [hf]
      ring
    rw [hnext]
    exact ⟨fun h ↦ h ▸ Nat.mod_lt _ (by decide), Nat.mod_eq_of_lt⟩
  · rw [Nat.mul_zero, Nat.pow_zero, Nat.mul_one]
    rcases Nat.eq_zero_or_pos F with rfl | hF
    · simp [hf]
    rcases Nat.eq_zero_or_pos b with rfl | hb
    · have hf : f = F := by simpa using hf
      rw [← hf, Nat.pow_zero, Nat.mul_one]
      exact iff_of_true (Nat.mod_eq_of_lt hlt) hlt
    · have hle : 64 ≤ b * q := hq.trans (Nat.le_mul_of_pos_left q hb)
      have hpow : 2 ^ 64 ≤ f := calc
        2 ^ 64 ≤ 2 ^ (b * q) := Nat.pow_le_pow_right (by decide) hle
        _ ≤ F * 2 ^ (b * q) := Nat.le_mul_of_pos_left _ hF
        _ = f := hf.symm
      omega

/-- Where the fee is exact, shifting it back gives the configured one. -/
theorem unscaled_eq {F f b q : ℕ} (hf : f = F * 2 ^ (b * q)) (hlt : f < 2 ^ 64) :
    f / 2 ^ (b * q % 2 ^ 32) = F := by
  rcases Nat.eq_zero_or_pos F with rfl | hF
  · simp [hf]
  · have hshift : b * q < 64 := by
      by_contra hle
      have hpow : 2 ^ 64 ≤ f := calc
        2 ^ 64 ≤ 2 ^ (b * q) := Nat.pow_le_pow_right (by decide) (Nat.not_lt.1 hle)
        _ ≤ F * 2 ^ (b * q) := Nat.le_mul_of_pos_left _ hF
        _ = f := hf.symm
      omega
    rw [Nat.mod_eq_of_lt (hshift.trans (by decide)), hf]
    exact Nat.mul_div_cancel _ (Nat.two_pow_pos _)

theorem toUInt32_toNat (scale : UInt16) : scale.toUInt32.toNat = scale.toNat := rfl

/-- Whether the fee is to be scaled, and how often it has been then. -/
theorem scalings_succ {r : UInt32} {scale : UInt16} (hscale : scale ≠ 0) :
    ((r + 1) % scale.toUInt32 ≠ 0 → (r + 1).toNat / scale.toNat = r.toNat / scale.toNat) ∧
    ((r + 1) % scale.toUInt32 = 0 →
      (r + 1).toNat / scale.toNat = r.toNat / scale.toNat + 1 ∨
      (r + 1).toNat / scale.toNat = 0 ∧ 64 ≤ r.toNat / scale.toNat) := by
  have hpos : 0 < scale.toNat := Nat.pos_of_ne_zero fun h ↦ hscale (UInt16.toNat_inj.1 h)
  have hr := r.toNat_lt
  have hs := scale.toNat_lt
  have hsucc : (r + 1).toNat = (r.toNat + 1) % 2 ^ 32 := UInt32.toNat_add r 1
  have hmod : (r + 1) % scale.toUInt32 = 0 ↔ scale.toNat ∣ (r + 1).toNat := by
    rw [← UInt32.toNat_inj, UInt32.toNat_mod, toUInt32_toNat, Nat.dvd_iff_mod_eq_zero]
    rfl
  rw [ne_eq, hmod]
  rcases Nat.eq_or_lt_of_le (show r.toNat + 1 ≤ 2 ^ 32 by omega) with hwrap | hlt
  · rw [hsucc, hwrap, Nat.mod_self]
    refine ⟨fun h ↦ absurd (dvd_zero _) h, fun _ ↦ .inr ⟨Nat.zero_div _, ?_⟩⟩
    rw [Nat.le_div_iff_mul_le hpos]
    omega
  · rw [hsucc, Nat.mod_eq_of_lt hlt]
    exact ⟨Nat.succ_div_of_not_dvd, fun h ↦ .inl (Nat.succ_div_of_dvd h)⟩

theorem unscaling_toNat (s : FeeState) : s.unscaling.toNat =
    s.parameters.accountFeeScaleBitshifts.toNat * s.scalings % 2 ^ 32 := by
  rw [FeeState.unscaling, UInt32.toNat_mul, UInt32.toNat_div]
  rfl

/-! ## One event -/

section

variable {s : FeeState} {fee : UInt64}

theorem registerAccount_of_scale_eq_zero (h : s.parameters.accountsPerFeeScale = 0) :
    s.registerAccount = .error .undefined := by
  rw [FeeState.registerAccount]
  simp only [check, h]
  rfl

theorem registerAccount_of_not_due (hscale : s.parameters.accountsPerFeeScale ≠ 0)
    (hdue : (s.accountsRegisteredThisInterval + 1) %
      s.parameters.accountsPerFeeScale.toUInt32 ≠ 0) :
    s.registerAccount = .ok
      { s with accountsRegisteredThisInterval := s.accountsRegisteredThisInterval + 1 } := by
  rw [FeeState.registerAccount, check_eq_ok.2 (decide_eq_true hscale)]
  exact if_neg hdue

theorem registerAccount_of_due (hscale : s.parameters.accountsPerFeeScale ≠ 0)
    (hdue : (s.accountsRegisteredThisInterval + 1) %
      s.parameters.accountsPerFeeScale.toUInt32 = 0) :
    s.registerAccount =
      s.parameters.getBasicFee.bind fun fee ↦
        (shiftLeft fee s.parameters.accountFeeScaleBitshifts.toNat).bind fun fee ↦ .ok
          { s with
            accountsRegisteredThisInterval := s.accountsRegisteredThisInterval + 1
            parameters := { s.parameters with basicFee := some fee } } := by
  rw [FeeState.registerAccount, check_eq_ok.2 (decide_eq_true hscale)]
  exact if_pos hdue

theorem getBasicFee_of_some (h : s.parameters.basicFee = some fee) :
    s.parameters.getBasicFee = .ok fee := by
  rw [FeeParameters.getBasicFee, h]

theorem getBasicFee_of_none (h : s.parameters.basicFee = none) :
    s.parameters.getBasicFee = .error .feeNotFound := by
  rw [FeeParameters.getBasicFee, h]

end

variable {t : Tracked}

/-- An exact fee is that of the schedule. -/
theorem Exact.eq {fee : UInt64} (h : Exact t) (hfee : t.state.parameters.basicFee = some fee) :
    ∃ configured, t.configured = some configured ∧ fee.toNat = configured.toNat *
      2 ^ (t.state.parameters.accountFeeScaleBitshifts.toNat * t.state.scalings) := by
  rw [Exact, hfee, Option.map_some] at h
  obtain ⟨configured, hconfigured, heq⟩ := Option.map_eq_some_iff.1 h.symm
  exact ⟨configured, hconfigured, heq.symm⟩

/-- **A registration** keeps the fee exact, exactly if it is harmless. -/
theorem keptExact_registerAccount (h : Exact t) :
    KeptExact t .registerAccount ↔ Harmless t .registerAccount := by
  by_cases hscale : t.state.parameters.accountsPerFeeScale = 0
  · have hstep : step t .registerAccount = .error .undefined := by
      rw [step, registerAccount_of_scale_eq_zero hscale]
      rfl
    exact iff_of_false (fun hkept ↦ hkept.1 hstep) fun hharmless ↦ hharmless.1 hscale
  have hsucc := scalings_succ (r := t.state.accountsRegisteredThisInterval) hscale
  by_cases hdue : (t.state.accountsRegisteredThisInterval + 1) %
      t.state.parameters.accountsPerFeeScale.toUInt32 = 0
  · cases hfee : t.state.parameters.basicFee with
    | none =>
      have hstep : step t .registerAccount = .error .feeNotFound := by
        rw [step, registerAccount_of_due hscale hdue, getBasicFee_of_none hfee]
        rfl
      refine iff_of_true ⟨by simp [hstep], ?_⟩ ⟨hscale, fun _ fee hmem ↦ ?_⟩
      · rw [attempt, hstep]
        exact h
      · rw [hfee] at hmem
        cases hmem
    | some fee =>
      obtain ⟨configured, hconfigured, heq⟩ := h.eq hfee
      have hscaled := scaled_iff heq fee.toNat_lt (hsucc.2 hdue)
      have hharmless : Harmless t .registerAccount ↔
          t.state.parameters.accountFeeScaleBitshifts.toNat < 64 ∧
          fee.toNat * 2 ^ t.state.parameters.accountFeeScaleBitshifts.toNat < 2 ^ 64 := by
        simp [Harmless, hscale, hdue, hfee]
      rw [hharmless]
      by_cases hshift : t.state.parameters.accountFeeScaleBitshifts.toNat < 64
      · have hstep : step t .registerAccount = .ok { t with
            state := { t.state with
              accountsRegisteredThisInterval := t.state.accountsRegisteredThisInterval + 1
              parameters := { t.state.parameters with
                basicFee := some (UInt64.ofNat (fee.toNat *
                  2 ^ t.state.parameters.accountFeeScaleBitshifts.toNat)) } } } := by
          rw [step, registerAccount_of_due hscale hdue, getBasicFee_of_some hfee]
          simp only [Except.bind, shiftLeft, if_pos hshift]
          rfl
        rw [← hscaled, KeptExact, attempt_of_ok hstep, hstep, Exact, hconfigured]
        simp only [Option.map_some, Option.some.injEq, UInt64.toNat_ofNat']
        exact ⟨fun hkept ↦ ⟨hshift, hkept.2⟩, fun hkept ↦ ⟨by simp, hkept.2⟩⟩
      · have hstep : step t .registerAccount = .error .undefined := by
          rw [step, registerAccount_of_due hscale hdue, getBasicFee_of_some hfee]
          simp only [Except.bind, shiftLeft, if_neg hshift]
          rfl
        exact iff_of_false (fun hkept ↦ hkept.1 hstep) fun hboth ↦ hshift hboth.1
  · have hstep : step t .registerAccount = .ok { t with
        state := { t.state with
          accountsRegisteredThisInterval := t.state.accountsRegisteredThisInterval + 1 } } := by
      rw [step, registerAccount_of_not_due hscale hdue]
      rfl
    refine iff_of_true ⟨by simp [hstep], ?_⟩ ⟨hscale, fun hdue' ↦ absurd hdue' hdue⟩
    rw [attempt_of_ok hstep, Exact, FeeState.scalings, hsucc.1 hdue]
    exact h

/-- **Maintenance** keeps the fee exact, exactly if it is harmless. -/
theorem keptExact_maintain (h : Exact t) : KeptExact t .maintain ↔ Harmless t .maintain := by
  by_cases hscale : t.state.parameters.accountsPerFeeScale = 0
  · have hstep : step t .maintain = .error .undefined := by
      rw [step, FeeState.maintain]
      simp only [check, hscale]
      rfl
    exact iff_of_false (fun hkept ↦ hkept.1 hstep) fun hharmless ↦ hharmless.1 hscale
  have hcheck := check_eq_ok (e := FeeFailure.undefined).2 (decide_eq_true hscale)
  cases hfee : t.state.parameters.basicFee with
  | none =>
    have hstep : step t .maintain = .error .feeNotFound := by
      rw [step, FeeState.maintain, hcheck, getBasicFee_of_none hfee]
      rfl
    refine iff_of_true ⟨by simp [hstep], ?_⟩ ⟨hscale, fun fee hmem ↦ ?_⟩
    · rw [attempt, hstep]
      exact h
    · rw [hfee] at hmem
      cases hmem
  | some fee =>
    obtain ⟨configured, hconfigured, heq⟩ := h.eq hfee
    have hharmless : Harmless t .maintain ↔ t.state.unscaling.toNat < 64 := by
      simp [Harmless, hscale, hfee]
    rw [hharmless]
    by_cases hshift : t.state.unscaling.toNat < 64
    · have hstep : step t .maintain = .ok {
          state := {
            parameters := t.state.pendingParameters.getD { t.state.parameters with
              basicFee := some (UInt64.ofNat (fee.toNat / 2 ^ t.state.unscaling.toNat)) } }
          configured :=
            (t.state.pendingParameters.map FeeParameters.basicFee).getD t.configured } := by
        rw [step, FeeState.maintain, hcheck, getBasicFee_of_some hfee]
        simp only [bind, Except.bind, shiftRight, if_pos hshift]
        rfl
      refine iff_of_true ⟨by simp [hstep], ?_⟩ hshift
      -- no account has been registered since, and the fee is the configured one
      rw [attempt_of_ok hstep, Exact]
      simp only [FeeState.scalings, UInt32.toNat_zero, Nat.zero_div, Nat.mul_zero, Nat.pow_zero,
        Nat.mul_one]
      cases t.state.pendingParameters with
      | some p => rfl
      | none =>
        simp only [Option.getD_none, Option.map_none, hconfigured, Option.map_some,
          unscaling_toNat, unscaled_eq heq fee.toNat_lt, UInt64.ofNat_toNat]
    · have hstep : step t .maintain = .error .undefined := by
        rw [step, FeeState.maintain, hcheck, getBasicFee_of_some hfee]
        simp only [bind, Except.bind, shiftRight, if_neg hshift]
      exact iff_of_false (fun hkept ↦ hkept.1 hstep) hshift

/-- **Every event** keeps the fee exact, exactly if it is harmless. -/
theorem keptExact_iff (h : Exact t) (e : Event) : KeptExact t e ↔ Harmless t e := by
  cases e with
  | registerAccount => exact keptExact_registerAccount h
  | updateGlobalParameters p => exact iff_of_true ⟨by simp [step], h⟩ trivial
  | maintain => exact keptExact_maintain h

/-! ## Genesis -/

section

variable {s : FeeState}

/-- While the fee is zero, a registration only counts. -/
theorem registerAccount_of_free (hfee : s.parameters.basicFee = some 0)
    (hscale : s.parameters.accountsPerFeeScale ≠ 0)
    (hshift : (s.accountsRegisteredThisInterval + 1) %
        s.parameters.accountsPerFeeScale.toUInt32 = 0 →
      s.parameters.accountFeeScaleBitshifts.toNat < 64) :
    s.registerAccount = .ok
      { s with accountsRegisteredThisInterval := s.accountsRegisteredThisInterval + 1 } := by
  by_cases hdue : (s.accountsRegisteredThisInterval + 1) %
      s.parameters.accountsPerFeeScale.toUInt32 = 0
  · rw [registerAccount_of_due hscale hdue, getBasicFee_of_some hfee]
    simp only [Except.bind, shiftLeft, if_pos (hshift hdue), UInt64.toNat_zero, Nat.zero_mul]
    rw [show some (UInt64.ofNat 0) = s.parameters.basicFee from hfee.symm]
  · exact registerAccount_of_not_due hscale hdue

/-- The registrations where none of them is due to scale the fee, or the fee can be shifted. -/
theorem registerAccounts_ok {n : ℕ} (hfee : s.parameters.basicFee = some 0)
    (hscale : n = 0 ∨ s.parameters.accountsPerFeeScale ≠ 0)
    (hshift : s.parameters.accountFeeScaleBitshifts.toNat < 64 ∨
      s.accountsRegisteredThisInterval.toNat + n < s.parameters.accountsPerFeeScale.toNat) :
    FeeState.registerAccounts n s = .ok { s with
      accountsRegisteredThisInterval := s.accountsRegisteredThisInterval + UInt32.ofNat n } := by
  induction n generalizing s with
  | zero =>
    show Except.ok s = _
    rw [show UInt32.ofNat 0 = 0 from rfl, UInt32.add_zero]
  | succ n ih =>
    have hscale := hscale.resolve_left (Nat.succ_ne_zero n)
    have hs := s.parameters.accountsPerFeeScale.toNat_lt
    have hregister := registerAccount_of_free hfee hscale fun hdue ↦ by
      rcases hshift with hshift | hshift
      · exact hshift
      · have hmod := congrArg UInt32.toNat hdue
        rw [UInt32.toNat_mod, UInt32.toNat_add, toUInt32_toNat, UInt32.toNat_one,
          UInt32.toNat_zero, Nat.mod_eq_of_lt (by omega), Nat.mod_eq_of_lt (by omega)] at hmod
        omega
    rw [FeeState.registerAccounts, hregister]
    refine (ih (s := { s with
      accountsRegisteredThisInterval := s.accountsRegisteredThisInterval + 1 }) hfee
      (.inr hscale) ?_).trans ?_
    · refine hshift.imp id fun hshift ↦ ?_
      show (s.accountsRegisteredThisInterval + 1).toNat + n <
        s.parameters.accountsPerFeeScale.toNat
      rw [UInt32.toNat_add, UInt32.toNat_one]
      have hmod := Nat.mod_le (s.accountsRegisteredThisInterval.toNat + 1) (2 ^ 32)
      omega
    · rw [UInt32.ofNat_add, UInt32.add_comm (UInt32.ofNat n), ← UInt32.add_assoc]
      rfl

/-- Where the fee cannot be shifted, the first registration that is due to do it is undefined. -/
theorem registerAccounts_undefined {n : ℕ} (hfee : s.parameters.basicFee = some 0)
    (hshift : 64 ≤ s.parameters.accountFeeScaleBitshifts.toNat)
    (hlt : s.accountsRegisteredThisInterval.toNat < s.parameters.accountsPerFeeScale.toNat)
    (hle : s.parameters.accountsPerFeeScale.toNat ≤
      s.accountsRegisteredThisInterval.toNat + n) :
    FeeState.registerAccounts n s = .error .undefined := by
  induction n generalizing s with
  | zero => omega
  | succ n ih =>
    have hscale : s.parameters.accountsPerFeeScale ≠ 0 := fun hzero ↦ by
      rw [hzero] at hlt
      exact absurd hlt (Nat.not_lt_zero _)
    have hs := s.parameters.accountsPerFeeScale.toNat_lt
    have hsucc : (s.accountsRegisteredThisInterval + 1).toNat =
        s.accountsRegisteredThisInterval.toNat + 1 := by
      rw [UInt32.toNat_add, UInt32.toNat_one]
      exact Nat.mod_eq_of_lt (by omega)
    have hmod : ((s.accountsRegisteredThisInterval + 1) %
        s.parameters.accountsPerFeeScale.toUInt32).toNat =
        (s.accountsRegisteredThisInterval.toNat + 1) % s.parameters.accountsPerFeeScale.toNat := by
      rw [UInt32.toNat_mod, hsucc, toUInt32_toNat]
    rcases Nat.eq_or_lt_of_le (Nat.succ_le_of_lt hlt) with heq | hlt'
    · have hdue : (s.accountsRegisteredThisInterval + 1) %
          s.parameters.accountsPerFeeScale.toUInt32 = 0 := by
        rw [← UInt32.toNat_inj, hmod, show s.accountsRegisteredThisInterval.toNat + 1 =
          s.parameters.accountsPerFeeScale.toNat from heq, Nat.mod_self]
        rfl
      rw [FeeState.registerAccounts, registerAccount_of_due hscale hdue, getBasicFee_of_some hfee]
      simp only [bind, Except.bind, shiftLeft, if_neg (Nat.not_lt.2 hshift)]
    · have hdue : (s.accountsRegisteredThisInterval + 1) %
          s.parameters.accountsPerFeeScale.toUInt32 ≠ 0 := by
        rw [ne_eq, ← UInt32.toNat_inj, hmod, Nat.mod_eq_of_lt hlt', UInt32.toNat_zero]
        omega
      rw [FeeState.registerAccounts, registerAccount_of_not_due hscale hdue]
      refine ih (s := { s with
        accountsRegisteredThisInterval := s.accountsRegisteredThisInterval + 1 }) hfee hshift ?_ ?_
      · show (s.accountsRegisteredThisInterval + 1).toNat < _
        rw [hsucc]
        exact hlt'
      · show s.parameters.accountsPerFeeScale.toNat ≤
          (s.accountsRegisteredThisInterval + 1).toNat + n
        rw [hsucc]
        omega

end

/-- The state after genesis: the accounts have been counted. -/
def started (initialAccounts : ℕ) (initial : FeeParameters) : FeeState :=
  { parameters := initial, accountsRegisteredThisInterval := UInt32.ofNat initialAccounts }

/-- **Genesis** comes to an end if the registrations do, and then has counted them. -/
theorem initGenesis_spec (n : ℕ) (initial : FeeParameters) :
    if n = 0 ∨ initial.accountsPerFeeScale ≠ 0 ∧
        (initial.accountFeeScaleBitshifts.toNat < 64 ∨ n < initial.accountsPerFeeScale.toNat) then
      initGenesis n initial = .ok (started n initial)
    else initGenesis n initial = .error .undefined := by
  have hstart : ∀ x, FeeState.registerAccounts n
      { parameters := { initial with basicFee := some 0 } } = x → initGenesis n initial =
        x.bind fun s ↦ .ok { s with parameters := { s.parameters with
          basicFee := initial.basicFee } } := fun x hx ↦ by
    rw [initGenesis, hx]
    rfl
  split_ifs with h
  · rcases h with rfl | ⟨hscale, hshift⟩
    · exact hstart _ rfl
    · refine hstart _ (registerAccounts_ok rfl (.inr hscale) ?_) |>.trans ?_
      · simpa using hshift
      · rw [UInt32.zero_add]
        rfl
  · obtain ⟨hn, hboth⟩ := not_or.1 h
    by_cases hscale : initial.accountsPerFeeScale = 0
    · obtain ⟨n, rfl⟩ := Nat.exists_eq_succ_of_ne_zero hn
      refine hstart (.error .undefined) ?_
      rw [FeeState.registerAccounts, registerAccount_of_scale_eq_zero hscale]
      rfl
    · obtain ⟨hshift, hle⟩ := not_or.1 fun hor ↦ hboth ⟨hscale, hor⟩
      refine hstart (.error .undefined) (registerAccounts_undefined rfl (Nat.not_lt.1 hshift) ?_ ?_)
      · exact Nat.pos_of_ne_zero fun hzero ↦ hscale (UInt16.toNat_inj.1 hzero)
      · rw [UInt32.toNat_zero, Nat.zero_add]
        exact Nat.not_lt.1 hle

/-- The accounts of the genesis state leave the fee exact where they would not have scaled it. -/
theorem exact_started (n : ℕ) (initial : FeeParameters) :
    Exact ⟨started n initial, initial.basicFee⟩ ↔
      ∀ fee ∈ initial.basicFee, fee = 0 ∨ initial.accountFeeScaleBitshifts = 0 ∨
        n % 2 ^ 32 / initial.accountsPerFeeScale.toNat = 0 := by
  show initial.basicFee.map UInt64.toNat = initial.basicFee.map (fun fee ↦ fee.toNat *
    2 ^ (initial.accountFeeScaleBitshifts.toNat *
      ((UInt32.ofNat n).toNat / initial.accountsPerFeeScale.toNat))) ↔ _
  rw [UInt32.toNat_ofNat']
  cases initial.basicFee with
  | none => simp
  | some fee =>
    simp only [Option.map_some, Option.some.injEq, Option.mem_some_iff, forall_eq']
    generalize n % 2 ^ 32 / initial.accountsPerFeeScale.toNat = q
    rw [← UInt64.toNat_inj, ← UInt8.toNat_inj, UInt64.toNat_zero, UInt8.toNat_zero]
    generalize fee.toNat = F
    generalize initial.accountFeeScaleBitshifts.toNat = b
    constructor
    · intro h
      by_contra hnot
      obtain ⟨hF, hbq⟩ := not_or.1 hnot
      have hone := Nat.eq_of_mul_eq_mul_left (Nat.pos_of_ne_zero hF) ((Nat.mul_one F).trans h)
      exact absurd hone (Nat.one_lt_two_pow (Nat.mul_ne_zero_iff.2 (not_or.1 hbq))).ne
    · rintro (rfl | rfl | rfl) <;> simp

/-- **The registration fee is scaled and restored exactly**, from genesis on and whatever happens,
if and only if the initial accounts are harmless and so is every event after them. -/
theorem fee_scaling_exact_iff (initialAccounts : ℕ) (initial : FeeParameters)
    (events : List Event) :
    ExactThroughout initialAccounts initial events ↔
      HarmlessGenesis initialAccounts initial ∧
        Along step Harmless ⟨started initialAccounts initial, initial.basicFee⟩ events := by
  have hspec := initGenesis_spec initialAccounts initial
  have halong : Exact ⟨started initialAccounts initial, initial.basicFee⟩ →
      (Along step KeptExact ⟨started initialAccounts initial, initial.basicFee⟩ events ↔
        Along step Harmless ⟨started initialAccounts initial, initial.basicFee⟩ events) :=
    fun hexact ↦ Along.iff_of_inv hexact (fun t e ht ↦ keptExact_iff ht e) fun t e _ hkept ↦ hkept.2
  split_ifs at hspec with hgenesis
  · constructor
    · rintro ⟨s, hs, hexact, hkept⟩
      obtain rfl := Except.ok.inj (hspec.symm.trans hs)
      exact ⟨⟨hgenesis, (exact_started _ _).1 hexact⟩, (halong hexact).1 hkept⟩
    · rintro ⟨⟨-, hfee⟩, hharmless⟩
      have hexact := (exact_started _ _).2 hfee
      exact ⟨_, hspec, hexact, (halong hexact).2 hharmless⟩
  · refine iff_of_false ?_ fun h ↦ hgenesis h.1.1
    rintro ⟨s, hs, -⟩
    exact nomatch hspec.symm.trans hs

/-- The default parameters, with the fee that is charged by default. -/
def defaultParameters : FeeParameters := ⟨some 500000, 1000, 4⟩

/-- A thousand initial accounts are enough for the first maintenance to divide the fee by 16. -/
theorem genesis_accounts_unscale :
    (∃ s, initGenesis 1000 defaultParameters = .ok s ∧
      (attempt step ⟨s, some 500000⟩ .maintain).state.parameters.basicFee = some 31250) ∧
    ¬ExactThroughout 1000 defaultParameters [.maintain] := by
  have hgenesis : initGenesis 1000 defaultParameters = .ok (started 1000 defaultParameters) := by
    have hspec := initGenesis_spec 1000 defaultParameters
    rwa [if_pos (by decide)] at hspec
  refine ⟨⟨_, hgenesis, by decide⟩, ?_⟩
  rintro ⟨s, hs, hexact, -⟩
  obtain rfl := Except.ok.inj (hgenesis.symm.trans hs)
  exact absurd hexact (by decide)

end Graphene.FeeScaling
