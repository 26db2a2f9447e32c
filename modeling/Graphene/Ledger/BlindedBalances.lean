import Graphene.Ledger.Supplies
import Mathlib.Tactic.Abel

/-!
# What blinded balances come to

Nobody can see what a blinded balance is worth.  But the blinded balances of an asset always come to
a commitment to its confidential supply, under the blinding factors that have been published when
amounts moved to blinded balances and back, whatever has been moved between them.

* `TreasuryEvent.published` — the blinding factor that an event publishes.
* `Treasury.hidden` — what the blinded balances of an asset come to, beyond its confidential supply.
* `Treasury.SameHidden` — what most of a step leaves alone.
* `Treasury.hidden_step` — an event changes what is hidden by what it publishes.
* `Treasury.commitments_applied` — so that a run changes what the commitments come to as it changes
  the confidential supply.
-/

set_option autoImplicit false

namespace Graphene

open Transitions

variable {K B C P G : Type} [AddCommGroup G]

/-- The blinding factor that an operation publishes for an asset: what moves to blinded balances
adds it, and what moves from them takes it away. -/
def BlindOperation.published (factor : B → G) (a : AssetId) : BlindOperation K B C P → G
  | transferToBlind amount _ blindingFactor _ =>
    if amount.assetId = a then factor blindingFactor else 0
  | transferFromBlind amount _ blindingFactor _ =>
    if amount.assetId = a then -factor blindingFactor else 0
  | blindTransfer .. => 0

/-- The blinding factor that an event publishes for an asset. -/
def TreasuryEvent.published (factor : B → G) (a : AssetId) : TreasuryEvent K B C P → G
  | operation _ _ (.blind op) _ => op.published factor a
  | _ => 0

namespace Treasury

/-- What the commitments to the blinded balances of an asset come to. -/
def commitments (point : C → G) (s : Treasury K C) (a : AssetId) : G :=
  s.blinded.worth fun c balance ↦ if balance.assetId = a then point c else 0

/-- What they come to beyond the confidential supply. -/
def hidden (point : C → G) (value : ℤ →+ G) (s : Treasury K C) (a : AssetId) : G :=
  s.commitments point a - value (s.confidentialSupply a)

variable {s s' : Treasury K C} {point : C → G} {factor : B → G} {value : ℤ →+ G}

/-! ## What leaves them alone -/

/-- The blinded balances and the confidential supply are the same. -/
def SameHidden (s s' : Treasury K C) : Prop :=
  s'.blinded = s.blinded ∧ s'.confidentialSupply = s.confidentialSupply

namespace SameHidden

variable {s₁ : Treasury K C}

theorem trans (h : SameHidden s s₁) (h' : SameHidden s₁ s') : SameHidden s s' :=
  ⟨h'.1.trans h.1, h'.2.trans h.2⟩

theorem hidden (h : SameHidden s s') (a : AssetId) :
    s'.hidden point value a = s.hidden point value a := by
  rw [Treasury.hidden, Treasury.hidden, commitments, commitments, h.1, h.2]

theorem adjustBalance {account : AccountId} {delta : Asset}
    (h : s.adjustBalance account delta = some s') : SameHidden s s' := by
  obtain ⟨l, -, rfl⟩ := Option.map_eq_some_iff.1 h
  exact ⟨rfl, rfl⟩

theorem splitFbaBalance {id : FbaAccumulatorId} {percents : ℕ × ℕ × ℕ}
    (h : s.splitFbaBalance id percents = some s') : SameHidden s s' := by
  obtain ⟨networkPct, buybackPct, issuerPct⟩ := percents
  simp only [Treasury.splitFbaBalance, Option.bind_eq_bind, Option.bind_eq_some_iff,
    Option.guard_eq_some', exists_const] at h
  obtain ⟨-, h⟩ := h
  split at h
  case isTrue =>
    obtain rfl := Option.some.inj h
    exact ⟨rfl, rfl⟩
  case isFalse =>
    split at h
    case isTrue =>
      obtain rfl := Option.some.inj h
      exact ⟨rfl, rfl⟩
    case isFalse =>
      simp only [Option.bind_eq_some_iff, Option.guard_eq_some', exists_const, Option.pure_def,
        Option.some.injEq] at h
      obtain ⟨-, designatedAsset, -, buybackAccount, -, s₂, hbuyback, s₃, hissuer, rfl⟩ := h
      have hpaid : s.SameHidden s₃ := by
        refine SameHidden.trans ?_ (adjustBalance hissuer)
        refine SameHidden.trans ?_ (adjustBalance hbuyback)
        split_ifs <;> exact ⟨rfl, rfl⟩
      exact hpaid

theorem distributeFbaBalances (h : s.distributeFbaBalances = some s') : SameHidden s s' := by
  simp only [Treasury.distributeFbaBalances, Option.bind_eq_bind, Option.bind_eq_some_iff] at h
  obtain ⟨s₁, h₁, s₂, h₂, h₃⟩ := h
  exact ((splitFbaBalance h₁).trans (splitFbaBalance h₂)).trans (splitFbaBalance h₃)

theorem payFee {flags : EvaluationFlags} {op : TreasuryOperation K B C P} {coreFeePaid : ℤ}
    (h : s.payFee flags op coreFeePaid = some s') : SameHidden s s' := by
  cases op with
  | blind op =>
    simp only [Treasury.payFee, payFbaFee] at h
    split at h
    · obtain rfl := Option.some.inj h
      exact ⟨rfl, rfl⟩
    · obtain ⟨fees, -, rfl⟩ := Option.map_eq_some_iff.1 h
      exact ⟨rfl, rfl⟩
  | transfers | assetFundFeePool | assetClaimFees =>
    obtain rfl := Option.some.inj h
    exact ⟨rfl, rfl⟩

theorem fundFeePool {account : AccountId} {id : AssetId} {amount : ℤ}
    (h : s.fundFeePool account id amount = some s') : SameHidden s s' := by
  simp only [Treasury.fundFeePool, Option.bind_eq_bind, Option.bind_eq_some_iff, Option.pure_def,
    Option.some.injEq] at h
  obtain ⟨s₁, hadjust, feePool, -, rfl⟩ := h
  exact (adjustBalance hadjust).trans ⟨rfl, rfl⟩

theorem claimFees {issuer : AccountId} {amountToClaim : Asset}
    (h : s.claimFees issuer amountToClaim = some s') : SameHidden s s' := by
  simp only [Treasury.claimFees, Option.bind_eq_bind, Option.bind_eq_some_iff,
    Option.guard_eq_some', exists_const] at h
  obtain ⟨blinded, hconf⟩ := adjustBalance h.2
  exact ⟨blinded, hconf⟩

end SameHidden

/-! ## One operation -/

theorem hidden_adjustConfidentialSupply {i : AssetId} {delta : ℤ}
    (h : s.adjustConfidentialSupply i delta = some s') (a : AssetId) :
    s'.blinded = s.blinded ∧ s'.hidden point value a =
      s.hidden point value a - if i = a then value delta else 0 := by
  simp only [adjustConfidentialSupply, shareType, Option.bind_eq_bind, Option.bind_eq_some_iff,
    Option.guard_eq_some', exists_const, Option.pure_def, Option.some.injEq,
    Option.ite_none_right_eq_some] at h
  obtain ⟨supply, ⟨-, rfl⟩, -, rfl⟩ := h
  refine ⟨rfl, ?_⟩
  rcases eq_or_ne i a with rfl | hne
  · simp only [hidden, commitments, Function.update_self, if_true, map_add]
    abel
  · simp only [hidden, commitments, Function.update_of_ne hne.symm, if_neg hne, sub_zero]

variable [LinearOrder C]

/-- What is spent is of the asset of the operation. -/
theorem hidden_spendInputs [DecidableEq K] {id : AssetId} {inputs : List (BlindInput K C)}
    (hexist : s.inputsExist id inputs = true) (h : s.spendInputs inputs = some s')
    (a : AssetId) : s'.hidden point value a = s.hidden point value a -
      if id = a then ((inputs.map BlindInput.commitment).map point).sum else 0 := by
  obtain ⟨blinded, hspend, rfl⟩ := Option.map_eq_some_iff.1 h
  have hworth := AList.worth_spend (f := fun c (balance : BlindedBalance K) ↦
    if balance.assetId = a then point c else 0) (g := fun c ↦ if id = a then point c else 0) hspend
    (by
      intro c hc balance hbalance
      obtain ⟨input, hinput, rfl⟩ := List.mem_map.1 hc
      have hone := List.all_eq_true.1 hexist input hinput
      rw [hbalance, Option.any_some, Bool.and_eq_true, decide_eq_true_eq] at hone
      rw [hone.1])
  simp only [hidden, commitments, hworth]
  split_ifs with hid
  · abel
  · simp [Function.comp_def]

theorem hidden_createOutputs {id : AssetId} {outputs : List (BlindOutput K C P)}
    (h : s.createOutputs id outputs = some s') (a : AssetId) :
    s'.hidden point value a = s.hidden point value a +
      if id = a then ((outputs.map BlindOutput.commitment).map point).sum else 0 := by
  obtain ⟨blinded, hcreate, rfl⟩ := Option.map_eq_some_iff.1 h
  have hworth := AList.worth_create (f := fun c (balance : BlindedBalance K) ↦
    if balance.assetId = a then point c else 0) hcreate
  simp only [hidden, commitments, hworth, List.map_map, Function.comp_def]
  split_ifs with hid
  · abel
  · simp

/-- **An operation changes what is hidden by the blinding factor it publishes**: what it takes is
worth what it makes, with the amount that is not confidential any more. -/
theorem hidden_applyBlind [DecidableEq K] {lib : Commitments B C P}
    (hlib : lib.Homomorphic point factor value) {op : BlindOperation K B C P} {fee : Asset}
    (hvalid : op.validate lib fee = true)
    (hinputs : s.inputsExist fee.assetId op.inputs = true) (h : s.applyBlind op fee = some s')
    (a : AssetId) :
    s'.hidden point value a = s.hidden point value a + op.published factor a := by
  cases op with
  | transferToBlind amount source blindingFactor outputs =>
    simp only [applyBlind, Option.bind_eq_bind, Option.bind_eq_some_iff] at h
    obtain ⟨s₁, h₁, s₂, h₂, h₃⟩ := h
    have hsum : factor blindingFactor + value amount.amount =
        ((outputs.map BlindOutput.commitment).map point).sum := by
      simp only [BlindOperation.validate, Bool.and_eq_true] at hvalid
      simpa [hlib.point_blind] using (hlib.verifySum_iff _ _ _).1 hvalid.1.2
    rw [hidden_createOutputs h₃, (hidden_adjustConfidentialSupply h₂ a).2,
      (SameHidden.adjustBalance h₁).hidden, BlindOperation.published, ← hsum]
    split_ifs <;> abel
  | transferFromBlind amount target blindingFactor inputs =>
    simp only [applyBlind, Option.bind_eq_bind, Option.bind_eq_some_iff] at h
    obtain ⟨s₁, h₁, s₂, h₂, s₃, h₃, h₄⟩ := h
    simp only [BlindOperation.validate, Bool.and_eq_true, decide_eq_true_eq] at hvalid
    have hid : amount.assetId = fee.assetId := hvalid.1.1.2
    have hsum : ((inputs.map BlindInput.commitment).map point).sum =
        factor blindingFactor + value (fee.amount + amount.amount) := by
      simpa [hlib.point_blind] using (hlib.verifySum_iff _ _ _).1 hvalid.2
    have hsame := (SameHidden.adjustBalance h₁).trans (SameHidden.adjustBalance h₂)
    have hexist : s₂.inputsExist fee.assetId inputs = true := by
      rw [← hinputs, inputsExist, inputsExist, hsame.1]
      rfl
    rw [(hidden_adjustConfidentialSupply h₄ a).2, hidden_spendInputs hexist h₃, hsame.hidden,
      BlindOperation.published, hsum, hid]
    simp only [map_neg, map_add]
    split_ifs <;> abel
  | blindTransfer inputs outputs =>
    simp only [applyBlind, Option.bind_eq_bind, Option.bind_eq_some_iff] at h
    obtain ⟨s₁, h₁, s₂, h₂, s₃, h₃, h₄⟩ := h
    have hsum : ((inputs.map BlindInput.commitment).map point).sum =
        ((outputs.map BlindOutput.commitment).map point).sum + value fee.amount := by
      simp only [BlindOperation.validate, Bool.and_eq_true] at hvalid
      exact (hlib.verifySum_iff _ _ _).1 hvalid.1.2
    have hsame := SameHidden.adjustBalance h₁
    have hexist : s₁.inputsExist fee.assetId inputs = true := by
      rw [← hinputs, inputsExist, inputsExist, hsame.1]
      rfl
    rw [(hidden_adjustConfidentialSupply h₄ a).2, hidden_createOutputs h₃,
      hidden_spendInputs hexist h₂, hsame.hidden, BlindOperation.published, hsum]
    simp only [map_neg]
    split_ifs <;> abel

/-! ## Runs -/

variable [DecidableEq K] {lib : Commitments B C P}

/-- The inputs of an operation are there when it is evaluated. -/
theorem inputsExist_of_evaluateBlind {op : BlindOperation K B C P} {fee : Asset}
    (h : s.evaluateBlind op fee = some ()) : s.inputsExist fee.assetId op.inputs = true := by
  cases op with
  | transferToBlind => rfl
  | transferFromBlind =>
    simp only [evaluateBlind, Option.bind_eq_bind, Option.bind_eq_some_iff, Option.guard_eq_some',
      exists_const] at h
    exact h.2.2
  | blindTransfer =>
    simp only [evaluateBlind, Option.bind_eq_bind, Option.bind_eq_some_iff, Option.guard_eq_some',
      exists_const] at h
    exact h.2.2.2

theorem hidden_step (hlib : lib.Homomorphic point factor value) {e : TreasuryEvent K B C P}
    (h : s.step lib e = some s') (a : AssetId) :
    s'.hidden point value a = s.hidden point value a + e.published factor a := by
  cases e with
  | distributeFbaBalances =>
    rw [(SameHidden.distributeFbaBalances h).hidden]
    exact (add_zero _).symm
  | operation skipFeeScheduleCheck requiredFee op fee =>
    obtain ⟨hvalid, coreFeePaid, hfee, -, heval, s₁, s₂, hpay, happly, hadjust⟩ :=
      applyOperation_eq_some.1 h
    have hcharged : s.SameHidden s₁ := by
      obtain ⟨hblinded, hconf⟩ := SameHidden.payFee hpay
      exact ⟨hblinded, hconf⟩
    rw [(SameHidden.adjustBalance hadjust).hidden]
    have hplain (hsame : SameHidden s₁ s₂) :
        s₂.hidden point value a = s.hidden point value a + 0 := by
      rw [hsame.hidden, hcharged.hidden, add_zero]
    cases op with
    | transfers =>
      obtain ⟨t, -, rfl⟩ := Option.map_eq_some_iff.1 happly
      exact hplain ⟨rfl, rfl⟩
    | assetFundFeePool => exact hplain (SameHidden.fundFeePool happly)
    | assetClaimFees => exact hplain (SameHidden.claimFees happly)
    | blind op =>
      have hexist : s₁.inputsExist fee.assetId op.inputs = true := by
        rw [← inputsExist_of_evaluateBlind heval, inputsExist, inputsExist, hcharged.1]
      rw [hidden_applyBlind hlib hvalid hexist happly, hcharged.hidden, TreasuryEvent.published]

/-- **The blinded balances of an asset come to its confidential supply**: over every run, what the
commitments to them come to changes as the confidential supply does, but for the blinding factors
that have been published. -/
theorem commitments_applied (lib : Commitments B C P) (point : C → G) (factor : B → G)
    (value : ℤ →+ G) (hlib : lib.Homomorphic point factor value) (s s' : Treasury K C)
    (es : List (TreasuryEvent K B C P)) (h : applied (step lib) s es = some s') (a : AssetId) :
    s'.commitments point a = s.commitments point a +
      value (s'.confidentialSupply a - s.confidentialSupply a) +
        (es.map fun e ↦ e.published factor a).sum := by
  have hhidden : s'.hidden point value a =
      s.hidden point value a + (es.map fun e ↦ e.published factor a).sum :=
    applied_sum (q := fun t : Treasury K C ↦ t.hidden point value a)
      (fun _ _ _ hstep ↦ hidden_step hlib hstep a) h
  rw [hidden, hidden, sub_eq_iff_eq_add] at hhidden
  rw [hhidden, map_sub]
  abel

theorem clearCommitments_homomorphic : clearCommitments.Homomorphic ofLex (fun b ↦ ((b, 0) : ℤ × ℤ))
    (AddMonoidHom.inr ℤ ℤ) where
  point_blind b amount := by simp [clearCommitments]
  verifySum_iff ins outs excess := by simp [clearCommitments]

/-- What is hidden in the end is 35, under the blinding factor 3 that is left. -/
theorem commitments_applied_thereAndBack :
    ∃ s', applied (step clearCommitments) minted thereAndBack = some s' ∧
      s'.commitments ofLex 0 = minted.commitments ofLex 0 +
        AddMonoidHom.inr ℤ ℤ (s'.confidentialSupply 0 - minted.confidentialSupply 0) +
          (thereAndBack.map fun e ↦ e.published (fun b ↦ ((b, 0) : ℤ × ℤ)) 0).sum := by
  obtain ⟨s', hs'⟩ := Option.isSome_iff_exists.1 thereAndBack_applied
  exact ⟨s', hs', commitments_applied clearCommitments ofLex (fun b ↦ (b, 0))
    (AddMonoidHom.inr ℤ ℤ) clearCommitments_homomorphic minted s' thereAndBack hs' 0⟩

end Treasury

end Graphene
