import Graphene.Lib.Transitions
import Graphene.Market.MarginCalls
import Graphene.Proposals.Proposal

/-!
# Operations on the markets

* `EvaluationError` — why an operation is refused.
* `Market.startEvaluate` — the generic part of an evaluator, as `Ledger.startEvaluate` has it,
  around a `do_evaluate` and a `do_apply` that see the markets.
* `Market.startEvaluate_ok`, `Market.startEvaluate_error` — all that it can do.
-/

set_option autoImplicit false

namespace Graphene

open Transitions

/-- Why an operation on the markets is refused. -/
inductive EvaluationError where
  /-- The fee cannot be calculated, or cannot be paid. -/
  | fee
  /-- `FC_ASSERT( d.head_block_time() < HARDFORK_1_TIME )`. -/
  | hardfork
  /-- An object that the operation names is not there. -/
  | missingObject
  /-- The order is not one of the fee payer. -/
  | notSeller
  /-- The asset is not market-issued. -/
  | notMarketIssued
  /-- The asset can be settled only after a global settlement. -/
  | notSettled
  /-- `insufficient_feeds`. -/
  | insufficientFeeds
  /-- The account has less than the amount. -/
  | insufficientBalance
  /-- An amount cannot be converted at a price. -/
  | price
  /-- `FC_ASSERT( settled_amount.amount <= bitasset.settlement_fund )`. -/
  | settlementFund
  /-- An order cannot be cancelled, or a margin call throws. -/
  | market
deriving DecidableEq

namespace Market

variable {α : Type} (m : Market)

/-- `start_evaluate`, for an operation whose fee has to be `requiredFee`. -/
def startEvaluate (flags : EvaluationFlags) (requiredFee : Option ℤ) (feePayer : AccountId)
    (fee : Asset) (doEvaluate : Market → Except EvaluationError Unit)
    (doApply : Market → Except EvaluationError (Market × α)) :
    Except EvaluationError (Market × α) := do
  let coreFeePaid ← orThrow (m.ledger.prepareFee feePayer fee) .fee
  check (flags.skipFeeScheduleCheck ∨ ∃ f ∈ requiredFee, coreFeePaid ≥ f) .fee
  doEvaluate m
  let (m, result) ← doApply { m with ledger := m.ledger.charged flags feePayer fee coreFeePaid }
  let m ← orThrow (m.adjustBalance feePayer ⟨-fee.amount, fee.assetId⟩) .fee
  return (m, result)

variable {m} {flags : EvaluationFlags} {requiredFee : Option ℤ} {feePayer : AccountId}
  {fee : Asset} {doEvaluate : Market → Except EvaluationError Unit}
  {doApply : Market → Except EvaluationError (Market × α)}

/-- **What is applied.** -/
theorem startEvaluate_ok {m' : Market} {result : α} :
    m.startEvaluate flags requiredFee feePayer fee doEvaluate doApply = .ok (m', result) ↔
      ∃ coreFeePaid m₁, m.ledger.prepareFee feePayer fee = some coreFeePaid ∧
        (flags.skipFeeScheduleCheck = true ∨ ∃ f ∈ requiredFee, f ≤ coreFeePaid) ∧
        doEvaluate m = .ok () ∧
        doApply { m with ledger := m.ledger.charged flags feePayer fee coreFeePaid } =
          .ok (m₁, result) ∧
        m₁.adjustBalance feePayer ⟨-fee.amount, fee.assetId⟩ = some m' := by
  simp only [startEvaluate, bind_eq_ok, orThrow_eq_ok]
  constructor
  · rintro ⟨coreFeePaid, hfee, _, hschedule, _, heval, ⟨m₁, r⟩, happly, m₂, hadjust, h⟩
    obtain ⟨rfl, rfl⟩ := Prod.mk.inj (Except.ok.inj h)
    exact ⟨coreFeePaid, m₁, hfee, of_decide_eq_true (check_eq_ok.1 hschedule), heval, happly,
      hadjust⟩
  · rintro ⟨coreFeePaid, m₁, hfee, hschedule, heval, happly, hadjust⟩
    exact ⟨coreFeePaid, hfee, (), check_eq_ok.2 (decide_eq_true hschedule), (), heval,
      (m₁, result), happly, m', hadjust, rfl⟩

/-- **What is refused**: for its fee, by `do_evaluate`, or by `do_apply`. -/
theorem startEvaluate_error {e : EvaluationError} (he : e ≠ .fee)
    (h : m.startEvaluate flags requiredFee feePayer fee doEvaluate doApply = .error e) :
    doEvaluate m = .error e ∨ ∃ coreFeePaid,
      doApply { m with ledger := m.ledger.charged flags feePayer fee coreFeePaid } = .error e := by
  rcases bind_eq_error.1 h with h | ⟨coreFeePaid, -, h⟩
  · exact absurd (orThrow_eq_error.1 h).2.symm he
  rcases bind_eq_error.1 h with h | ⟨-, -, h⟩
  · exact absurd (check_eq_error.1 h).2.symm he
  rcases bind_eq_error.1 h with h | ⟨-, -, h⟩
  · exact .inl h
  rcases bind_eq_error.1 h with h | ⟨r, -, h⟩
  · exact .inr ⟨coreFeePaid, h⟩
  rcases bind_eq_error.1 h with h | ⟨_, -, h⟩
  · exact absurd (orThrow_eq_error.1 h).2.symm he
  · cases h

end Market

end Graphene
