import Graphene.Lib.Throwing
import Graphene.Proposals.Proposal
import Mathlib.Logic.Relation

/-!
# Transactions that create, approve, delete and execute proposals

`apply_operation` looks the evaluator of an operation up and runs it.  The evaluators of the three
proposal operations are here in full; that of `proposal_update` may call `push_proposal`, which
applies the operations of the proposal in a session of its own, and so enters `apply_operation`
again.  All other operations act on the rest of the database in whatever way `ProposalRules` says.

* `ProposalState` — the proposals, the rest of the database, and `_applied_ops`.
* `applyOperation`, `pushProposal` — the evaluators and the recursion between the two.
* `applyTransaction`, `clearExpiredProposal`, `Step`, `Run` — what a chain does with proposals.
-/

set_option autoImplicit false

namespace Graphene

open Throwing

/-- Where an entry of `_applied_ops` comes from; the source does not keep this. -/
inductive Origin (K O : Type) where
  /-- An operation of a transaction. -/
  | transaction
  /-- An operation of a proposal, as the proposal was when it was executed, and the
  `committee_proposal_review_period` there was when it was created. -/
  | proposal (id : ProposalId) (p : ProposalObject K O) (reviewInForce : ℕ)
  /-- A virtual operation, which is not evaluated. -/
  | virtual

/-- An entry of `_applied_ops`. -/
structure AppliedOperation (K O : Type) where
  /-- `op`. -/
  op : Operation K O
  /-- Where it comes from. -/
  origin : Origin K O
  /-- The head block time, for reference. -/
  time : ℕ

/-- The part of the database that the proposal evaluators read and write. -/
structure ProposalDb (K O X : Type) where
  /-- `head_block_time()`. -/
  headBlockTime : ℕ
  /-- `maximum_proposal_lifetime` of the chain parameters. -/
  maximumProposalLifetime : ℕ
  /-- `committee_proposal_review_period` of the chain parameters. -/
  committeeProposalReviewPeriod : ℕ
  /-- The next id of the proposal index. -/
  nextId : ProposalId
  /-- The proposal index. -/
  proposals : ProposalId → Option (ProposalObject K O)
  /-- `committee_proposal_review_period` when a proposal was created; the source does not keep
  this. -/
  reviewInForce : ProposalId → ℕ
  /-- Everything else. -/
  rest : X

/-- The state that operations are applied to. -/
structure ProposalState (K O X : Type) where
  /-- The database. -/
  db : ProposalDb K O X
  /-- `_applied_ops`. -/
  appliedOps : List (AppliedOperation K O)

/-- What the rest of the chain does with operations and fees. -/
structure ProposalRules (K O X : Type) where
  /-- What an operation requires. -/
  requiredOther : O → RequiredAuthorities K
  /-- `validate` of an operation. -/
  validateOther : O → Bool
  /-- Whether `initialize_evaluators` has registered an evaluator for the operation. -/
  hasEvaluator : O → Bool
  /-- The evaluator of an operation, at a head block time: the changes it makes and the virtual
  operations it pushes, or an exception. -/
  evaluateOther : ℕ → O → X → Option (X × List O)
  /-- `prepare_fee` and the check of the fee schedule, for a proposal operation. -/
  prepareFee : Operation K O → X → Bool
  /-- `convert_fee` and `pay_fee`. -/
  payFee : Operation K O → X → X
  /-- The fee is taken from the balance of the payer. -/
  takeFee : Operation K O → X → Option X
  /-- `get_active`, `get_owner` and `max_authority_depth`. -/
  accounts : X → Accounts K

/-- What stops an evaluation. -/
inductive Failure where
  /-- An `fc::exception`. -/
  | exception
  /-- `assert( "No registered evaluator for this operation" && false )`. -/
  | noEvaluator
  /-- A reference to a proposal is used after the proposal has been removed. -/
  | dangling
  /-- Executions of proposals are nested deeper than is followed here. -/
  | tooDeep
deriving DecidableEq

/-- A piece of an evaluation. -/
abbrev Exec (K O X : Type) := EStateM Failure (ProposalState K O X)

/-! ## Validation -/

/-- `proposal_update_operation::validate`. -/
def ProposalUpdate.validate {K : Type} [DecidableEq K] (o : ProposalUpdate K) : Bool :=
  o.fee ≥ 0 &&
  !(o.activeApprovalsToAdd = ∅ ∧ o.activeApprovalsToRemove = ∅ ∧ o.ownerApprovalsToAdd = ∅ ∧
    o.ownerApprovalsToRemove = ∅ ∧ o.keyApprovalsToAdd = ∅ ∧ o.keyApprovalsToRemove = ∅) &&
  Disjoint o.activeApprovalsToAdd o.activeApprovalsToRemove &&
  Disjoint o.ownerApprovalsToAdd o.ownerApprovalsToRemove &&
  Disjoint o.keyApprovalsToAdd o.keyApprovalsToRemove

mutual

/-- `operation_validate`. -/
def Operation.validate {K O : Type} [DecidableEq K] (validateOther : O → Bool) :
    Operation K O → Bool
  | .proposalCreate _ _ _ _ proposedOps =>
    !proposedOps.isEmpty && Operation.validateAll validateOther proposedOps
  | .proposalUpdate o => o.validate
  | .proposalDelete o => o.fee ≥ 0
  | .other o => validateOther o

/-- `operation_validate` for each of the operations. -/
def Operation.validateAll {K O : Type} [DecidableEq K] (validateOther : O → Bool) :
    List (Operation K O) → Bool
  | [] => true
  | op :: ops => Operation.validate validateOther op && Operation.validateAll validateOther ops

end

/-! ## Changes of the database -/

variable {K O X : Type}

namespace ProposalDb

variable (db : ProposalDb K O X)

/-- A new object in the proposal index. -/
def create (p : ProposalObject K O) : ProposalDb K O X :=
  { db with
    nextId := db.nextId + 1
    proposals := Function.update db.proposals db.nextId (some p)
    reviewInForce :=
      Function.update db.reviewInForce db.nextId db.committeeProposalReviewPeriod }

/-- The object at `id` becomes `p`, or is removed. -/
def setProposal (id : ProposalId) (p : Option (ProposalObject K O)) : ProposalDb K O X :=
  { db with proposals := Function.update db.proposals id p }

@[simp]
theorem proposals_setProposal (id id' : ProposalId) (p : Option (ProposalObject K O)) :
    (db.setProposal id p).proposals id' = if id' = id then p else db.proposals id' := by
  rw [setProposal]
  exact Function.update_apply _ _ _ _

@[simp]
theorem proposals_create (p : ProposalObject K O) (id : ProposalId) :
    (db.create p).proposals id = if id = db.nextId then some p else db.proposals id := by
  rw [create]
  exact Function.update_apply _ _ _ _

@[simp]
theorem reviewInForce_create (p : ProposalObject K O) (id : ProposalId) :
    (db.create p).reviewInForce id =
      if id = db.nextId then db.committeeProposalReviewPeriod else db.reviewInForce id := by
  rw [create]
  exact Function.update_apply _ _ _ _

end ProposalDb

variable [LinearOrder K]

/-! ## The evaluators -/

/-- `proposal_create_evaluator::do_evaluate`. -/
def ProposalRules.createEvaluate (R : ProposalRules K O X) (expirationTime : ℕ)
    (reviewPeriodSeconds : Option ℕ) (proposedOps : List (Operation K O))
    (db : ProposalDb K O X) : Bool :=
  let required := requiredAuthorities (Operation.required R.requiredOther) proposedOps
  db.headBlockTime < hardfork1Time &&
  expirationTime > db.headBlockTime &&
  expirationTime ≤ db.headBlockTime + db.maximumProposalLifetime &&
  (∀ seconds ∈ reviewPeriodSeconds, seconds < expirationTime - db.headBlockTime) &&
  required.other.isEmpty &&
  (committeeAccount ∈ required.active ∪ required.owner →
    ∃ seconds ∈ reviewPeriodSeconds, seconds ≥ db.committeeProposalReviewPeriod) &&
  !proposedOps.isEmpty && Operation.validateAll R.validateOther proposedOps

/-- The object that `proposal_create_evaluator::do_apply` creates. -/
def ProposalRules.newProposal (R : ProposalRules K O X) (expirationTime : ℕ)
    (reviewPeriodSeconds : Option ℕ) (proposedOps : List (Operation K O)) : ProposalObject K O :=
  let required := requiredAuthorities (Operation.required R.requiredOther) proposedOps
  { expirationTime
    reviewPeriodTime := reviewPeriodSeconds.map (expirationTime - ·)
    operations := proposedOps
    requiredActiveApprovals := required.active \ required.owner
    availableActiveApprovals := ∅
    requiredOwnerApprovals := required.owner
    availableOwnerApprovals := ∅
    availableKeyApprovals := ∅ }

/-- A change of the database. -/
def modifyDb (f : ProposalDb K O X → ProposalDb K O X) : Exec K O X Unit :=
  modify fun s ↦ { s with db := f s.db }

/-- `push_applied_operation`. -/
def pushApplied (op : Operation K O) (origin : Origin K O) : Exec K O X Unit :=
  modify fun s ↦ { s with appliedOps := s.appliedOps ++ [⟨op, origin, s.db.headBlockTime⟩] }

/-- `remove`, for a reference to a proposal. -/
def removeProposal (id : ProposalId) : Exec K O X Unit := do
  let s ← get
  if (s.db.proposals id).isNone then throw .dangling
  modifyDb (·.setProposal id none)

/-- `start_evaluate`, around the `do_evaluate` and `do_apply` of a proposal evaluator. -/
def ProposalRules.startEvaluate (R : ProposalRules K O X) (op : Operation K O)
    (doEvaluate : ProposalDb K O X → Bool) (doApply : Exec K O X Unit) : Exec K O X Unit := do
  let s ← get
  if !(R.prepareFee op s.db.rest && doEvaluate s.db) then throw .exception
  modifyDb fun db ↦ { db with rest := R.payFee op db.rest }
  doApply
  let s ← get
  match R.takeFee op s.db.rest with
  | none => throw .exception
  | some rest => modifyDb fun db ↦ { db with rest }

/-- `proposal_create_evaluator::do_apply`. -/
def ProposalRules.createApply (R : ProposalRules K O X) (expirationTime : ℕ)
    (reviewPeriodSeconds : Option ℕ) (proposedOps : List (Operation K O)) : Exec K O X Unit :=
  modifyDb (·.create (R.newProposal expirationTime reviewPeriodSeconds proposedOps))

/-- `proposal_update_evaluator::do_apply`.  `push` is `push_proposal`, and an exception from it is
logged and dropped. -/
def ProposalRules.updateApply (R : ProposalRules K O X) (push : ProposalId → Exec K O X Unit)
    (o : ProposalUpdate K) : Exec K O X Unit := do
  modifyDb fun db ↦ db.setProposal o.proposal ((db.proposals o.proposal).map (·.update o))
  let s ← get
  match s.db.proposals o.proposal with
  | none => throw .dangling
  | some p =>
    if p.reviewPeriodTime.isSome then return ()
    if p.isAuthorizedToExecute (R.accounts s.db.rest) R.requiredOther then
      tryCatch (push o.proposal) fun e ↦ if e = .exception then return () else throw e

/-- `proposal_delete_evaluator::do_evaluate`. -/
def ProposalDelete.doEvaluate (o : ProposalDelete) (p : ProposalObject K O)
    (headBlockTime : ℕ) : Bool :=
  headBlockTime < hardfork1Time &&
  o.feePayingAccount ∈
    (if o.usingOwnerAuthority then p.requiredOwnerApprovals else p.requiredActiveApprovals)

/-- `apply_operation`. -/
def ProposalRules.applyOperation (R : ProposalRules K O X) (push : ProposalId → Exec K O X Unit)
    (origin : Origin K O) (op : Operation K O) : Exec K O X Unit :=
  match op with
  | .proposalCreate _ _ expirationTime reviewPeriodSeconds proposedOps => do
    pushApplied op origin
    R.startEvaluate op (R.createEvaluate expirationTime reviewPeriodSeconds proposedOps)
      (R.createApply expirationTime reviewPeriodSeconds proposedOps)
  | .proposalUpdate o => do
    pushApplied op origin
    R.startEvaluate op
      (fun db ↦ ∃ p ∈ db.proposals o.proposal, o.doEvaluate p db.headBlockTime = true)
      (R.updateApply push o)
  | .proposalDelete o => do
    pushApplied op origin
    R.startEvaluate op
      (fun db ↦ ∃ p ∈ db.proposals o.proposal, o.doEvaluate p db.headBlockTime = true)
      (removeProposal o.proposal)
  | .other o => do
    if !R.hasEvaluator o then throw .noEvaluator
    pushApplied op origin
    let s ← get
    match R.evaluateOther s.db.headBlockTime o s.db.rest with
    | none => throw .exception
    | some (rest, virtuals) =>
      modifyDb fun db ↦ { db with rest }
      virtuals.forM fun v ↦ pushApplied (.other v) .virtual

/-- The session of `push_proposal`: what `m` has done is undone if it throws, and `_applied_ops`
gets its old length. -/
def inProposalSession (m : Exec K O X Unit) : Exec K O X Unit := fun s ↦
  match m s with
  | .ok () s' => .ok () s'
  | .error e s' => .error e ⟨s.db, s'.appliedOps.take s.appliedOps.length⟩

/-- `push_proposal`, with `depth` executions nested in one another at most. -/
def ProposalRules.pushProposal (R : ProposalRules K O X) : ℕ → ProposalId → Exec K O X Unit
  | 0, _ => throw .tooDeep
  | depth + 1, id => do
    let s ← get
    match s.db.proposals id with
    | none => throw .dangling
    | some p => inProposalSession do
      p.operations.forM
        (R.applyOperation (R.pushProposal depth) (.proposal id p (s.db.reviewInForce id)))
      removeProposal id

/-! ## Runs -/

/-- A transaction, with the keys that have signed it. -/
structure ProposalTx (K O : Type) where
  /-- `operations`. -/
  operations : List (Operation K O)
  /-- `get_signature_keys`. -/
  keys : Finset K

/-- `verify_authority` accepts the transaction. -/
def ProposalRules.Authorized (R : ProposalRules K O X) (tx : ProposalTx K O) (rest : X) : Prop :=
  (verifyAuthority (R.accounts rest)
    (requiredAuthorities (Operation.required R.requiredOther) tx.operations) false
    ⟨tx.keys, ∅, ∅⟩).1 = none

instance (R : ProposalRules K O X) (tx : ProposalTx K O) (rest : X) :
    Decidable (R.Authorized tx rest) :=
  inferInstanceAs (Decidable (_ = none))

/-- `_apply_transaction`, as far as it concerns operations and authorities. -/
def ProposalRules.applyTransaction (R : ProposalRules K O X) (depth : ℕ) (tx : ProposalTx K O) :
    Exec K O X Unit := do
  let s ← get
  if !(!tx.operations.isEmpty && Operation.validateAll R.validateOther tx.operations) then
    throw .exception
  if !decide (R.Authorized tx s.db.rest) then throw .exception
  tx.operations.forM (R.applyOperation (R.pushProposal depth) .transaction)

/-- What `clear_expired_proposals` does with a proposal that has expired. -/
def ProposalRules.clearExpiredProposal (R : ProposalRules K O X) (depth : ℕ) (id : ProposalId) :
    Exec K O X Unit := do
  let s ← get
  match s.db.proposals id with
  | none => throw .dangling
  | some p =>
    if p.isAuthorizedToExecute (R.accounts s.db.rest) R.requiredOther then
      tryCatch (R.pushProposal depth id) fun e ↦
        if e = .exception then removeProposal id else throw e
    else removeProposal id

/-- A step of a chain: a transaction for which `Allowed` holds is applied, a block has passed, or
a proposal that has expired is cleared, the one that expires first. -/
inductive ProposalRules.Step (R : ProposalRules K O X) (depth : ℕ)
    (Allowed : ProposalState K O X → ProposalTx K O → Prop) :
    ProposalState K O X → ProposalState K O X → Prop where
  /-- A transaction is applied. -/
  | transaction {s s' : ProposalState K O X} (tx : ProposalTx K O) (hallowed : Allowed s tx)
    (h : R.applyTransaction depth tx s = .ok () s') : Step R depth Allowed s s'
  /-- The head block time of the next block.  `_applied_ops` is cleared; the chain parameters and
  the rest of the database may change. -/
  | block {s : ProposalState K O X} (time lifetime reviewPeriod : ℕ) (rest : X)
    (htime : s.db.headBlockTime ≤ time) :
    Step R depth Allowed s
      ⟨{ s.db with
          headBlockTime := time
          maximumProposalLifetime := lifetime
          committeeProposalReviewPeriod := reviewPeriod
          rest }, []⟩
  /-- A proposal that has expired is cleared. -/
  | expire {s s' : ProposalState K O X} {id : ProposalId} {p : ProposalObject K O}
    (hp : s.db.proposals id = some p) (hexpired : p.expirationTime ≤ s.db.headBlockTime)
    (hfirst : ∀ id' p', s.db.proposals id' = some p' → p.expirationTime ≤ p'.expirationTime)
    (h : R.clearExpiredProposal depth id s = .ok () s') : Step R depth Allowed s s'

/-- Any number of steps. -/
def ProposalRules.Run (R : ProposalRules K O X) (depth : ℕ)
    (Allowed : ProposalState K O X → ProposalTx K O → Prop) :
    ProposalState K O X → ProposalState K O X → Prop :=
  Relation.ReflTransGen (R.Step depth Allowed)

/-- A state there are no proposals in yet. -/
def ProposalState.Genesis (s : ProposalState K O X) : Prop :=
  (∀ id, s.db.proposals id = none) ∧ s.appliedOps = []

/-! ## A chain to try things on -/

/-- A chain on which the key of an account is its id, and other operations only require what they
say. -/
def toyRules : ProposalRules ℕ (RequiredAuthorities ℕ) Unit where
  requiredOther := id
  validateOther _ := true
  hasEvaluator _ := true
  evaluateOther _ _ _ := some ((), [])
  prepareFee _ _ := true
  payFee _ := id
  takeFee _ := some
  accounts _ := .ofDatabase
    (fun a ↦ ⟨1, [], [(a, 1)], [], List.nodup_nil, List.nodup_singleton a, nodup_noAddresses⟩)
    (fun a ↦ ⟨1, [], [(a, 1)], [], List.nodup_nil, List.nodup_singleton a, nodup_noAddresses⟩) 2

/-- The state that chain starts in. -/
def toyGenesis : ProposalState ℕ (RequiredAuthorities ℕ) Unit :=
  ⟨⟨0, 1000, 10, 0, fun _ ↦ none, fun _ ↦ 0, ()⟩, []⟩

theorem toyGenesis_genesis : toyGenesis.Genesis := ⟨fun _ ↦ rfl, rfl⟩

/-- Account 9 proposes something that requires account 5, with a review period from 80 to 100. -/
def toyCreate : ProposalTx ℕ (RequiredAuthorities ℕ) :=
  ⟨[.proposalCreate 9 0 100 (some 20) [.other ⟨{5}, ∅, []⟩]], {9}⟩

/-- The state when the proposal is there and it is 90. -/
def toyReviewed : ProposalState ℕ (RequiredAuthorities ℕ) Unit :=
  ⟨{ (exit (toyRules.applyTransaction 1 toyCreate toyGenesis)).db with
      headBlockTime := 90
      maximumProposalLifetime := 1000
      committeeProposalReviewPeriod := 10
      rest := () }, []⟩

theorem toy_run_reviewed {Allowed : ProposalState ℕ (RequiredAuthorities ℕ) Unit →
      ProposalTx ℕ (RequiredAuthorities ℕ) → Prop} (h : Allowed toyGenesis toyCreate) :
    toyRules.Run 1 Allowed toyGenesis toyReviewed := by
  have hcreate : returned (toyRules.applyTransaction 1 toyCreate toyGenesis) = true := by
    decide +kernel
  have htime : (exit (toyRules.applyTransaction 1 toyCreate toyGenesis)).db.headBlockTime ≤ 90 := by
    decide +kernel
  exact .tail (.tail .refl (.transaction toyCreate h (eq_ok_of_returned hcreate)))
    (.block 90 1000 10 () htime)

end Graphene
