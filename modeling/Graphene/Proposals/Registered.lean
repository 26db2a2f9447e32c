import Graphene.Proposals.Invariants

/-!
# Operations and their evaluators

Three tables of the source have to agree: the union of operation types, the evaluators that
`initialize_evaluators` registers, and the `validate` of each operation, which is to rule out the
operations that have no evaluator.  Four types have none.  The `validate` of two of them always
fails; that of `account_transfer` and of `asset_settle_cancel` does not.

* `OperationTag`, `operationEvaluators` — the union and the evaluators.
* `Operation.All` — what holds of an operation and of all that is nested in it.
* `validated_meets_evaluator` — the main result, for transactions without the two operations.
* `transfer_without_evaluator` — a transaction and a proposal that have them.
-/

set_option autoImplicit false

namespace Graphene

open Throwing

/-! ## The union of operations -/

/-- The types of `operation`, in order. -/
inductive OperationTag where
  | transfer | limitOrderCreate | limitOrderCancel | callOrderUpdate
  | fillOrder  -- virtual
  | accountCreate | accountUpdate | accountWhitelist | accountUpgrade | accountTransfer
  | assetCreate | assetUpdate | assetUpdateBitasset | assetUpdateFeedProducers | assetIssue
  | assetReserve | assetFundFeePool | assetSettle | assetGlobalSettle | assetPublishFeed
  | witnessCreate | witnessUpdate
  | proposalCreate | proposalUpdate | proposalDelete
  | withdrawPermissionCreate | withdrawPermissionUpdate | withdrawPermissionClaim
  | withdrawPermissionDelete
  | committeeMemberCreate | committeeMemberUpdate | committeeMemberUpdateGlobalParameters
  | vestingBalanceCreate | vestingBalanceWithdraw
  | custom | assert | balanceClaim | overrideTransfer
  | transferToBlind | blindTransfer | transferFromBlind
  | assetSettleCancel  -- virtual
  | assetClaimFees
  | fbaDistribute  -- virtual
  | accountBalanceMigrate
deriving DecidableEq, Repr

/-- `which`. -/
def OperationTag.which (tag : OperationTag) : ℕ := tag.ctorIdx

/-- The operation types that `initialize_evaluators` registers an evaluator for, in its order. -/
def registeredEvaluators : List OperationTag :=
  [.accountCreate, .accountUpdate, .accountUpgrade, .accountWhitelist, .committeeMemberCreate,
    .committeeMemberUpdate, .committeeMemberUpdateGlobalParameters, .custom, .assetCreate,
    .assetIssue, .assetReserve, .assetUpdate, .assetUpdateBitasset, .assetUpdateFeedProducers,
    .assetSettle, .assetGlobalSettle, .assert, .limitOrderCreate, .limitOrderCancel,
    .callOrderUpdate, .transfer, .overrideTransfer, .assetFundFeePool, .assetPublishFeed,
    .proposalCreate, .proposalUpdate, .proposalDelete, .vestingBalanceCreate,
    .vestingBalanceWithdraw, .witnessCreate, .witnessUpdate, .withdrawPermissionCreate,
    .withdrawPermissionClaim, .withdrawPermissionUpdate, .withdrawPermissionDelete,
    .balanceClaim, .transferToBlind, .transferFromBlind, .blindTransfer, .assetClaimFees,
    .accountBalanceMigrate]

/-- `_operation_evaluators`, as `initialize_evaluators` leaves it: where there is an evaluator. -/
def operationEvaluators : Array Bool :=
  registeredEvaluators.foldl (fun evaluators tag ↦ evaluators.setIfInBounds tag.which true)
    (Array.replicate 255 false)

/-- `apply_operation` finds an evaluator. -/
@[irreducible]
def OperationTag.hasEvaluator (tag : OperationTag) : Bool :=
  operationEvaluators.getD tag.which false

theorem OperationTag.which_injective {tag tag' : OperationTag} (h : tag.which = tag'.which) :
    tag = tag' := by
  rw [which, which] at h
  rw [← OperationTag.ofNat_ctorIdx tag, ← OperationTag.ofNat_ctorIdx tag', h]

/-- Every registration adds one evaluator. -/
theorem getD_foldl_register {tags : List OperationTag} {evaluators : Array Bool}
    {tag : OperationTag} (hlt : tag.which < evaluators.size) :
    (tags.foldl (fun evaluators tag ↦ evaluators.setIfInBounds tag.which true) evaluators).getD
      tag.which false = true ↔ tag ∈ tags ∨ evaluators.getD tag.which false = true := by
  induction tags generalizing evaluators with
  | nil => simp
  | cons registered tags ih =>
    rw [List.foldl_cons, ih (by simp [hlt])]
    by_cases heq : tag = registered
    · subst heq
      simp [hlt]
    · have hne : registered.which ≠ tag.which := fun h ↦ heq (OperationTag.which_injective h).symm
      simp [heq, hne, hlt]

theorem hasEvaluator_iff_mem (tag : OperationTag) :
    tag.hasEvaluator = true ↔ tag ∈ registeredEvaluators := by
  have hlt : tag.which < 255 := by
    cases tag <;> decide
  unfold OperationTag.hasEvaluator operationEvaluators
  refine (getD_foldl_register (by simpa using hlt)).trans ?_
  simp [hlt]

/-- The operation types that have no evaluator. -/
theorem hasEvaluator_iff (tag : OperationTag) :
    tag.hasEvaluator = true ↔ tag ≠ .fillOrder ∧ tag ≠ .accountTransfer ∧
      tag ≠ .assetSettleCancel ∧ tag ≠ .fbaDistribute := by
  rw [hasEvaluator_iff_mem]
  cases tag <;> decide

/-- An operation, other than those of proposals.  The four types without an evaluator are here with
what their functions use of them, all others with a body of their own. -/
inductive OtherOperation (B : Type) where
  /-- `account_transfer_operation`. -/
  | accountTransfer (fee : ℤ) (accountId : AccountId)
  /-- `asset_settle_cancel_operation`. -/
  | assetSettleCancel (account : AccountId) (amount : ℤ)
  /-- `fill_order_operation`. -/
  | fillOrder (accountId : AccountId)
  /-- `fba_distribute_operation`. -/
  | fbaDistribute (accountId : AccountId)
  /-- An operation of any other type. -/
  | regular (tag : OperationTag)
    (htag : tag ∉ [.accountTransfer, .assetSettleCancel, .fillOrder, .fbaDistribute,
      .proposalCreate, .proposalUpdate, .proposalDelete]) (body : B)

variable {K B O X : Type}

/-- The type of an operation. -/
def OtherOperation.tag : OtherOperation B → OperationTag
  | accountTransfer _ _ => .accountTransfer
  | assetSettleCancel _ _ => .assetSettleCancel
  | fillOrder _ => .fillOrder
  | fbaDistribute _ => .fbaDistribute
  | regular tag _ _ => tag

/-- What the operations of the other types do. -/
structure RegularRules (K B X : Type) where
  /-- What an operation requires. -/
  required : OperationTag → B → RequiredAuthorities K
  /-- `validate`. -/
  validate : OperationTag → B → Bool
  /-- The evaluator. -/
  evaluate : ℕ → OperationTag → B → X → Option (X × List (OtherOperation B))
  /-- `prepare_fee`, for a proposal operation. -/
  prepareFee : Operation K (OtherOperation B) → X → Bool
  /-- `pay_fee`, for a proposal operation. -/
  payFee : Operation K (OtherOperation B) → X → X
  /-- The fee is taken from the balance of the payer. -/
  takeFee : Operation K (OtherOperation B) → X → Option X
  /-- `get_active`, `get_owner` and `max_authority_depth`. -/
  accounts : X → Accounts K

namespace OtherOperation

variable (G : RegularRules K B X)

/-- `operation_get_required_authorities`. -/
def required : OtherOperation B → RequiredAuthorities K
  | accountTransfer _ accountId => ⟨{accountId}, ∅, []⟩
  | assetSettleCancel account _ => ⟨{account}, ∅, []⟩
  | fillOrder accountId => ⟨{accountId}, ∅, []⟩
  | fbaDistribute accountId => ⟨{accountId}, ∅, []⟩
  | regular tag _ body => G.required tag body

/-- `operation_validate`. -/
def validate : OtherOperation B → Bool
  | accountTransfer fee _ => fee ≥ 0
  | assetSettleCancel _ amount => amount > 0
  | fillOrder _ => false
  | fbaDistribute _ => false
  | regular tag _ body => G.validate tag body

/-- The evaluator, for an operation that has one. -/
def evaluate (headBlockTime : ℕ) : OtherOperation B → X → Option (X × List (OtherOperation B))
  | regular tag _ body => G.evaluate headBlockTime tag body
  | _ => fun _ ↦ none

end OtherOperation

/-- What all the operations of the union do. -/
def RegularRules.rules (G : RegularRules K B X) : ProposalRules K (OtherOperation B) X where
  requiredOther := OtherOperation.required G
  validateOther := OtherOperation.validate G
  hasEvaluator o := o.tag.hasEvaluator
  evaluateOther := OtherOperation.evaluate G
  prepareFee := G.prepareFee
  payFee := G.payFee
  takeFee := G.takeFee
  accounts := G.accounts

/-- `validate` leaves two operations without an evaluator. -/
theorem OtherOperation.hasEvaluator_of_validate {G : RegularRules K B X} {o : OtherOperation B}
    (hvalid : o.validate G = true) (htransfer : o.tag ≠ .accountTransfer)
    (hcancel : o.tag ≠ .assetSettleCancel) : o.tag.hasEvaluator = true := by
  refine (hasEvaluator_iff _).2 ⟨?_, htransfer, hcancel, ?_⟩
  all_goals
    intro htag
    cases o with
    | accountTransfer | assetSettleCancel => cases htag
    | fillOrder | fbaDistribute => cases hvalid
    | regular tag hregular body =>
      obtain rfl : tag = _ := htag
      simp at hregular

/-! ## Operations within operations -/

mutual

/-- `P` holds of the operation, or, if it creates a proposal, of all operations in it, at any
depth. -/
def Operation.All (P : O → Prop) : Operation K O → Prop
  | .proposalCreate _ _ _ _ proposedOps => Operation.AllOf P proposedOps
  | .proposalUpdate _ => True
  | .proposalDelete _ => True
  | .other o => P o

/-- `P` holds of all operations in the list. -/
def Operation.AllOf (P : O → Prop) : List (Operation K O) → Prop
  | [] => True
  | op :: ops => Operation.All P op ∧ Operation.AllOf P ops

end

theorem Operation.allOf_iff {P : O → Prop} {ops : List (Operation K O)} :
    Operation.AllOf P ops ↔ ∀ op ∈ ops, op.All P := by
  induction ops with
  | nil => simp [Operation.AllOf]
  | cons op ops ih => simp [Operation.AllOf, ih]

section Validate

variable [DecidableEq K] {P Q : O → Prop} {validateOther : O → Bool}

mutual

/-- What has been validated is validated at any depth. -/
theorem Operation.All.of_validate (h : ∀ o, validateOther o = true → P o → Q o) :
    ∀ op : Operation K O, op.validate validateOther = true → op.All P → op.All Q
  | .proposalCreate _ _ _ _ proposedOps, hvalid, hP => by
    rw [Operation.validate, Bool.and_eq_true] at hvalid
    rw [Operation.All] at hP ⊢
    exact Operation.AllOf.of_validate h proposedOps hvalid.2 hP
  | .proposalUpdate _, _, _ => by simp [Operation.All]
  | .proposalDelete _, _, _ => by simp [Operation.All]
  | .other o, hvalid, hP => by
    rw [Operation.validate] at hvalid
    rw [Operation.All] at hP ⊢
    exact h o hvalid hP

theorem Operation.AllOf.of_validate (h : ∀ o, validateOther o = true → P o → Q o) :
    ∀ ops : List (Operation K O), Operation.validateAll validateOther ops = true →
      Operation.AllOf P ops → Operation.AllOf Q ops
  | [], _, _ => by simp [Operation.AllOf]
  | op :: ops, hvalid, hP => by
    rw [Operation.validateAll, Bool.and_eq_true] at hvalid
    rw [Operation.AllOf] at hP ⊢
    exact ⟨Operation.All.of_validate h op hvalid.1 hP.1,
      Operation.AllOf.of_validate h ops hvalid.2 hP.2⟩

end

end Validate

/-! ## Proposals whose operations have evaluators -/

section Rules

variable [LinearOrder K] {R : ProposalRules K O X} {s s₀ : ProposalState K O X} {depth : ℕ}
  {origin : Origin K O} {op : Operation K O}

/-- All operations in the proposals have evaluators. -/
def ProposalState.Registered (R : ProposalRules K O X) (s : ProposalState K O X) : Prop :=
  ∀ id p, s.db.proposals id = some p → ∀ op ∈ p.operations, op.All (R.hasEvaluator · = true)

namespace ProposalState.Registered

omit [LinearOrder K] in
theorem frame : Frame (ProposalState.Registered R) where
  rest _ _ h := h
  virtual _ _ h := h
  restore _ _ _ h _ := h

omit [LinearOrder K] in
theorem remove (h : s.Registered R) (id : ProposalId) :
    ProposalState.Registered R { s with db := s.db.setProposal id none } := by
  intro id' p hp
  simp only [ProposalDb.proposals_setProposal] at hp
  split at hp
  · cases hp
  · exact h id' p hp

theorem update (h : s.Registered R) {o : ProposalUpdate K} {p : ProposalObject K O}
    (hp : s.db.proposals o.proposal = some p) :
    ProposalState.Registered R
      { s with db := s.db.setProposal o.proposal (some (p.update o)) } := by
  intro id' p' hp'
  simp only [ProposalDb.proposals_setProposal] at hp'
  split at hp'
  · cases hp'
    show ∀ op ∈ p.operations, op.All (R.hasEvaluator · = true)
    exact h o.proposal p hp
  · exact h id' p' hp'

theorem create (h : s.Registered R) {expirationTime : ℕ} {reviewPeriodSeconds : Option ℕ}
    {proposedOps : List (Operation K O)}
    (hops : ∀ op ∈ proposedOps, op.All (R.hasEvaluator · = true)) :
    ProposalState.Registered R
      { s with db :=
          s.db.create (R.newProposal expirationTime reviewPeriodSeconds proposedOps) } := by
  intro id p hp
  simp only [ProposalDb.proposals_create] at hp
  split at hp
  · cases hp
    exact hops
  · exact h id p hp

/-- An operation that has an evaluator keeps the invariant, if what it executes does. -/
theorem keptBy {push : ProposalId → Exec K O X Unit}
    (hpush : ∀ (s : ProposalState K O X) id p, s.Registered R → s.db.proposals id = some p →
      Safe (· = .noEvaluator) (ProposalState.Registered R) (push id s))
    (hop : op.All (R.hasEvaluator · = true)) :
    KeptBy R (· = .noEvaluator) (ProposalState.Registered R) push op := by
  cases op with
  | proposalCreate feePayer fee expirationTime reviewPeriodSeconds proposedOps =>
    rw [Operation.All, Operation.allOf_iff] at hop
    exact fun s hs _ ↦ hs.create hop
  | proposalUpdate o =>
    exact ⟨fun s p hs hp _ ↦ hs.update hp, fun s p hs hp _ ↦ hpush s o.proposal p hs hp⟩
  | proposalDelete o => exact fun s p hs _ _ ↦ hs.remove o.proposal
  | other o =>
    rw [Operation.All] at hop
    exact fun _ ↦ hop

/-- No execution of a proposal looks for an evaluator in vain, however deep. -/
theorem pushProposal_safe (depth : ℕ) (h : s.Registered R) {id : ProposalId}
    {p : ProposalObject K O}
    (hp : s.db.proposals id = some p) :
    Safe (· = .noEvaluator) (ProposalState.Registered R) (R.pushProposal depth id s) := by
  induction depth generalizing s id p with
  | zero =>
    rw [ProposalRules.pushProposal]
    exact .error (by decide) h
  | succ depth ih =>
    refine Graphene.pushProposal_safe frame (by decide) (by decide) h hp (fun op hop ↦ ⟨?_, ?_⟩)
      fun s' p' hs' _ ↦ hs'.remove id
    · exact keptBy (fun s' id' p' hs' hp' ↦ ih hs' hp') (h id p hp op hop)
    · exact fun s' hs' ↦ hs'

theorem applyTransaction_safe (depth : ℕ) (h : s.Registered R) {tx : ProposalTx K O}
    (htx : Operation.validateAll R.validateOther tx.operations = true →
      ∀ op ∈ tx.operations, op.All (R.hasEvaluator · = true)) :
    Safe (· = .noEvaluator) (ProposalState.Registered R) (R.applyTransaction depth tx s) := by
  refine Graphene.applyTransaction_safe frame (by decide) h fun hvalid _ op hop ↦ ⟨?_, ?_⟩
  · exact keptBy (fun s' id' p' hs' hp' ↦ hs'.pushProposal_safe depth hp') (htx hvalid op hop)
  · exact fun s' hs' ↦ hs'

theorem clearExpiredProposal_safe (depth : ℕ) (h : s.Registered R) {id : ProposalId}
    {p : ProposalObject K O} (hp : s.db.proposals id = some p) :
    Safe (· = .noEvaluator) (ProposalState.Registered R) (R.clearExpiredProposal depth id s) :=
  Graphene.clearExpiredProposal_safe (by decide) h hp (h.pushProposal_safe depth hp)
    fun _ _ hs' _ ↦ hs'.remove id

variable {Allowed : ProposalState K O X → ProposalTx K O → Prop}

theorem step (hAllowed : ∀ s tx, Allowed s tx →
      Operation.validateAll R.validateOther tx.operations = true →
      ∀ op ∈ tx.operations, op.All (R.hasEvaluator · = true))
    (h : s₀.Registered R) (hstep : R.Step depth Allowed s₀ s) : s.Registered R := by
  cases hstep with
  | transaction tx hallowed happly =>
    have hsafe := h.applyTransaction_safe depth (hAllowed s₀ tx hallowed)
    rw [happly] at hsafe
    exact hsafe.1
  | block time lifetime reviewPeriod rest htime => exact h
  | expire hp hexpired hfirst hclear =>
    have hsafe := h.clearExpiredProposal_safe depth hp
    rw [hclear] at hsafe
    exact hsafe.1

theorem run (hAllowed : ∀ s tx, Allowed s tx →
      Operation.validateAll R.validateOther tx.operations = true →
      ∀ op ∈ tx.operations, op.All (R.hasEvaluator · = true))
    (h : s₀.Registered R) (hrun : R.Run depth Allowed s₀ s) : s.Registered R := by
  induction hrun with
  | refl => exact h
  | tail _ hstep ih => exact ih.step hAllowed hstep

end ProposalState.Registered

end Rules

/-! ## Transactions without the two operations -/

section Union

variable [LinearOrder K] {G : RegularRules K B X} {s s₀ : ProposalState K (OtherOperation B) X}
  {depth : ℕ}

/-- The transaction has no `account_transfer` and no `asset_settle_cancel` in it, at any depth. -/
def ProposalTx.Supported (tx : ProposalTx K (OtherOperation B)) : Prop :=
  Operation.AllOf (fun o ↦ o.tag ≠ .accountTransfer ∧ o.tag ≠ .assetSettleCancel) tx.operations

theorem ProposalTx.Supported.registered {tx : ProposalTx K (OtherOperation B)}
    (h : tx.Supported) (hvalid : Operation.validateAll G.rules.validateOther tx.operations = true) :
    ∀ op ∈ tx.operations, op.All (G.rules.hasEvaluator · = true) := by
  refine Operation.allOf_iff.1 (Operation.AllOf.of_validate ?_ _ hvalid h)
  rintro o ho ⟨htransfer, hcancel⟩
  have hvalidate : o.validate G = true := ho
  show o.tag.hasEvaluator = true
  exact OtherOperation.hasEvaluator_of_validate hvalidate htransfer hcancel

/-- **Every validated transaction meets a registered evaluator**, in every run whose transactions
have no `account_transfer` and no `asset_settle_cancel` in them: neither such a transaction nor the
execution of a proposal looks up an operation that has no evaluator. -/
theorem validated_meets_evaluator (h₀ : s₀.Genesis)
    (hrun : G.rules.Run depth (fun _ tx ↦ tx.Supported) s₀ s) :
    (∀ tx : ProposalTx K (OtherOperation B), tx.Supported →
      ∀ s', G.rules.applyTransaction depth tx s ≠ .error .noEvaluator s') ∧
    ∀ id s', s.db.proposals id ≠ none →
      G.rules.clearExpiredProposal depth id s ≠ .error .noEvaluator s' := by
  have hstart : s₀.Registered G.rules := by
    intro id p hp
    rw [h₀.1 id] at hp
    cases hp
  have h : s.Registered G.rules := hstart.run (fun _ _ htx hvalid ↦ htx.registered hvalid) hrun
  constructor
  · intro tx htx s' herror
    have hsafe := h.applyTransaction_safe depth htx.registered
    exact hsafe.2 _ _ herror rfl
  · intro id s' hne herror
    obtain ⟨p, hp⟩ := Option.ne_none_iff_exists'.1 hne
    have hsafe := h.clearExpiredProposal_safe depth hp
    exact hsafe.2 _ _ herror rfl

end Union

/-! ## Transactions that have them -/

/-- A chain on which the key of an account is its id, and the other operations do nothing. -/
def toyRegular : RegularRules ℕ Unit Unit where
  required _ _ := ⟨∅, ∅, []⟩
  validate _ _ := true
  evaluate _ _ _ _ := some ((), [])
  prepareFee _ _ := true
  payFee _ := id
  takeFee _ := some
  accounts := toyRules.accounts

/-- The state that chain starts in. -/
def toyRegularGenesis : ProposalState ℕ (OtherOperation Unit) Unit :=
  ⟨⟨0, 1000, 10, 0, fun _ ↦ none, fun _ ↦ 0, ()⟩, []⟩

/-- Account 9 proposes `ops`. -/
def toyPropose (ops : List (Operation ℕ (OtherOperation Unit))) :
    ProposalTx ℕ (OtherOperation Unit) :=
  ⟨[.proposalCreate 9 0 100 none ops], {9}⟩

/-- Account 9 approves the first proposal. -/
def toyUpdate : ProposalTx ℕ (OtherOperation Unit) := ⟨[.proposalUpdate toySelfUpdate], {9}⟩

/-- An `account_transfer` in a transaction, and an `asset_settle_cancel` in a proposal. -/
theorem transfer_without_evaluator :
    (∃ s', toyRegular.rules.applyTransaction 1 ⟨[.other (.accountTransfer 0 9)], {9}⟩
      toyRegularGenesis = .error .noEvaluator s') ∧
    ∃ s₁, toyRegular.rules.applyTransaction 1 (toyPropose [.other (.assetSettleCancel 9 1)])
        toyRegularGenesis = .ok () s₁ ∧
      ∃ s', toyRegular.rules.applyTransaction 1 toyUpdate s₁ = .error .noEvaluator s' := by
  have hdirect : failed (toyRegular.rules.applyTransaction 1
      ⟨[.other (.accountTransfer 0 9)], {9}⟩ toyRegularGenesis) = some .noEvaluator := by
    decide +kernel
  have hpropose : returned (toyRegular.rules.applyTransaction 1
      (toyPropose [.other (.assetSettleCancel 9 1)]) toyRegularGenesis) = true := by
    decide +kernel
  have hexecute : failed (toyRegular.rules.applyTransaction 1 toyUpdate
      (exit (toyRegular.rules.applyTransaction 1 (toyPropose [.other (.assetSettleCancel 9 1)])
        toyRegularGenesis))) = some .noEvaluator := by
    decide +kernel
  exact ⟨⟨_, eq_error_of_failed hdirect⟩, _, eq_ok_of_returned hpropose, _,
    eq_error_of_failed hexecute⟩

/-- A proposal of a transfer is executed. -/
theorem toyTransfer_meets_evaluator :
    ∃ s₁, toyRegular.rules.applyTransaction 1
        (toyPropose [.other (.regular .transfer (by decide) ())]) toyRegularGenesis = .ok () s₁ ∧
      ∀ s', toyRegular.rules.applyTransaction 1 toyUpdate s₁ ≠ .error .noEvaluator s' := by
  have hpropose : returned (toyRegular.rules.applyTransaction 1
      (toyPropose [.other (.regular .transfer (by decide) ())]) toyRegularGenesis) = true := by
    decide +kernel
  have hsupported :
      (toyPropose [.other (.regular .transfer (by decide) ())]).Supported := by
    simp [ProposalTx.Supported, toyPropose, Operation.AllOf, Operation.All, OtherOperation.tag]
  have hupdate : toyUpdate.Supported := by
    simp [ProposalTx.Supported, toyUpdate, Operation.AllOf, Operation.All]
  refine ⟨_, eq_ok_of_returned hpropose, ?_⟩
  exact (validated_meets_evaluator ⟨fun _ ↦ rfl, rfl⟩
    (.tail .refl (.transaction _ hsupported (eq_ok_of_returned hpropose)))).1 toyUpdate hupdate

end Graphene
