import Graphene.Proposals.Evaluation

/-!
# Invariants of the proposal evaluators

Whatever a run of transactions is to keep has to be kept by five kinds of change: of the rest of the
database, of `_applied_ops`, and the creation, update and removal of a proposal.  `Frame` and
`KeptBy` say so of an invariant, and `applyOperation_safe` concludes that an operation keeps it.

* `applyOperation_safe`, `pushProposal_safe`, `clearExpiredProposal_safe` — the rules.
* `ProposalState.WellFormed` — what any run keeps: among others, that no proposal contains an
  update of a proposal.
* `recursion_bounded` — executions of proposals are never nested.
-/

set_option autoImplicit false

namespace Graphene

open Throwing

variable {K O X : Type} [LinearOrder K] {R : ProposalRules K O X}
  {I : ProposalState K O X → Prop} {bad : Failure → Prop} {push : ProposalId → Exec K O X Unit}
  {origin : Origin K O} {op : Operation K O} {s : ProposalState K O X}

/-! ## Rules -/

/-- The rest of the database becomes `rest`. -/
def ProposalState.setRest (s : ProposalState K O X) (rest : X) : ProposalState K O X :=
  { s with db := { s.db with rest } }

/-- An entry is added to `_applied_ops`. -/
def ProposalState.applied (s : ProposalState K O X) (op : Operation K O) (origin : Origin K O) :
    ProposalState K O X :=
  { s with appliedOps := s.appliedOps ++ [⟨op, origin, s.db.headBlockTime⟩] }

/-- `I` is kept by changes of the rest of the database, by virtual operations and by the entries
of `_applied_ops` that may be there already. -/
structure Frame (I : ProposalState K O X → Prop) : Prop where
  /-- The rest of the database does not matter. -/
  rest : ∀ s rest, I s → I (s.setRest rest)
  /-- Virtual operations do not matter. -/
  virtual : ∀ s o, I s → I (s.applied (.other o) .virtual)
  /-- Neither does what the session of `push_proposal` takes back. -/
  restore : ∀ s s' n, I s → I s' → I ⟨s.db, s'.appliedOps.take n⟩

/-- What is asked of an operation besides, for `I` to be kept by it. -/
def KeptBy (R : ProposalRules K O X) (bad : Failure → Prop) (I : ProposalState K O X → Prop)
    (push : ProposalId → Exec K O X Unit) : Operation K O → Prop
  | .proposalCreate _ _ expirationTime reviewPeriodSeconds proposedOps =>
    ∀ s, I s → R.createEvaluate expirationTime reviewPeriodSeconds proposedOps s.db = true →
      I { s with db := s.db.create (R.newProposal expirationTime reviewPeriodSeconds proposedOps) }
  | .proposalUpdate o =>
    (∀ s p, I s → s.db.proposals o.proposal = some p → o.doEvaluate p s.db.headBlockTime = true →
      I { s with db := s.db.setProposal o.proposal (some (p.update o)) }) ∧
    ∀ s p, I s → s.db.proposals o.proposal = some p → p.reviewPeriodTime = none →
      Safe bad I (push o.proposal s)
  | .proposalDelete o =>
    ∀ s p, I s → s.db.proposals o.proposal = some p → o.doEvaluate p s.db.headBlockTime = true →
      I { s with db := s.db.setProposal o.proposal none }
  | .other o => bad .noEvaluator → R.hasEvaluator o = true

omit [LinearOrder K] in
theorem removeProposal_of_some {id : ProposalId} {p : ProposalObject K O}
    (hp : s.db.proposals id = some p) :
    removeProposal id s = .ok () { s with db := s.db.setProposal id none } := by
  rw [removeProposal, bind_ok (get_apply s)]
  rw [if_neg (by simp [hp])]
  rfl

omit [LinearOrder K] in
theorem startEvaluate_safe (hI : Frame I) (hexception : ¬ bad .exception) {op : Operation K O}
    {doEvaluate : ProposalDb K O X → Bool} {doApply : Exec K O X Unit} (hs : I s)
    (happly : doEvaluate s.db = true →
      Safe bad I (doApply (s.setRest (R.payFee op s.db.rest)))) :
    Safe bad I (R.startEvaluate op doEvaluate doApply s) := by
  rw [ProposalRules.startEvaluate]
  refine .bind (.ok _ hs) ?_
  rintro _ _ hget -
  cases hget
  dsimp only
  split
  case isTrue => exact .error hexception hs
  case isFalse hpassed =>
    have heval : doEvaluate s.db = true := by
      simp only [Bool.not_eq_true', Bool.not_eq_false, Bool.and_eq_true] at hpassed
      exact hpassed.2
    refine .bind (.ok _ (hI.rest s _ hs)) ?_
    rintro _ _ hmodify -
    cases hmodify
    refine .bind (happly heval) ?_
    rintro _ s₁ - hs₁
    refine .bind (.ok _ hs₁) ?_
    rintro _ _ hget -
    cases hget
    cases R.takeFee op s₁.db.rest with
    | none => exact .error hexception hs₁
    | some rest => exact .ok _ (hI.rest s₁ rest hs₁)

theorem updateApply_safe {o : ProposalUpdate K} (hs : I s)
    (hop : KeptBy R bad I push (.proposalUpdate o))
    (heval : ∃ p ∈ s.db.proposals o.proposal, o.doEvaluate p s.db.headBlockTime = true) :
    Safe bad I (R.updateApply push o s) := by
  obtain ⟨p, hp, hpeval⟩ := heval
  have hs₁ := hop.1 s p hs hp hpeval
  have hp₁ : (s.db.setProposal o.proposal (some (p.update o))).proposals o.proposal =
      some (p.update o) := by
    simp
  have hmodify : modifyDb (fun db ↦ db.setProposal o.proposal
      ((db.proposals o.proposal).map (·.update o))) s =
        .ok () { s with db := s.db.setProposal o.proposal (some (p.update o)) } := by
    show EStateM.Result.ok () (ProposalState.mk (s.db.setProposal o.proposal
      ((s.db.proposals o.proposal).map (·.update o))) s.appliedOps) = _
    rw [Option.mem_def.1 hp, Option.map_some]
  rw [ProposalRules.updateApply, bind_ok hmodify]
  refine .bind (.ok _ hs₁) ?_
  rintro _ _ hget -
  cases hget
  dsimp only
  rw [hp₁]
  dsimp only
  split
  case isTrue => exact .ok _ hs₁
  case isFalse hreview =>
    split
    case isFalse => exact .ok _ hs₁
    case isTrue =>
      have hpush := hop.2 _ _ hs₁ hp₁ (Option.not_isSome_iff_eq_none.1 hreview)
      refine .tryCatch hpush ?_
      intro e s₂ hfailed hs₂
      split
      · exact .ok _ hs₂
      · exact .error (hpush.2 e s₂ hfailed) hs₂

/-- **What an operation keeps.** -/
theorem applyOperation_safe (hI : Frame I) (hexception : ¬ bad .exception)
    (hop : KeptBy R bad I push op) (hs : I s) (happlied : ∀ s, I s → I (s.applied op origin)) :
    Safe bad I (R.applyOperation push origin op s) := by
  cases op with
  | proposalCreate feePayer fee expirationTime reviewPeriodSeconds proposedOps =>
    rw [ProposalRules.applyOperation]
    refine .bind (.ok _ (happlied s hs)) ?_
    rintro _ s₁ hpush hs₁
    refine startEvaluate_safe hI hexception hs₁ fun heval ↦ .ok _ ?_
    exact hop _ (hI.rest s₁ _ hs₁) heval
  | proposalUpdate o =>
    rw [ProposalRules.applyOperation]
    refine .bind (.ok _ (happlied s hs)) ?_
    rintro _ s₁ hpush hs₁
    exact startEvaluate_safe hI hexception hs₁ fun heval ↦
      updateApply_safe (hI.rest s₁ _ hs₁) hop (of_decide_eq_true heval)
  | proposalDelete o =>
    rw [ProposalRules.applyOperation]
    refine .bind (.ok _ (happlied s hs)) ?_
    rintro _ s₁ hpush hs₁
    refine startEvaluate_safe hI hexception hs₁ fun heval ↦ ?_
    obtain ⟨p, hp, hpeval⟩ := of_decide_eq_true heval
    have hs₂ := hI.rest s₁ (R.payFee (.proposalDelete o) s₁.db.rest) hs₁
    have hp₂ : (s₁.setRest (R.payFee (.proposalDelete o) s₁.db.rest)).db.proposals o.proposal =
        some p := hp
    exact (congrArg (Safe bad I) (removeProposal_of_some hp₂)).mpr
      (.ok _ (hop _ p hs₂ hp₂ hpeval))
  | other o =>
    rw [ProposalRules.applyOperation]
    dsimp only
    split
    case isTrue hnone => exact .error (fun hbad ↦ by simp [hop hbad] at hnone) hs
    case isFalse =>
      refine .bind (.ok _ (happlied s hs)) ?_
      rintro _ s₁ hpush hs₁
      refine .bind (.ok _ hs₁) ?_
      rintro _ _ hget -
      cases hget
      cases R.evaluateOther s₁.db.headBlockTime o s₁.db.rest with
      | none => exact .error hexception hs₁
      | some result =>
        refine .bind (.ok _ (hI.rest s₁ result.1 hs₁)) ?_
        rintro _ s₂ - hs₂
        exact .forM (fun v _ s hs ↦ .ok _ (hI.virtual s v hs)) hs₂

omit [LinearOrder K] in
theorem inProposalSession_safe (hI : Frame I) {m : Exec K O X Unit} (hs : I s)
    (hm : Safe bad I (m s)) : Safe bad I (inProposalSession m s) := by
  rw [inProposalSession]
  rcases h : m s with ⟨⟨⟩, s'⟩ | ⟨e, s'⟩ <;> rw [h] at hm
  · exact .ok _ hm.1
  · exact .error (hm.2 e s' rfl) (hI.restore s s' _ hs hm.1)

omit [LinearOrder K] in
theorem removeProposal_safe (hdangling : ¬ bad .dangling) {id : ProposalId} (hs : I s)
    (hremove : ∀ p, s.db.proposals id = some p →
      I { s with db := s.db.setProposal id none }) : Safe bad I (removeProposal id s) := by
  cases hp : s.db.proposals id with
  | none =>
    rw [removeProposal, bind_ok (get_apply s), if_pos (by simp [hp])]
    exact .error hdangling hs
  | some p =>
    rw [removeProposal_of_some hp]
    exact .ok _ (hremove p hp)

/-- **What `push_proposal` keeps**, unless the proposal is removed by its own operations. -/
theorem pushProposal_safe (hI : Frame I) (hexception : ¬ bad .exception)
    (hdangling : ¬ bad .dangling) {depth : ℕ} {id : ProposalId} {p : ProposalObject K O} (hs : I s)
    (hp : s.db.proposals id = some p)
    (hops : ∀ op ∈ p.operations, KeptBy R bad I (R.pushProposal depth) op ∧
      ∀ s', I s' → I (s'.applied op (.proposal id p (s.db.reviewInForce id))))
    (hremove : ∀ s' p', I s' → s'.db.proposals id = some p' →
      I { s' with db := s'.db.setProposal id none }) :
    Safe bad I (R.pushProposal (depth + 1) id s) := by
  rw [ProposalRules.pushProposal]
  refine .bind (.ok _ hs) ?_
  rintro _ _ hget -
  cases hget
  rw [hp]
  refine inProposalSession_safe hI hs (.bind (.forM (fun op hop s' hs' ↦ ?_) hs) ?_)
  · exact applyOperation_safe hI hexception (hops op hop).1 hs' (hops op hop).2
  · rintro _ s' - hs'
    exact removeProposal_safe hdangling hs' fun p' hp' ↦ hremove s' p' hs' hp'

/-- **What `clear_expired_proposals` keeps.** -/
theorem clearExpiredProposal_safe (hdangling : ¬ bad .dangling) {depth : ℕ} {id : ProposalId}
    {p : ProposalObject K O} (hs : I s) (hp : s.db.proposals id = some p)
    (hpush : Safe bad I (R.pushProposal depth id s))
    (hremove : ∀ s' p', I s' → s'.db.proposals id = some p' →
      I { s' with db := s'.db.setProposal id none }) :
    Safe bad I (R.clearExpiredProposal depth id s) := by
  rw [ProposalRules.clearExpiredProposal]
  refine .bind (.ok _ hs) ?_
  rintro _ _ hget -
  cases hget
  rw [hp]
  dsimp only
  split
  case isFalse => exact removeProposal_safe hdangling hs fun p' hp' ↦ hremove s p' hs hp'
  case isTrue =>
    refine .tryCatch hpush ?_
    intro e s' hfailed hs'
    split
    · exact removeProposal_safe hdangling hs' fun p' hp' ↦ hremove s' p' hs' hp'
    · exact .error (hpush.2 e s' hfailed) hs'

/-- **What a transaction keeps.** -/
theorem applyTransaction_safe (hI : Frame I) (hexception : ¬ bad .exception) {depth : ℕ}
    {tx : ProposalTx K O} (hs : I s)
    (hops : Operation.validateAll R.validateOther tx.operations = true → R.Authorized tx s.db.rest →
      ∀ op ∈ tx.operations, KeptBy R bad I (R.pushProposal depth) op ∧
        ∀ s', I s' → I (s'.applied op .transaction)) :
    Safe bad I (R.applyTransaction depth tx s) := by
  rw [ProposalRules.applyTransaction]
  refine .bind (.ok _ hs) ?_
  rintro _ _ hget -
  cases hget
  dsimp only
  split
  case isTrue => exact .error hexception hs
  case isFalse hvalid =>
    split
    case isTrue => exact .error hexception hs
    case isFalse hauth =>
      have hvalid' : Operation.validateAll R.validateOther tx.operations = true := by
        simp only [Bool.not_eq_true', Bool.not_eq_false, Bool.and_eq_true] at hvalid
        exact hvalid.2
      have hauth' : R.Authorized tx s.db.rest := by simpa using hauth
      refine .forM (fun op hop s' hs' ↦ ?_) hs
      obtain ⟨hkept, happlied⟩ := hops hvalid' hauth' op hop
      exact applyOperation_safe hI hexception hkept hs' happlied

/-! ## What proposals look like -/

omit [LinearOrder K] in
theorem subset_foldl_union {Op : Type} (f : Op → Finset AccountId) (ops : List Op)
    (accounts : Finset AccountId) :
    accounts ⊆ ops.foldl (fun accounts op ↦ accounts ∪ f op) accounts := by
  induction ops generalizing accounts with
  | nil => exact subset_rfl
  | cons op ops ih => exact Finset.subset_union_left.trans (ih _)

theorem mem_foldl_union {Op : Type} {f : Op → Finset AccountId} {ops : List Op} {op : Op}
    (hop : op ∈ ops) {a : AccountId} (ha : a ∈ f op) (accounts : Finset AccountId) :
    a ∈ ops.foldl (fun accounts op ↦ accounts ∪ f op) accounts := by
  induction ops generalizing accounts with
  | nil => cases hop
  | cons x ops ih =>
    rcases List.mem_cons.1 hop with rfl | hop
    · exact subset_foldl_union f ops _ (Finset.mem_union_right _ ha)
    · exact ih hop _

/-- What `proposal_create_evaluator::do_evaluate` has made sure of. -/
theorem createEvaluate_spec {expirationTime : ℕ} {reviewPeriodSeconds : Option ℕ}
    {proposedOps : List (Operation K O)} {db : ProposalDb K O X}
    (h : R.createEvaluate expirationTime reviewPeriodSeconds proposedOps db = true) :
    db.headBlockTime < expirationTime ∧
    (∀ seconds ∈ reviewPeriodSeconds, seconds < expirationTime - db.headBlockTime) ∧
    (∀ op ∈ proposedOps, (op.required R.requiredOther).other = []) ∧
    (∀ op ∈ proposedOps, committeeAccount ∈ (op.required R.requiredOther).active →
      ∃ seconds ∈ reviewPeriodSeconds, db.committeeProposalReviewPeriod ≤ seconds) ∧
    Operation.validateAll R.validateOther proposedOps = true := by
  rw [ProposalRules.createEvaluate] at h
  simp only [Bool.and_eq_true, decide_eq_true_eq] at h
  obtain ⟨⟨⟨⟨⟨⟨⟨-, hexpiration⟩, -⟩, hreview⟩, hother⟩, hcommittee⟩, -⟩, hvalid⟩ := h
  refine ⟨hexpiration, hreview, fun op hop ↦ ?_, fun op hop hmem ↦ hcommittee ?_, hvalid⟩
  · rw [List.isEmpty_iff, requiredAuthorities, List.flatMap_eq_nil_iff] at hother
    exact hother op hop
  · exact Finset.mem_union_left _ (mem_foldl_union hop hmem _)

/-- What holds of the proposals at any time. -/
structure ProposalState.WellFormed (R : ProposalRules K O X) (s : ProposalState K O X) :
    Prop where
  /-- An id is not used before its time. -/
  fresh : ∀ id, s.db.nextId ≤ id → s.db.proposals id = none
  /-- The operations of a proposal require no other authorities, so none is a
  `proposal_update`. -/
  other_eq_nil : ∀ id p, s.db.proposals id = some p →
    ∀ op ∈ p.operations, (op.required R.requiredOther).other = []
  /-- A proposal that requires the committee account has a review period that is long enough. -/
  reviewed : ∀ id p, s.db.proposals id = some p →
    ∀ op ∈ p.operations, committeeAccount ∈ (op.required R.requiredOther).active →
      ∃ t, p.reviewPeriodTime = some t ∧ t + s.db.reviewInForce id ≤ p.expirationTime

namespace ProposalState.WellFormed

theorem frame : Frame (ProposalState.WellFormed R) where
  rest _ _ h := ⟨h.fresh, h.other_eq_nil, h.reviewed⟩
  virtual _ _ h := ⟨h.fresh, h.other_eq_nil, h.reviewed⟩
  restore _ _ _ h _ := ⟨h.fresh, h.other_eq_nil, h.reviewed⟩

theorem remove (h : s.WellFormed R) (id : ProposalId) :
    ProposalState.WellFormed R { s with db := s.db.setProposal id none } := by
  have hsome : ∀ id' p, (s.db.setProposal id none).proposals id' = some p →
      s.db.proposals id' = some p := by
    intro id' p hp
    rw [ProposalDb.proposals_setProposal] at hp
    split at hp
    · cases hp
    · exact hp
  refine ⟨fun id' hid' ↦ ?_, fun id' p hp ↦ h.other_eq_nil id' p (hsome id' p hp),
    fun id' p hp ↦ h.reviewed id' p (hsome id' p hp)⟩
  rw [ProposalDb.proposals_setProposal]
  split
  · rfl
  · exact h.fresh id' hid'

theorem update (h : s.WellFormed R) {o : ProposalUpdate K} {p : ProposalObject K O}
    (hp : s.db.proposals o.proposal = some p) :
    ProposalState.WellFormed R
      { s with db := s.db.setProposal o.proposal (some (p.update o)) } := by
  have hsome : ∀ id' p', (s.db.setProposal o.proposal (some (p.update o))).proposals id' = some p' →
      ∃ q, s.db.proposals id' = some q ∧ p'.operations = q.operations ∧
        p'.reviewPeriodTime = q.reviewPeriodTime ∧ p'.expirationTime = q.expirationTime := by
    intro id' p' hp'
    rw [ProposalDb.proposals_setProposal] at hp'
    split at hp'
    case isTrue hid =>
      cases hp'
      exact ⟨p, hid ▸ hp, rfl, rfl, rfl⟩
    case isFalse => exact ⟨p', hp', rfl, rfl, rfl⟩
  refine ⟨fun id' hid' ↦ ?_, fun id' p' hp' ↦ ?_, fun id' p' hp' ↦ ?_⟩
  · rw [ProposalDb.proposals_setProposal, if_neg]
    · exact h.fresh id' hid'
    · rintro rfl
      rw [h.fresh _ hid'] at hp
      cases hp
  · obtain ⟨q, hq, hops, -, -⟩ := hsome id' p' hp'
    exact hops ▸ h.other_eq_nil id' q hq
  · obtain ⟨q, hq, hops, hreview, hexpiration⟩ := hsome id' p' hp'
    exact hops ▸ hreview ▸ hexpiration ▸ h.reviewed id' q hq

theorem create (h : s.WellFormed R) {expirationTime : ℕ}
    {reviewPeriodSeconds : Option ℕ} {proposedOps : List (Operation K O)}
    (heval : R.createEvaluate expirationTime reviewPeriodSeconds proposedOps s.db = true) :
    ProposalState.WellFormed R
      { s with db :=
          s.db.create (R.newProposal expirationTime reviewPeriodSeconds proposedOps) } := by
  obtain ⟨hexpiration, hreview, hother, hcommittee, -⟩ := createEvaluate_spec heval
  refine ⟨fun id hid ↦ ?_, fun id p hp ↦ ?_, fun id p hp ↦ ?_⟩
  · have hlt : s.db.nextId < id := hid
    rw [ProposalDb.proposals_create, if_neg hlt.ne']
    exact h.fresh id hlt.le
  · rw [ProposalDb.proposals_create] at hp
    split at hp
    · cases hp; exact hother
    · exact h.other_eq_nil id p hp
  · rw [ProposalDb.proposals_create] at hp
    rw [ProposalDb.reviewInForce_create]
    split at hp
    case isTrue hid =>
      cases hp
      rintro op hop hmem
      obtain ⟨seconds, hseconds, hle⟩ := hcommittee op hop hmem
      have hlt := hreview seconds hseconds
      refine ⟨expirationTime - seconds, ?_, ?_⟩
      · rw [ProposalRules.newProposal, Option.mem_def.1 hseconds]
        rfl
      · rw [if_pos hid]
        show expirationTime - seconds + s.db.committeeProposalReviewPeriod ≤ expirationTime
        omega
    case isFalse hid =>
      rw [if_neg hid]
      exact h.reviewed id p hp

end ProposalState.WellFormed

/-! ## No execution within an execution -/

section Depth

variable {depth : ℕ} {Allowed : ProposalState K O X → ProposalTx K O → Prop}

/-- The operations of a proposal are not updates, and the others ask for little. -/
theorem keptBy_of_other_eq_nil (hother : (op.required R.requiredOther).other = [])
    (hregistered : ∀ o, op = .other o → bad .noEvaluator → R.hasEvaluator o = true)
    (hcreate : ∀ s expirationTime reviewPeriodSeconds proposedOps, I s →
      R.createEvaluate expirationTime reviewPeriodSeconds proposedOps s.db = true →
      I { s with db :=
        s.db.create (R.newProposal expirationTime reviewPeriodSeconds proposedOps) })
    (hremove : ∀ s id p, I s → s.db.proposals id = some p →
      I { s with db := s.db.setProposal id none }) : KeptBy R bad I push op := by
  cases op with
  | proposalCreate feePayer fee expirationTime reviewPeriodSeconds proposedOps =>
    exact fun s hs heval ↦ hcreate s _ _ _ hs heval
  | proposalUpdate o => cases hother
  | proposalDelete o => exact fun s p hs hp _ ↦ hremove s _ p hs hp
  | other o => exact hregistered o rfl

namespace ProposalState.WellFormed

theorem pushProposal_safe (bad : Failure → Prop) (depth : ℕ) (hexception : ¬ bad .exception)
    (hdangling : ¬ bad .dangling) (hregistered : ¬ bad .noEvaluator) (h : s.WellFormed R)
    {id : ProposalId} {p : ProposalObject K O} (hp : s.db.proposals id = some p) :
    Safe bad (ProposalState.WellFormed R) (R.pushProposal (depth + 1) id s) := by
  refine Graphene.pushProposal_safe frame hexception hdangling h hp (fun op hop ↦ ⟨?_, ?_⟩)
    fun s' p' hs' _ ↦ hs'.remove id
  · exact keptBy_of_other_eq_nil (h.other_eq_nil id p hp op hop)
      (fun o _ hbad ↦ absurd hbad hregistered)
      (fun s' _ _ _ hs' heval ↦ hs'.create heval) fun s' id' _ hs' _ ↦ hs'.remove id'
  · exact fun s' hs' ↦ ⟨hs'.fresh, hs'.other_eq_nil, hs'.reviewed⟩

theorem applyTransaction_safe (bad : Failure → Prop) (depth : ℕ) (hexception : ¬ bad .exception)
    (hdangling : ¬ bad .dangling) (hregistered : ¬ bad .noEvaluator) (h : s.WellFormed R)
    (tx : ProposalTx K O) :
    Safe bad (ProposalState.WellFormed R) (R.applyTransaction (depth + 1) tx s) := by
  refine Graphene.applyTransaction_safe frame hexception h fun _ _ op _ ↦ ⟨?_, ?_⟩
  · cases op with
    | proposalCreate feePayer fee expirationTime reviewPeriodSeconds proposedOps =>
      exact fun s' hs' heval ↦ hs'.create heval
    | proposalUpdate o =>
      exact ⟨fun s' p hs' hp _ ↦ hs'.update hp,
        fun s' p hs' hp _ ↦ hs'.pushProposal_safe bad depth hexception hdangling hregistered hp⟩
    | proposalDelete o => exact fun s' p hs' _ _ ↦ hs'.remove o.proposal
    | other o => exact fun hbad ↦ absurd hbad hregistered
  · exact fun s' hs' ↦ ⟨hs'.fresh, hs'.other_eq_nil, hs'.reviewed⟩

theorem clearExpiredProposal_safe (bad : Failure → Prop) (depth : ℕ)
    (hexception : ¬ bad .exception) (hdangling : ¬ bad .dangling)
    (hregistered : ¬ bad .noEvaluator) (h : s.WellFormed R) {id : ProposalId}
    {p : ProposalObject K O} (hp : s.db.proposals id = some p) :
    Safe bad (ProposalState.WellFormed R) (R.clearExpiredProposal (depth + 1) id s) :=
  Graphene.clearExpiredProposal_safe hdangling h hp
    (h.pushProposal_safe bad depth hexception hdangling hregistered hp)
    fun _ _ hs' _ ↦ hs'.remove id

/-- Every step keeps the proposals well-formed. -/
theorem step {s s' : ProposalState K O X} (h : s.WellFormed R)
    (hstep : R.Step (depth + 1) Allowed s s') : s'.WellFormed R := by
  cases hstep with
  | transaction tx hallowed happly =>
    have hsafe := h.applyTransaction_safe (fun _ ↦ False) depth id id id tx
    rw [happly] at hsafe
    exact hsafe.1
  | block time lifetime reviewPeriod rest htime => exact ⟨h.fresh, h.other_eq_nil, h.reviewed⟩
  | expire hp hexpired hfirst hclear =>
    have hsafe := h.clearExpiredProposal_safe (fun _ ↦ False) depth id id id hp
    rw [hclear] at hsafe
    exact hsafe.1

theorem of_genesis (h : s.Genesis) : s.WellFormed R where
  fresh id _ := h.1 id
  other_eq_nil id p hp := by
    rw [h.1 id] at hp
    cases hp
  reviewed id p hp := by
    rw [h.1 id] at hp
    cases hp

theorem run {s s' : ProposalState K O X} (h : s.WellFormed R)
    (hrun : R.Run (depth + 1) Allowed s s') : s'.WellFormed R := by
  induction hrun with
  | refl => exact h
  | tail _ hstep ih => exact ih.step hstep

end ProposalState.WellFormed

/-- **Executions of proposals are not nested.**  In every state a chain comes to, neither a
transaction nor the clearing of an expired proposal executes a proposal within another. -/
theorem recursion_bounded {s₀ s : ProposalState K O X} (h₀ : s₀.Genesis)
    (hrun : R.Run (depth + 1) Allowed s₀ s) :
    (∀ tx s', R.applyTransaction 1 tx s ≠ .error .tooDeep s') ∧
    ∀ id s', s.db.proposals id ≠ none → R.clearExpiredProposal 1 id s ≠ .error .tooDeep s' := by
  have h : s.WellFormed R := (ProposalState.WellFormed.of_genesis h₀).run hrun
  constructor
  · intro tx s' herror
    have hsafe := h.applyTransaction_safe (· = .tooDeep) 0 (by decide) (by decide) (by decide) tx
    exact hsafe.2 _ _ herror rfl
  · intro id s' hne herror
    obtain ⟨p, hp⟩ := Option.ne_none_iff_exists'.1 hne
    have hsafe :=
      h.clearExpiredProposal_safe (· = .tooDeep) 0 (by decide) (by decide) (by decide) hp
    exact hsafe.2 _ _ herror rfl

end Depth

/-- The proposal of `toyCreate` may be there. -/
theorem toyReviewed_bounded :
    toyRules.Run 1 (fun _ _ ↦ True) toyGenesis toyReviewed ∧
      ∀ tx s', toyRules.applyTransaction 1 tx toyReviewed ≠ .error .tooDeep s' := by
  have hrun : toyRules.Run 1 (fun _ _ ↦ True) toyGenesis toyReviewed := toy_run_reviewed trivial
  exact ⟨hrun, (recursion_bounded toyGenesis_genesis hrun).1⟩

/-! ## A proposal that approves itself -/

/-- Account 9 adds its own approval. -/
def toySelfUpdate : ProposalUpdate ℕ :=
  { addKey 0 with activeApprovalsToAdd := {9}, keyApprovalsToAdd := ∅ }

/-- A proposal of that update, all approved, and without a review period. -/
def toySelfProposal : ProposalObject ℕ (RequiredAuthorities ℕ) where
  expirationTime := 100
  reviewPeriodTime := none
  operations := [.proposalUpdate toySelfUpdate]
  requiredActiveApprovals := {9}
  availableActiveApprovals := {9}
  requiredOwnerApprovals := ∅
  availableOwnerApprovals := ∅
  availableKeyApprovals := ∅

/-- A database with that proposal, which the update is about. -/
def toyLoop : ProposalDb ℕ (RequiredAuthorities ℕ) Unit :=
  { toyGenesis.db with nextId := 1, proposals := fun _ ↦ some toySelfProposal }

theorem toyLoop_setProposal :
    toyLoop.setProposal 0 ((toyLoop.proposals 0).map (·.update toySelfUpdate)) = toyLoop := by
  have hactive : ({9} ∪ {9} : Finset AccountId) \ ∅ = {9} := by decide
  have hupdate : toySelfProposal.update toySelfUpdate = toySelfProposal := by
    simp only [ProposalObject.update, toySelfProposal, toySelfUpdate, addKey,
      ProposalUpdate.ofKey, hactive]
    congr
  show toyLoop.setProposal 0 (some (toySelfProposal.update toySelfUpdate)) = toyLoop
  rw [hupdate]
  simp only [ProposalDb.setProposal, toyLoop, Function.update_eq_self_iff.2]

section Loop

variable {push : ProposalId → Exec ℕ (RequiredAuthorities ℕ) Unit Unit}
  {origin : Origin ℕ (RequiredAuthorities ℕ)}
  {ops : List (AppliedOperation ℕ (RequiredAuthorities ℕ))}
  {s' : ProposalState ℕ (RequiredAuthorities ℕ) Unit}

/-- The update changes nothing, and executes the proposal. -/
theorem toyLoop_updateApply (hpush : push 0 ⟨toyLoop, ops⟩ = .error .tooDeep s') :
    toyRules.updateApply push toySelfUpdate ⟨toyLoop, ops⟩ = .error .tooDeep s' := by
  have hmodify : modifyDb (fun db ↦ db.setProposal toySelfUpdate.proposal
      ((db.proposals toySelfUpdate.proposal).map (·.update toySelfUpdate))) ⟨toyLoop, ops⟩ =
        .ok () ⟨toyLoop, ops⟩ :=
    congrArg (fun db ↦ EStateM.Result.ok () (ProposalState.mk db ops)) toyLoop_setProposal
  have hauthorized : toySelfProposal.isAuthorizedToExecute (toyRules.accounts ())
      toyRules.requiredOther = true := by
    decide +kernel
  rw [ProposalRules.updateApply, bind_ok hmodify, bind_ok (get_apply _)]
  show (if toySelfProposal.isAuthorizedToExecute (toyRules.accounts ()) toyRules.requiredOther
    then tryCatch (push 0) fun e ↦ if e = .exception then return () else throw e
    else return ()) _ = _
  rw [if_pos hauthorized, tryCatch_error hpush]
  rfl

theorem toyLoop_applyOperation (hpush : ∀ ops, ∃ s', push 0 ⟨toyLoop, ops⟩ = .error .tooDeep s') :
    ∃ s', toyRules.applyOperation push origin (.proposalUpdate toySelfUpdate) ⟨toyLoop, ops⟩ =
      .error .tooDeep s' := by
  obtain ⟨s', hs'⟩ := hpush (ops ++ [⟨.proposalUpdate toySelfUpdate, origin, 0⟩])
  have hevaluate : toyRules.prepareFee (.proposalUpdate toySelfUpdate) () = true ∧
      ∃ p ∈ toyLoop.proposals 0, toySelfUpdate.doEvaluate p 0 = true := by
    decide +kernel
  refine ⟨s', ?_⟩
  show (toyRules.startEvaluate (.proposalUpdate toySelfUpdate)
    (fun db ↦ ∃ p ∈ db.proposals 0, toySelfUpdate.doEvaluate p db.headBlockTime = true)
    (toyRules.updateApply push toySelfUpdate))
    ⟨toyLoop, ops ++ [⟨.proposalUpdate toySelfUpdate, origin, 0⟩]⟩ = _
  rw [ProposalRules.startEvaluate, bind_ok (get_apply _),
    if_neg (by simpa using ⟨rfl, hevaluate.2⟩)]
  show ((toyRules.updateApply push toySelfUpdate) >>= _) _ = _
  rw [bind_error (toyLoop_updateApply hs')]

theorem toyLoop_pushProposal (depth : ℕ)
    (ops : List (AppliedOperation ℕ (RequiredAuthorities ℕ))) :
    ∃ s', toyRules.pushProposal depth 0 ⟨toyLoop, ops⟩ = .error .tooDeep s' := by
  induction depth generalizing ops with
  | zero => exact ⟨_, rfl⟩
  | succ depth ih =>
    obtain ⟨s', hs'⟩ := @toyLoop_applyOperation _ (.proposal 0 toySelfProposal 0) ops ih
    refine ⟨⟨toyLoop, s'.appliedOps.take ops.length⟩, ?_⟩
    show inProposalSession ((toyRules.applyOperation (toyRules.pushProposal depth)
      (.proposal 0 toySelfProposal 0) (.proposalUpdate toySelfUpdate) >>= fun _ ↦ pure ()) >>=
        fun _ ↦ removeProposal 0) _ = _
    rw [inProposalSession, bind_error (bind_error hs')]

end Loop

/-- No depth is enough for a proposal that approves itself. -/
theorem self_approval_unbounded :
    ¬ ∃ depth, ∀ s', toyRules.applyTransaction depth ⟨[.proposalUpdate toySelfUpdate], {9}⟩
      ⟨toyLoop, []⟩ ≠ .error .tooDeep s' := by
  rintro ⟨depth, hne⟩
  obtain ⟨s', hs'⟩ := @toyLoop_applyOperation _ .transaction [] (toyLoop_pushProposal depth)
  refine hne s' ?_
  have hvalid : (!(!([Operation.proposalUpdate toySelfUpdate] :
      List (Operation ℕ (RequiredAuthorities ℕ))).isEmpty &&
        Operation.validateAll toyRules.validateOther [.proposalUpdate toySelfUpdate])) = false := by
    decide +kernel
  have hauth : toyRules.Authorized ⟨[.proposalUpdate toySelfUpdate], {9}⟩ () := by
    decide +kernel
  rw [ProposalRules.applyTransaction, bind_ok (get_apply _), if_neg (by simpa using hvalid),
    if_neg (by simpa using hauth)]
  exact bind_error hs'

end Graphene
