import Graphene.Proposals.Invariants

/-!
# The review period of a proposal

A proposal that requires the committee account has to have a review period, after the beginning of
which no more approvals are to be added, and is executed at its expiration only.  The evaluator of
`proposal_update` rejects new active and owner approvals in the review period, but not new key
approvals.

* `ProposalObject.Becomes`, `ProposalState.Later` — what a proposal may turn into.
* `AppliedOperation.Reviewed` — by what way an operation may have been applied.
* `review_period_binds` — the main result, for runs that add no key approvals too late.
* `key_approval_in_review` — a run that does.
-/

set_option autoImplicit false

namespace Graphene

open Throwing

variable {K O X : Type} [LinearOrder K] {R : ProposalRules K O X} {s s₀ s₁ s₂ : ProposalState K O X}

/-! ## Proposals later on -/

/-- The proposal `p₀`, seen at `time`, may be `p` at any later time. -/
structure ProposalObject.Becomes (time : ℕ) (p₀ p : ProposalObject K O) : Prop where
  /-- The expiration stays. -/
  expirationTime : p.expirationTime = p₀.expirationTime
  /-- The review period stays. -/
  reviewPeriodTime : p.reviewPeriodTime = p₀.reviewPeriodTime
  /-- Approvals only get fewer once the review period has begun. -/
  shrinks : ∀ t, p₀.reviewPeriodTime = some t → t ≤ time →
    p.availableActiveApprovals ⊆ p₀.availableActiveApprovals ∧
    p.availableOwnerApprovals ⊆ p₀.availableOwnerApprovals ∧
    p.availableKeyApprovals ⊆ p₀.availableKeyApprovals

omit [LinearOrder K] in
theorem ProposalObject.Becomes.refl (time : ℕ) (p : ProposalObject K O) : p.Becomes time p :=
  ⟨rfl, rfl, fun _ _ _ ↦ ⟨subset_rfl, subset_rfl, subset_rfl⟩⟩

omit [LinearOrder K] in
theorem ProposalObject.Becomes.trans {time time' : ℕ} {p₀ p₁ p₂ : ProposalObject K O}
    (h : p₀.Becomes time p₁) (h' : p₁.Becomes time' p₂) (htime : time ≤ time') :
    p₀.Becomes time p₂ := by
  refine ⟨h'.expirationTime.trans h.expirationTime,
    h'.reviewPeriodTime.trans h.reviewPeriodTime, fun t ht hle ↦ ?_⟩
  obtain ⟨hactive, howner, hkeys⟩ := h.shrinks t ht hle
  obtain ⟨hactive', howner', hkeys'⟩ :=
    h'.shrinks t (h.reviewPeriodTime.trans ht) (hle.trans htime)
  exact ⟨hactive'.trans hactive, howner'.trans howner, hkeys'.trans hkeys⟩

/-- `s` may come after `s₀`. -/
structure ProposalState.Later (s₀ s : ProposalState K O X) : Prop where
  /-- Time does not go back. -/
  time_le : s₀.db.headBlockTime ≤ s.db.headBlockTime
  /-- Ids are not used again. -/
  nextId_le : s₀.db.nextId ≤ s.db.nextId
  /-- The proposals that are there have been there, or are new. -/
  kept : ∀ id p, s.db.proposals id = some p → id < s₀.db.nextId →
    ∃ p₀, s₀.db.proposals id = some p₀ ∧ p₀.Becomes s₀.db.headBlockTime p

omit [LinearOrder K] in
theorem ProposalState.Later.refl (s : ProposalState K O X) : s.Later s :=
  ⟨le_rfl, le_rfl, fun _ p hp _ ↦ ⟨p, hp, .refl _ p⟩⟩

omit [LinearOrder K] in
theorem ProposalState.Later.trans (h : s₀.Later s₁) (h' : s₁.Later s₂) : s₀.Later s₂ := by
  refine ⟨h.time_le.trans h'.time_le, h.nextId_le.trans h'.nextId_le, fun id p hp hid ↦ ?_⟩
  obtain ⟨p₁, hp₁, hbecomes'⟩ := h'.kept id p hp (lt_of_lt_of_le hid h.nextId_le)
  obtain ⟨p₀, hp₀, hbecomes⟩ := h.kept id p₁ hp₁ hid
  exact ⟨p₀, hp₀, hbecomes.trans hbecomes' h.time_le⟩

/-! ## Applied operations -/

/-- An operation that requires the committee account is from a proposal whose review period is as
long as was required when it was created, and an operation of a proposal with a review period has
been applied at its expiration. -/
def AppliedOperation.Reviewed (R : ProposalRules K O X) (e : AppliedOperation K O) : Prop :=
  match e.origin with
  | .transaction => committeeAccount ∉ (e.op.required R.requiredOther).active
  | .proposal _ p reviewInForce =>
    (p.reviewPeriodTime ≠ none → p.expirationTime ≤ e.time) ∧
    (committeeAccount ∈ (e.op.required R.requiredOther).active →
      ∃ t, p.reviewPeriodTime = some t ∧ t + reviewInForce ≤ p.expirationTime)
  | .virtual => True

/-- No update of the transaction adds key approvals to a proposal whose review period has begun. -/
def NoLateKeys (s : ProposalState K O X) (tx : ProposalTx K O) : Prop :=
  ∀ o, .proposalUpdate o ∈ tx.operations → o.keyApprovalsToAdd ≠ ∅ →
    ∀ p, s.db.proposals o.proposal = some p → ∀ t, p.reviewPeriodTime = some t →
      s.db.headBlockTime < t

/-! ## The invariant within a step -/

/-- What holds between any two operations of a step that has started in `s₀`. -/
structure ProposalState.InStep (R : ProposalRules K O X) (s₀ s : ProposalState K O X) : Prop where
  /-- The proposals are well-formed. -/
  wellFormed : s.WellFormed R
  /-- The head block time is the same. -/
  time_eq : s.db.headBlockTime = s₀.db.headBlockTime
  /-- The proposals come after those of `s₀`. -/
  later : s₀.Later s
  /-- The review period of a new proposal has not begun. -/
  new : ∀ id p, s₀.db.nextId ≤ id → s.db.proposals id = some p →
    ∀ t, p.reviewPeriodTime = some t → s.db.headBlockTime < t
  /-- What has been applied was allowed. -/
  reviewed : ∀ e ∈ s.appliedOps, e.Reviewed R

namespace ProposalState.InStep

theorem start (h : s₀.WellFormed R) (hreviewed : ∀ e ∈ s₀.appliedOps, e.Reviewed R) :
    s₀.InStep R s₀ where
  wellFormed := h
  time_eq := rfl
  later := .refl s₀
  new id p hid hp := by
    rw [h.fresh id hid] at hp
    cases hp
  reviewed := hreviewed

theorem applied (h : s₀.InStep R s) {op : Operation K O} {origin : Origin K O}
    (he : AppliedOperation.Reviewed R ⟨op, origin, s₀.db.headBlockTime⟩) :
    s₀.InStep R (s.applied op origin) where
  wellFormed := ⟨h.wellFormed.fresh, h.wellFormed.other_eq_nil, h.wellFormed.reviewed⟩
  time_eq := h.time_eq
  later := ⟨h.later.time_le, h.later.nextId_le, h.later.kept⟩
  new := h.new
  reviewed e hmem := by
    rcases List.mem_append.1 hmem with hmem | hmem
    · exact h.reviewed e hmem
    · rw [List.mem_singleton.1 hmem, h.time_eq]
      exact he

theorem frame : Frame (s₀.InStep R) where
  rest s rest h := ⟨ProposalState.WellFormed.frame.rest s rest h.wellFormed, h.time_eq,
    ⟨h.later.time_le, h.later.nextId_le, h.later.kept⟩, h.new, h.reviewed⟩
  virtual _ _ h := h.applied trivial
  restore s s' n h h' := ⟨ProposalState.WellFormed.frame.restore s s' n h.wellFormed h'.wellFormed,
    h.time_eq, ⟨h.later.time_le, h.later.nextId_le, h.later.kept⟩, h.new,
    fun e he ↦ h'.reviewed e (List.mem_of_mem_take he)⟩

theorem remove (h : s₀.InStep R s) (id : ProposalId) :
    s₀.InStep R { s with db := s.db.setProposal id none } := by
  have hsome : ∀ id' p, (s.db.setProposal id none).proposals id' = some p →
      s.db.proposals id' = some p := by
    intro id' p hp
    rw [ProposalDb.proposals_setProposal] at hp
    split at hp
    · cases hp
    · exact hp
  exact ⟨h.wellFormed.remove id, h.time_eq,
    ⟨h.later.time_le, h.later.nextId_le, fun id' p hp ↦ h.later.kept id' p (hsome id' p hp)⟩,
    fun id' p hid hp ↦ h.new id' p hid (hsome id' p hp), h.reviewed⟩

theorem create (h : s₀.InStep R s) {expirationTime : ℕ} {reviewPeriodSeconds : Option ℕ}
    {proposedOps : List (Operation K O)}
    (heval : R.createEvaluate expirationTime reviewPeriodSeconds proposedOps s.db = true) :
    s₀.InStep R
      { s with db :=
          s.db.create (R.newProposal expirationTime reviewPeriodSeconds proposedOps) } := by
  obtain ⟨hexpiration, hreview, -⟩ := createEvaluate_spec heval
  refine ⟨h.wellFormed.create heval, h.time_eq, ⟨h.later.time_le,
    h.later.nextId_le.trans (Nat.le_succ _), fun id p hp hid ↦ ?_⟩, fun id p hid hp t ht ↦ ?_,
    h.reviewed⟩
  · rw [ProposalDb.proposals_create, if_neg (lt_of_lt_of_le hid h.later.nextId_le).ne] at hp
    exact h.later.kept id p hp hid
  · rw [ProposalDb.proposals_create] at hp
    split at hp
    case isFalse => exact h.new id p hid hp t ht
    case isTrue =>
      cases hp
      obtain ⟨seconds, hseconds, rfl⟩ := Option.map_eq_some_iff.1 ht
      have hlt := hreview seconds hseconds
      show s.db.headBlockTime < expirationTime - seconds
      omega

theorem update (h : s₀.InStep R s) {o : ProposalUpdate K} {p : ProposalObject K O}
    (hp : s.db.proposals o.proposal = some p)
    (heval : o.doEvaluate p s.db.headBlockTime = true)
    (hkeys : o.keyApprovalsToAdd ≠ ∅ → ∀ p₀, s₀.db.proposals o.proposal = some p₀ →
      ∀ t, p₀.reviewPeriodTime = some t → s₀.db.headBlockTime < t) :
    s₀.InStep R { s with db := s.db.setProposal o.proposal (some (p.update o)) } := by
  refine ⟨h.wellFormed.update hp, h.time_eq, ⟨h.later.time_le, h.later.nextId_le,
    fun id p' hp' hid ↦ ?_⟩, fun id p' hid hp' t ht ↦ ?_, h.reviewed⟩
  · rw [ProposalDb.proposals_setProposal] at hp'
    split at hp'
    case isFalse => exact h.later.kept id p' hp' hid
    case isTrue heq =>
      subst heq
      cases hp'
      obtain ⟨p₀, hp₀, hbecomes⟩ := h.later.kept _ p hp hid
      refine ⟨p₀, hp₀, hbecomes.expirationTime, hbecomes.reviewPeriodTime, fun t ht hle ↦ ?_⟩
      obtain ⟨hactive, howner, hkey⟩ := hbecomes.shrinks t ht hle
      have hadd : o.activeApprovalsToAdd = ∅ ∧ o.ownerApprovalsToAdd = ∅ := by
        rw [ProposalUpdate.doEvaluate] at heval
        simp only [Bool.and_eq_true] at heval
        obtain ⟨⟨⟨-, hreview⟩, -⟩, -⟩ := heval
        rw [if_pos ⟨t, hbecomes.reviewPeriodTime.trans ht, h.time_eq ▸ hle⟩] at hreview
        exact of_decide_eq_true hreview
      have hnokeys : o.keyApprovalsToAdd = ∅ := by
        by_contra hne
        exact absurd (hkeys hne p₀ hp₀ t ht) (Nat.not_lt.2 hle)
      rw [ProposalObject.update]
      dsimp only
      rw [hadd.1, hadd.2, hnokeys, Finset.union_empty, Finset.union_empty, Finset.union_empty]
      exact ⟨Finset.sdiff_subset.trans hactive, Finset.sdiff_subset.trans howner,
        Finset.sdiff_subset.trans hkey⟩
  · rw [ProposalDb.proposals_setProposal] at hp'
    split at hp'
    case isFalse => exact h.new id p' hid hp' t ht
    case isTrue heq =>
      subst heq
      cases hp'
      exact h.new _ p hid hp t ht

/-- A proposal that has no review period, or has expired, may be executed. -/
theorem pushProposal_safe (depth : ℕ) (h : s₀.InStep R s) {id : ProposalId}
    {p : ProposalObject K O} (hp : s.db.proposals id = some p)
    (hexpired : p.reviewPeriodTime ≠ none → p.expirationTime ≤ s.db.headBlockTime) :
    Safe (fun _ ↦ False) (s₀.InStep R) (R.pushProposal (depth + 1) id s) := by
  refine Graphene.pushProposal_safe frame not_false not_false h hp (fun op hop ↦ ⟨?_, ?_⟩)
    fun s' p' hs' _ ↦ hs'.remove id
  · exact keptBy_of_other_eq_nil (h.wellFormed.other_eq_nil id p hp op hop)
      (fun _ _ hbad ↦ hbad.elim) (fun _ _ _ _ hs' heval ↦ hs'.create heval)
      fun _ id' _ hs' _ ↦ hs'.remove id'
  · intro s' hs'
    refine hs'.applied ⟨fun hreview ↦ ?_, h.wellFormed.reviewed id p hp op hop⟩
    exact h.time_eq ▸ hexpired hreview

theorem applyTransaction_safe (depth : ℕ) (h : s.InStep R s) {tx : ProposalTx K O}
    (hlate : NoLateKeys s tx) :
    Safe (fun _ ↦ False) (s.InStep R) (R.applyTransaction (depth + 1) tx s) := by
  refine Graphene.applyTransaction_safe frame not_false h fun _ hauth op hop ↦ ⟨?_, ?_⟩
  · cases op with
    | proposalCreate feePayer fee expirationTime reviewPeriodSeconds proposedOps =>
      exact fun s' hs' heval ↦ hs'.create heval
    | proposalUpdate o =>
      refine ⟨fun s' p hs' hp heval ↦ hs'.update hp heval (hlate o hop), ?_⟩
      exact fun s' p hs' hp hreview ↦ hs'.pushProposal_safe depth hp fun hne ↦ absurd hreview hne
    | proposalDelete o => exact fun s' p hs' _ _ ↦ hs'.remove o.proposal
    | other o => exact False.elim
  · refine fun s' hs' ↦ hs'.applied fun hmem ↦ ?_
    -- `verify_authority` has rejected what requires the committee account
    have hreq : committeeAccount ∈
        (requiredAuthorities (Operation.required R.requiredOther) tx.operations).active :=
      mem_foldl_union (f := fun op ↦ (op.required R.requiredOther).active) hop hmem ∅
    rw [ProposalRules.Authorized, verifyAuthority] at hauth
    rw [if_pos (by simpa using hreq)] at hauth
    cases hauth

theorem clearExpiredProposal_safe (depth : ℕ) (h : s.InStep R s) {id : ProposalId}
    {p : ProposalObject K O} (hp : s.db.proposals id = some p)
    (hexpired : p.expirationTime ≤ s.db.headBlockTime) :
    Safe (fun _ ↦ False) (s.InStep R) (R.clearExpiredProposal (depth + 1) id s) :=
  Graphene.clearExpiredProposal_safe not_false h hp
    (h.pushProposal_safe depth hp fun _ ↦ hexpired) fun _ _ hs' _ ↦ hs'.remove id

end ProposalState.InStep

/-! ## Runs -/

/-- What holds of a state, and between it and an earlier one. -/
theorem step_review {depth : ℕ} (h : s₀.WellFormed R)
    (hreviewed : ∀ e ∈ s₀.appliedOps, e.Reviewed R) (hstep : R.Step (depth + 1) NoLateKeys s₀ s) :
    s₀.Later s ∧ s.WellFormed R ∧ ∀ e ∈ s.appliedOps, e.Reviewed R := by
  have hstart := ProposalState.InStep.start h hreviewed
  cases hstep with
  | transaction tx hallowed happly =>
    have hsafe := hstart.applyTransaction_safe depth hallowed
    rw [happly] at hsafe
    exact ⟨hsafe.1.later, hsafe.1.wellFormed, hsafe.1.reviewed⟩
  | block time lifetime reviewPeriod rest htime =>
    refine ⟨⟨htime, le_rfl, fun id p hp _ ↦ ⟨p, hp, .refl _ p⟩⟩,
      ⟨h.fresh, h.other_eq_nil, h.reviewed⟩, ?_⟩
    rintro e he
    cases he
  | expire hp hexpired hfirst hclear =>
    have hsafe := hstart.clearExpiredProposal_safe depth hp hexpired
    rw [hclear] at hsafe
    exact ⟨hsafe.1.later, hsafe.1.wellFormed, hsafe.1.reviewed⟩

theorem run_review {depth : ℕ} (h : s₀.WellFormed R)
    (hreviewed : ∀ e ∈ s₀.appliedOps, e.Reviewed R) (hrun : R.Run (depth + 1) NoLateKeys s₀ s) :
    s₀.Later s ∧ s.WellFormed R ∧ ∀ e ∈ s.appliedOps, e.Reviewed R := by
  induction hrun with
  | refl => exact ⟨.refl s₀, h, hreviewed⟩
  | tail _ hstep ih =>
    obtain ⟨hlater, hwf, hrev⟩ := ih
    obtain ⟨hlater', hwf', hrev'⟩ := step_review hwf hrev hstep
    exact ⟨hlater.trans hlater', hwf', hrev'⟩

/-- **The review period binds** in every run that does not add key approvals to a proposal whose
review period has begun: its approvals only get fewer, it is executed at its expiration only, and
what requires the committee account is applied through a proposal with a review period only. -/
theorem review_period_binds {depth : ℕ} (h₀ : s₀.Genesis)
    (hrun₁ : R.Run (depth + 1) NoLateKeys s₀ s₁) (hrun₂ : R.Run (depth + 1) NoLateKeys s₁ s₂) :
    (∀ id p₁ p₂ t, s₁.db.proposals id = some p₁ → s₂.db.proposals id = some p₂ →
      p₁.reviewPeriodTime = some t → t ≤ s₁.db.headBlockTime →
      p₂.availableActiveApprovals ⊆ p₁.availableActiveApprovals ∧
      p₂.availableOwnerApprovals ⊆ p₁.availableOwnerApprovals ∧
      p₂.availableKeyApprovals ⊆ p₁.availableKeyApprovals) ∧
    (∀ e ∈ s₂.appliedOps, ∀ id p m, e.origin = .proposal id p m → p.reviewPeriodTime ≠ none →
      p.expirationTime ≤ e.time) ∧
    ∀ e ∈ s₂.appliedOps, e.origin ≠ .virtual →
      committeeAccount ∈ (e.op.required R.requiredOther).active →
      ∃ id p m t, e.origin = .proposal id p m ∧ p.reviewPeriodTime = some t ∧
        t + m ≤ p.expirationTime := by
  have hnone : ∀ e ∈ s₀.appliedOps, e.Reviewed R := by
    rw [h₀.2]
    rintro e he
    cases he
  obtain ⟨-, hwf₁, hreviewed₁⟩ := run_review (.of_genesis h₀) hnone hrun₁
  obtain ⟨hlater, -, hreviewed₂⟩ := run_review hwf₁ hreviewed₁ hrun₂
  refine ⟨fun id p₁ p₂ t hp₁ hp₂ ht hle ↦ ?_, fun e he id p m horigin hreview ↦ ?_,
    fun e he hvirtual hmem ↦ ?_⟩
  · have hid : id < s₁.db.nextId := by
      by_contra hge
      rw [hwf₁.fresh id (Nat.not_lt.1 hge)] at hp₁
      cases hp₁
    obtain ⟨p, hp, hbecomes⟩ := hlater.kept id p₂ hp₂ hid
    rw [hp₁] at hp
    cases hp
    exact hbecomes.shrinks t ht hle
  · have hrev := hreviewed₂ e he
    rw [AppliedOperation.Reviewed, horigin] at hrev
    exact hrev.1 hreview
  · have hrev := hreviewed₂ e he
    rw [AppliedOperation.Reviewed] at hrev
    cases horigin : e.origin with
    | transaction =>
      rw [horigin] at hrev
      exact absurd hmem hrev
    | proposal id p m =>
      rw [horigin] at hrev
      obtain ⟨t, ht, hle⟩ := hrev.2 hmem
      exact ⟨id, p, m, t, rfl, ht, hle⟩
    | virtual => exact absurd horigin hvirtual

/-! ## A run that adds a key approval too late -/

/-- Account 9 adds the approval of the key 3. -/
def toyApprove : ProposalTx ℕ (RequiredAuthorities ℕ) := ⟨[.proposalUpdate (addKey 3)], {9, 3}⟩

/-- The state when the approval has been added. -/
def toyApproved : ProposalState ℕ (RequiredAuthorities ℕ) Unit :=
  exit (toyRules.applyTransaction 1 toyApprove toyReviewed)

/-- The key approval is added when the review period has begun. -/
theorem key_approval_in_review :
    ∃ s₁ s₂, toyRules.Run 1 (fun _ _ ↦ True) toyGenesis s₁ ∧
      toyRules.Run 1 (fun _ _ ↦ True) s₁ s₂ ∧
      (s₁.db.proposals 0).map (fun p ↦ (p.reviewPeriodTime, p.availableKeyApprovals)) =
        some (some 80, ∅) ∧ s₁.db.headBlockTime = 90 ∧
      (s₂.db.proposals 0).map (fun p ↦ (p.reviewPeriodTime, p.availableKeyApprovals)) =
        some (some 80, {3}) := by
  have happrove : returned (toyRules.applyTransaction 1 toyApprove toyReviewed) = true := by
    decide +kernel
  refine ⟨toyReviewed, toyApproved, toy_run_reviewed trivial,
    .tail .refl (.transaction toyApprove trivial (eq_ok_of_returned happrove)), ?_, rfl, ?_⟩
  · decide +kernel
  · decide +kernel

/-! ## A run in which the period binds -/

/-- The committee account is controlled by either of two members. -/
def committeeRules : ProposalRules ℕ (RequiredAuthorities ℕ) Unit :=
  let authorityOf : AccountId → Authority ℕ := fun a ↦
    if a = committeeAccount then
      ⟨1, [(7, 1), (8, 1)], [], [], by decide, List.nodup_nil, nodup_noAddresses⟩
    else ⟨1, [], [(a, 1)], [], List.nodup_nil, List.nodup_singleton a, nodup_noAddresses⟩
  { toyRules with accounts := fun _ ↦ .ofDatabase authorityOf authorityOf 2 }

/-- Account 9 proposes something that requires the committee, with a review period from 80 to
100. -/
def committeePropose : ProposalTx ℕ (RequiredAuthorities ℕ) :=
  ⟨[.proposalCreate 9 0 100 (some 20) [.other ⟨{committeeAccount}, ∅, []⟩]], {9}⟩

/-- A member approves, or takes the approval back. -/
def memberVotes (member : AccountId) (add remove : Finset AccountId) :
    ProposalTx ℕ (RequiredAuthorities ℕ) :=
  ⟨[.proposalUpdate
    { ProposalUpdate.ofKey member 0 0 with
      activeApprovalsToAdd := add
      activeApprovalsToRemove := remove
      keyApprovalsToAdd := ∅ }], {member}⟩

/-- The next block, at a time. -/
def blockAt (time : ℕ) (s : ProposalState ℕ (RequiredAuthorities ℕ) Unit) :
    ProposalState ℕ (RequiredAuthorities ℕ) Unit :=
  ⟨{ s.db with
      headBlockTime := time
      maximumProposalLifetime := 1000
      committeeProposalReviewPeriod := 10
      rest := () }, []⟩

/-- Both members have approved, and it is 90. -/
def committeeReviews : ProposalState ℕ (RequiredAuthorities ℕ) Unit :=
  blockAt 90 ([committeePropose, memberVotes 7 {7} ∅, memberVotes 8 {8} ∅].foldl
    (fun s tx ↦ exit (committeeRules.applyTransaction 1 tx s)) toyGenesis)

/-- One of them has taken that back. -/
def committeeWithdrawn : ProposalState ℕ (RequiredAuthorities ℕ) Unit :=
  exit (committeeRules.applyTransaction 1 (memberVotes 7 ∅ {7}) committeeReviews)

/-- The proposal has expired, and been executed. -/
def committeeExecuted : ProposalState ℕ (RequiredAuthorities ℕ) Unit :=
  exit (committeeRules.clearExpiredProposal 1 0 (blockAt 100 committeeWithdrawn))

theorem noLateKeys_committeePropose {s : ProposalState ℕ (RequiredAuthorities ℕ) Unit} :
    NoLateKeys s committeePropose := by
  rintro o ho
  simp [committeePropose] at ho

theorem noLateKeys_memberVotes {s : ProposalState ℕ (RequiredAuthorities ℕ) Unit}
    {member : AccountId} {add remove : Finset AccountId} :
    NoLateKeys s (memberVotes member add remove) := by
  rintro o ho hkeys
  simp only [memberVotes, List.mem_singleton, Operation.proposalUpdate.injEq] at ho
  simp [ho] at hkeys

theorem committee_run_reviews :
    committeeRules.Run 1 NoLateKeys toyGenesis committeeReviews := by
  have hpropose : returned (committeeRules.applyTransaction 1 committeePropose toyGenesis) =
      true := by decide +kernel
  have hfirst : returned (committeeRules.applyTransaction 1 (memberVotes 7 {7} ∅)
      (exit (committeeRules.applyTransaction 1 committeePropose toyGenesis))) = true := by
    decide +kernel
  have hsecond : returned (committeeRules.applyTransaction 1 (memberVotes 8 {8} ∅)
      (exit (committeeRules.applyTransaction 1 (memberVotes 7 {7} ∅)
        (exit (committeeRules.applyTransaction 1 committeePropose toyGenesis))))) = true := by
    decide +kernel
  exact .tail (.tail (.tail (.tail .refl
    (.transaction _ noLateKeys_committeePropose (eq_ok_of_returned hpropose)))
    (.transaction _ noLateKeys_memberVotes (eq_ok_of_returned hfirst)))
    (.transaction _ noLateKeys_memberVotes (eq_ok_of_returned hsecond)))
    (.block 90 1000 10 () (by decide +kernel))

theorem committee_run_withdrawn :
    committeeRules.Run 1 NoLateKeys committeeReviews committeeWithdrawn := by
  have hreturned : returned (committeeRules.applyTransaction 1 (memberVotes 7 ∅ {7})
      committeeReviews) = true := by decide +kernel
  exact .single (.transaction _ noLateKeys_memberVotes (eq_ok_of_returned hreturned))

/-- There is no other proposal. -/
theorem committee_only {id : ProposalId} {p : ProposalObject ℕ (RequiredAuthorities ℕ)}
    (h : committeeWithdrawn.db.proposals id = some p) : id = 0 := by
  obtain ⟨-, hwf, -⟩ := run_review (.of_genesis toyGenesis_genesis)
    (fun e he ↦ by simp [toyGenesis] at he) (committee_run_reviews.trans committee_run_withdrawn)
  have hnext : committeeWithdrawn.db.nextId = 1 := by decide +kernel
  by_contra hne
  have hnone := hwf.fresh id (hnext ▸ Nat.one_le_iff_ne_zero.2 hne)
  simp [hnone] at h

theorem committee_run_executed :
    committeeRules.Run 1 NoLateKeys committeeWithdrawn committeeExecuted := by
  have hreturned : returned
      (committeeRules.clearExpiredProposal 1 0 (blockAt 100 committeeWithdrawn)) = true := by
    decide +kernel
  have hexpires : (committeeWithdrawn.db.proposals 0).map ProposalObject.expirationTime =
      some 100 := by decide +kernel
  obtain ⟨p, hp, hp100⟩ := Option.map_eq_some_iff.1 hexpires
  refine .tail (.single (.block 100 1000 10 () (by decide +kernel)))
    (.expire (p := p) hp hp100.le (fun id p' hp' ↦ ?_) (eq_ok_of_returned hreturned))
  obtain rfl := committee_only hp'
  exact (congrArg ProposalObject.expirationTime (Option.some.inj (hp.symm.trans hp'))).le

/-- Both members have approved before the period begins.  One takes that back; and when the proposal
expires, the approval of the other executes it. -/
theorem review_period_binds_committee :
    ∃ s₁ s₂ s₃, committeeRules.Run 1 NoLateKeys toyGenesis s₁ ∧
      committeeRules.Run 1 NoLateKeys s₁ s₂ ∧ committeeRules.Run 1 NoLateKeys s₂ s₃ ∧
      (∃ p₁ p₂, s₁.db.proposals 0 = some p₁ ∧ s₂.db.proposals 0 = some p₂ ∧
        p₂.availableActiveApprovals = {8} ∧
        p₂.availableActiveApprovals ⊆ p₁.availableActiveApprovals) ∧
      ∃ e ∈ s₃.appliedOps, ∃ id p m t, e.origin = .proposal id p m ∧
        p.reviewPeriodTime = some t ∧ t + m ≤ p.expirationTime ∧ p.expirationTime ≤ e.time := by
  have hbefore : (committeeReviews.db.proposals 0).map (fun p ↦ p.reviewPeriodTime) =
      some (some 80) := by decide +kernel
  have hafter : (committeeWithdrawn.db.proposals 0).map (fun p ↦ p.availableActiveApprovals) =
      some {8} := by decide +kernel
  obtain ⟨p₁, hp₁, hperiod⟩ := Option.map_eq_some_iff.1 hbefore
  obtain ⟨p₂, hp₂, happrovals⟩ := Option.map_eq_some_iff.1 hafter
  have hshrinks := (review_period_binds toyGenesis_genesis committee_run_reviews
    committee_run_withdrawn).1 0 p₁ p₂ 80 hp₁ hp₂ hperiod (by decide)
  have hone : committeeExecuted.appliedOps.any (fun e ↦
      e.origin matches .proposal .. && committeeAccount ∈
        (e.op.required committeeRules.requiredOther).active) = true := by decide +kernel
  obtain ⟨e, he, hfrom⟩ := List.any_eq_true.1 hone
  rw [Bool.and_eq_true, decide_eq_true_eq] at hfrom
  obtain ⟨-, hlate, hreviewed⟩ := review_period_binds toyGenesis_genesis committee_run_reviews
    (committee_run_withdrawn.trans committee_run_executed)
  have hvirtual : e.origin ≠ .virtual := fun heq ↦ by simp [heq] at hfrom
  obtain ⟨id, p, m, t, horigin, ht, hle⟩ := hreviewed e he hvirtual hfrom.2
  exact ⟨_, _, _, committee_run_reviews, committee_run_withdrawn, committee_run_executed,
    ⟨p₁, p₂, hp₁, hp₂, happrovals, hshrinks.1⟩, e, he, id, p, m, t, horigin, ht, hle,
    hlate e he id p m horigin (by simp [ht])⟩

end Graphene
