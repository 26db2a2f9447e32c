import Graphene.Auth.UsedKeys

/-!
# Proposals and their approvals

A proposal is a transaction without signatures.  `proposal_update` operations add and remove
approvals of three kinds, and `is_authorized_to_execute` asks `verify_authority` whether those there
are suffice.

* `Operation`, `ProposalObject` — the data.
* `ProposalUpdate.doEvaluate`, `ProposalObject.update` — a change of approvals.
* `ProposalObject.isAuthorizedToExecute` — whether the approvals suffice.
* `added_approvals_keep_authorized_iff` — what more approvals can do to that.

Once enough approvals have been granted, the operations of a proposal are to be evaluated.  But
anyone may add the approval of a key, and `verify_authority` accepts no key that it has not used, so
that a key which is in no authority is enough to keep a proposal from being executed.
-/

set_option autoImplicit false

namespace Graphene

/-- `proposal_id_type`. -/
abbrev ProposalId := ℕ

/-- `HARDFORK_1_TIME`. -/
def hardfork1Time : ℕ := 1509166800

/-- `proposal_update_operation`. -/
structure ProposalUpdate (K : Type) where
  /-- `fee_paying_account`. -/
  feePayingAccount : AccountId
  /-- `fee.amount`. -/
  fee : ℤ
  /-- `proposal`. -/
  proposal : ProposalId
  /-- `active_approvals_to_add`. -/
  activeApprovalsToAdd : Finset AccountId
  /-- `active_approvals_to_remove`. -/
  activeApprovalsToRemove : Finset AccountId
  /-- `owner_approvals_to_add`. -/
  ownerApprovalsToAdd : Finset AccountId
  /-- `owner_approvals_to_remove`. -/
  ownerApprovalsToRemove : Finset AccountId
  /-- `key_approvals_to_add`. -/
  keyApprovalsToAdd : Finset K
  /-- `key_approvals_to_remove`. -/
  keyApprovalsToRemove : Finset K

/-- `proposal_delete_operation`. -/
structure ProposalDelete where
  /-- `fee_paying_account`. -/
  feePayingAccount : AccountId
  /-- `using_owner_authority`. -/
  usingOwnerAuthority : Bool
  /-- `fee.amount`. -/
  fee : ℤ
  /-- `proposal`. -/
  proposal : ProposalId

/-- `operation`: those about proposals, and any other. -/
inductive Operation (K O : Type) where
  /-- `proposal_create_operation`. -/
  | proposalCreate (feePayingAccount : AccountId) (fee : ℤ) (expirationTime : ℕ)
    (reviewPeriodSeconds : Option ℕ) (proposedOps : List (Operation K O))
  /-- `proposal_update_operation`. -/
  | proposalUpdate (o : ProposalUpdate K)
  /-- `proposal_delete_operation`. -/
  | proposalDelete (o : ProposalDelete)
  /-- Any other operation. -/
  | other (o : O)

/-- `proposal_object`. -/
structure ProposalObject (K O : Type) where
  /-- `expiration_time`. -/
  expirationTime : ℕ
  /-- `review_period_time`. -/
  reviewPeriodTime : Option ℕ
  /-- `proposed_transaction.operations`. -/
  operations : List (Operation K O)
  /-- `required_active_approvals`. -/
  requiredActiveApprovals : Finset AccountId
  /-- `available_active_approvals`. -/
  availableActiveApprovals : Finset AccountId
  /-- `required_owner_approvals`. -/
  requiredOwnerApprovals : Finset AccountId
  /-- `available_owner_approvals`. -/
  availableOwnerApprovals : Finset AccountId
  /-- `available_key_approvals`. -/
  availableKeyApprovals : Finset K

variable {K O : Type} [LinearOrder K]

/-! ## What an operation requires -/

attribute [local instance] isTrans_keys antisymm_keys

/-- The authority that all of the keys satisfy together. -/
def Authority.ofKeys (keys : Finset K) : Authority K where
  weightThreshold := keys.card
  accountAuths := []
  keyAuths := (keys.sort (· ≤ ·)).map fun k ↦ (k, 1)
  addressAuths := []
  account_nodup := List.nodup_nil
  key_nodup := by
    rw [List.map_map]
    exact (keys.sort_nodup (· ≤ ·)).map fun _ _ h ↦ h
  address_nodup := nodup_noAddresses

/-- `operation_get_required_authorities`, for one operation. -/
def Operation.required (requiredOther : O → RequiredAuthorities K) :
    Operation K O → RequiredAuthorities K
  | proposalCreate feePayingAccount _ _ _ _ => ⟨{feePayingAccount}, ∅, []⟩
  | proposalUpdate o =>
    { active := insert o.feePayingAccount (o.activeApprovalsToAdd ∪ o.activeApprovalsToRemove)
      owner := o.ownerApprovalsToAdd ∪ o.ownerApprovalsToRemove
      other := [.ofKeys (o.keyApprovalsToAdd ∪ o.keyApprovalsToRemove)] }
  | proposalDelete o => ⟨{o.feePayingAccount}, ∅, []⟩
  | other o => requiredOther o

/-! ## Approvals -/

/-- `proposal_update_evaluator::do_evaluate`. -/
def ProposalUpdate.doEvaluate (o : ProposalUpdate K) (p : ProposalObject K O)
    (headBlockTime : ℕ) : Bool :=
  headBlockTime < hardfork1Time &&
  (if ∃ t ∈ p.reviewPeriodTime, headBlockTime ≥ t then
    decide (o.activeApprovalsToAdd = ∅ ∧ o.ownerApprovalsToAdd = ∅) else true) &&
  o.activeApprovalsToRemove ⊆ p.availableActiveApprovals &&
  o.ownerApprovalsToRemove ⊆ p.availableOwnerApprovals

/-- What `proposal_update_evaluator::do_apply` makes of a proposal. -/
def ProposalObject.update (p : ProposalObject K O) (o : ProposalUpdate K) : ProposalObject K O :=
  { p with
    availableActiveApprovals :=
      (p.availableActiveApprovals ∪ o.activeApprovalsToAdd) \ o.activeApprovalsToRemove
    availableOwnerApprovals :=
      (p.availableOwnerApprovals ∪ o.ownerApprovalsToAdd) \ o.ownerApprovalsToRemove
    availableKeyApprovals :=
      (p.availableKeyApprovals ∪ o.keyApprovalsToAdd) \ o.keyApprovalsToRemove }

/-- The approvals of a proposal. -/
def ProposalObject.approvals (p : ProposalObject K O) : Approvals K where
  keys := p.availableKeyApprovals
  active := p.availableActiveApprovals
  owner := p.availableOwnerApprovals

/-- The accounts of a database, each of which has both authorities. -/
def Accounts.ofDatabase (active owner : AccountId → Authority K) (maxAuthorityDepth : ℕ) :
    Accounts K where
  getActive a := some (active a)
  getOwner a := some (owner a)
  maxRecursion := maxAuthorityDepth

/-- What the operations of a proposal require. -/
def ProposalObject.required (requiredOther : O → RequiredAuthorities K)
    (p : ProposalObject K O) : RequiredAuthorities K :=
  requiredAuthorities (Operation.required requiredOther) p.operations

/-- The check of `is_authorized_to_execute`. -/
def ProposalObject.verify (acc : Accounts K) (requiredOther : O → RequiredAuthorities K)
    (p : ProposalObject K O) : Option VerifyError × SignState K :=
  verifyAuthority acc (p.required requiredOther) true p.approvals

/-- `is_authorized_to_execute`. -/
def ProposalObject.isAuthorizedToExecute (acc : Accounts K)
    (requiredOther : O → RequiredAuthorities K) (p : ProposalObject K O) : Bool :=
  (p.verify acc requiredOther).1.isNone

/-! ## More approvals -/

section MoreApprovals

variable {acc : Accounts K} {requiredOther : O → RequiredAuthorities K} {p : ProposalObject K O}

/-- An update that only adds leaves what there is. -/
theorem ProposalObject.approvals_update {o : ProposalUpdate K}
    (hactive : o.activeApprovalsToRemove = ∅) (howner : o.ownerApprovalsToRemove = ∅)
    (hkeys : o.keyApprovalsToRemove = ∅) :
    p.approvals.Within (p.update o).approvals := by
  constructor
  · rw [ProposalObject.approvals, ProposalObject.approvals, ProposalObject.update, hkeys,
      Finset.sdiff_empty]
    exact Finset.subset_union_left
  · rw [ProposalObject.approvals, ProposalObject.approvals, ProposalObject.update, hactive,
      Finset.sdiff_empty]
    exact Finset.subset_union_left
  · rw [ProposalObject.approvals, ProposalObject.approvals, ProposalObject.update, howner,
      Finset.sdiff_empty]
    exact Finset.subset_union_left

/-- An update that adds approvals and removes none. -/
structure ProposalUpdate.OnlyAdds (o : ProposalUpdate K) : Prop where
  /-- `active_approvals_to_remove`. -/
  active : o.activeApprovalsToRemove = ∅
  /-- `owner_approvals_to_remove`. -/
  owner : o.ownerApprovalsToRemove = ∅
  /-- `key_approvals_to_remove`. -/
  keys : o.keyApprovalsToRemove = ∅

/-- Approvals that are added to a proposal do not make an authority missing, unless the search is
stopped; but a key may not be used. -/
theorem added_approvals_keep_authorized (hno : NoOverflow acc (p.required requiredOther))
    {o : ProposalUpdate K} (ho : o.OnlyAdds) (h : p.isAuthorizedToExecute acc requiredOther = true)
    (hstop : ¬((p.update o).verify acc requiredOther).2.Stopped) :
    ((p.update o).verify acc requiredOther).1 = none ∨
      ((p.update o).verify acc requiredOther).1 = some .txIrrelevantSig := by
  have hle := @ProposalObject.approvals_update _ _ _ p _ ho.active ho.owner ho.keys
  have hbefore : p.verify acc requiredOther = (none, (p.verify acc requiredOther).2) :=
    Prod.ext (Option.isNone_iff_eq_none.1 h) rfl
  rcases hafter : (p.update o).verify acc requiredOther with ⟨_ | e, s⟩
  · exact .inl rfl
  · rw [hafter] at hstop
    have hmissing := more_approvals_not_missing hno hle hbefore hafter
    have hcases := verifyAuthority_some hafter
    cases e with
    | invalidCommitteeApproval => exact absurd hcases.1 (Bool.noConfusion)
    | txIrrelevantSig => exact .inr rfl
    | txMissingOtherAuth | txMissingActiveAuth | txMissingOwnerAuth =>
      exact absurd (hmissing trivial) hstop

/-- **A key in no authority** that the search can come to keeps a proposal from being executed. -/
theorem ProposalObject.not_authorized_of_not_mentioned {k : K}
    (hk : ∀ auth, Reached acc (p.required requiredOther) auth → ¬auth.Mentions k)
    (hmem : k ∈ p.availableKeyApprovals) : ¬p.isAuthorizedToExecute acc requiredOther = true := by
  intro h
  have hverify : p.verify acc requiredOther = (none, (p.verify acc requiredOther).2) :=
    Prod.ext (Option.isNone_iff_eq_none.1 h) rfl
  obtain ⟨auth, hauth, hmentions⟩ := (verifyAuthority_accepted hverify).2 k hmem
  exact hk auth hauth hmentions

/-- An update by `account` that adds the approval of a key. -/
def ProposalUpdate.ofKey (account : AccountId) (proposal : ProposalId) (k : K) :
    ProposalUpdate K where
  feePayingAccount := account
  fee := 0
  proposal := proposal
  activeApprovalsToAdd := ∅
  activeApprovalsToRemove := ∅
  ownerApprovalsToAdd := ∅
  ownerApprovalsToRemove := ∅
  keyApprovalsToAdd := {k}
  keyApprovalsToRemove := ∅

omit [LinearOrder K] in
theorem ProposalUpdate.onlyAdds_ofKey {account : AccountId} {proposal : ProposalId} {k : K} :
    (ProposalUpdate.ofKey account proposal k).OnlyAdds := ⟨rfl, rfl, rfl⟩

omit [LinearOrder K] in
/-- The approval of a key can be added until the fork, also in the review period. -/
theorem ProposalUpdate.doEvaluate_ofKey {account : AccountId} {proposal : ProposalId} {k : K}
    {headBlockTime : ℕ} (h : headBlockTime < hardfork1Time) :
    (ProposalUpdate.ofKey account proposal k).doEvaluate p headBlockTime = true := by
  simp [ProposalUpdate.doEvaluate, ProposalUpdate.ofKey, h]

omit [LinearOrder K] in
theorem ProposalUpdate.not_doEvaluate {o : ProposalUpdate K} {headBlockTime : ℕ}
    (h : hardfork1Time ≤ headBlockTime) : ¬o.doEvaluate p headBlockTime = true := by
  simp [ProposalUpdate.doEvaluate, Nat.not_lt.2 h]

/-- If the search is not stopped, all that can go wrong is that it does not get to a key. -/
theorem authorized_update_iff (hno : NoOverflow acc (p.required requiredOther))
    {o : ProposalUpdate K} (ho : o.OnlyAdds) (h : p.isAuthorizedToExecute acc requiredOther = true)
    (hstop : ¬((p.update o).verify acc requiredOther).2.Stopped) :
    (p.update o).isAuthorizedToExecute acc requiredOther = true ↔
      ∀ k ∈ (p.update o).availableKeyApprovals, ∃ auth,
        Visited acc (p.required requiredOther) (p.update o).approvals auth ∧
          auth.ScansKey acc (p.update o).approvals k := by
  have hcases := added_approvals_keep_authorized hno ho h hstop
  have hverify : verifyAuthority acc (p.required requiredOther) true (p.update o).approvals =
      (((p.update o).verify acc requiredOther).1, ((p.update o).verify acc requiredOther).2) := rfl
  obtain ⟨hprovided, hused⟩ := verifyAuthority_used hno hverify hcases hstop
  rw [ProposalObject.isAuthorizedToExecute, Option.isNone_iff_eq_none]
  constructor
  · intro hnone k hk
    obtain ⟨-, _, _, -, -, -, hsub⟩ := verifyAuthority_none (Prod.ext hnone rfl)
    exact (hused k hk).1 (hsub (hprovided.symm ▸ hk))
  · intro hkeys
    refine hcases.resolve_right fun hirrelevant ↦ ?_
    refine verifyAuthority_some (Prod.ext hirrelevant rfl) fun k hk ↦ ?_
    have hk := hprovided ▸ hk
    exact (hused k hk).2 (hkeys k hk)

/-- **No proposal is safe from the approvals of others** before the fork, for as long as there is a
key in no authority; from then on there are no updates.  Of a single update, as long as no search is
stopped: a proposal that could be executed still can exactly if the search gets to every key that
has approved, before and now. -/
theorem added_approvals_keep_authorized_iff {k : K}
    (hk : ∀ auth, Reached acc (p.required requiredOther) auth → ¬auth.Mentions k)
    (h : p.isAuthorizedToExecute acc requiredOther = true) (headBlockTime : ℕ) :
    ((∀ o : ProposalUpdate K, o.OnlyAdds → o.doEvaluate p headBlockTime = true →
        (p.update o).isAuthorizedToExecute acc requiredOther = true) ↔
      hardfork1Time ≤ headBlockTime) ∧
    (NoOverflow acc (p.required requiredOther) → ∀ o : ProposalUpdate K, o.OnlyAdds →
      ¬((p.update o).verify acc requiredOther).2.Stopped →
      ((p.update o).isAuthorizedToExecute acc requiredOther = true ↔
        ∀ k ∈ (p.update o).availableKeyApprovals, ∃ auth,
          Visited acc (p.required requiredOther) (p.update o).approvals auth ∧
            auth.ScansKey acc (p.update o).approvals k)) := by
  refine ⟨⟨fun hall ↦ ?_, fun hlate o _ ho ↦ ?_⟩, fun hno o ho ↦ authorized_update_iff hno ho h⟩
  · by_contra hearly
    have hupdate := hall (.ofKey 0 0 k) ProposalUpdate.onlyAdds_ofKey
      (ProposalUpdate.doEvaluate_ofKey (not_le.1 hearly))
    have hmem : k ∈ (p.update (.ofKey 0 0 k)).availableKeyApprovals := by
      simp [ProposalObject.update, ProposalUpdate.ofKey]
    exact (p.update (.ofKey 0 0 k)).not_authorized_of_not_mentioned hk hmem hupdate
  · exact absurd ho (ProposalUpdate.not_doEvaluate hlate)

end MoreApprovals

/-- The accounts of `stairs`; the other authorities cannot be satisfied. -/
def stairsDatabase : Accounts ℕ :=
  .ofDatabase
    (fun a ↦ (stairs.getActive a).getD ⟨1, [], [], [], List.nodup_nil, List.nodup_nil,
      nodup_noAddresses⟩)
    (fun a ↦ (stairs.getOwner a).getD ⟨1, [], [], [], List.nodup_nil, List.nodup_nil,
      nodup_noAddresses⟩) 1

/-- A proposal that requires the active authority of 5 and the owner authority of 7. -/
def stairsProposal (active owner : Finset AccountId) (keys : Finset ℕ) :
    ProposalObject ℕ (RequiredAuthorities ℕ) where
  expirationTime := 100
  reviewPeriodTime := none
  operations := [.other ⟨{5}, {7}, []⟩]
  requiredActiveApprovals := {5}
  availableActiveApprovals := active
  requiredOwnerApprovals := {7}
  availableOwnerApprovals := owner
  availableKeyApprovals := keys

/-- An update by account 9 that adds the approval of a key. -/
def addKey (k : ℕ) : ProposalUpdate ℕ := .ofKey 9 0 k

/-- Accounts 5 and 7 have approved, and then a key that is in no authority does.  The key of 6 is
enough for a proposal, and then there is a key of 5 as well. -/
theorem added_key_blocks_proposal :
    ((addKey 3).doEvaluate (stairsProposal {5} {7} ∅) 0 = true ∧
      (stairsProposal {5} {7} ∅).isAuthorizedToExecute stairsDatabase id = true ∧
      ((stairsProposal {5} {7} ∅).update (addKey 3)).isAuthorizedToExecute stairsDatabase id =
        false) ∧
    (addKey 2).doEvaluate (stairsProposal ∅ ∅ {1}) 0 = true ∧
    (stairsProposal ∅ ∅ {1}).isAuthorizedToExecute stairsDatabase id = true ∧
    (((stairsProposal ∅ ∅ {1}).update (addKey 2)).verify stairsDatabase id).1 =
      some .txMissingOwnerAuth := by
  decide +kernel

theorem not_mentions_three {req : RequiredAuthorities ℕ} (h : req.other = []) {auth : Authority ℕ}
    (hauth : Reached stairsDatabase req auth) : ¬auth.Mentions 3 := by
  have hactive : ∀ a : AccountId, ∀ auth ∈ stairsDatabase.getActive a, ¬auth.Mentions 3 := by
    intro a auth hauth
    obtain rfl := Option.mem_some_iff.1 hauth
    unfold Authority.Mentions stairs
    dsimp only
    split <;> simp
  have howner : ∀ a : AccountId, ∀ auth ∈ stairsDatabase.getOwner a, ¬auth.Mentions 3 := by
    intro a auth hauth
    obtain rfl := Option.mem_some_iff.1 hauth
    unfold Authority.Mentions stairs
    dsimp only
    split <;> simp
  cases hauth with
  | other hmem =>
    rw [h] at hmem
    cases hmem
  | active _ hauth => exact hactive _ _ hauth
  | activeOwner _ hauth => exact howner _ _ hauth
  | owner _ hauth => exact howner _ _ hauth
  | member _ _ hauth => exact hactive _ _ hauth

/-- Accounts 5 and 7 have approved; key 3, which is in no authority, undoes that. -/
theorem added_key_undoes_approval :
    ¬∀ o : ProposalUpdate ℕ, o.OnlyAdds → o.doEvaluate (stairsProposal {5} {7} ∅) 0 = true →
      ((stairsProposal {5} {7} ∅).update o).isAuthorizedToExecute stairsDatabase id = true := by
  intro hall
  have hkey : ∀ auth, Reached stairsDatabase ((stairsProposal {5} {7} ∅).required id) auth →
      ¬auth.Mentions 3 := fun _ ↦ not_mentions_three rfl
  have hauthorized :
      (stairsProposal {5} {7} ∅).isAuthorizedToExecute stairsDatabase id = true := by
    decide +kernel
  have hlate := (added_approvals_keep_authorized_iff hkey hauthorized 0).1.1 hall
  exact absurd hlate (by decide)

end Graphene
