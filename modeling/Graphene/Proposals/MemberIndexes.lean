import Graphene.Db.SecondaryIndexes
import Graphene.Proposals.Proposal

/-!
# The secondary indexes of accounts and proposals

`account_member_index` finds the accounts in whose authorities an account, a key or an address is,
and `required_approval_index` the proposals an account may have to approve or has approved.  The
first follows every modification; the second does nothing in `about_to_modify` and
`object_modified`, although the approvals of a proposal change, and neither hears of an object that
`undo` or `pop_commit` puts back.

* `accountMemberIndex`, `requiredApprovalIndex` — the indexes.
* `secondary_indexes_coherent` — they are what rebuilding them gives, along every run that changes
  the approvers of no proposal and puts no account and no proposal back.
* `secondary_indexes_stale` — two runs that do.
-/

set_option autoImplicit false

namespace Graphene

/-- The fields of `account_object` that say who its members are. -/
structure MemberAccountObject (K : Type) where
  /-- `owner`. -/
  owner : Authority K
  /-- `active`. -/
  active : Authority K
  /-- `options.memo_key`. -/
  memoKey : K

/-- An object. -/
inductive MemberObject (K O : Type) where
  /-- `account_object`. -/
  | account (a : MemberAccountObject K)
  /-- `proposal_object`. -/
  | proposal (p : ProposalObject K O)
  /-- An object of any other type. -/
  | other

variable {K O : Type} [DecidableEq K]

/-- `get_account_members`. -/
def MemberAccountObject.accountMembers (a : MemberAccountObject K) : Finset AccountId :=
  ((a.owner.accountAuths ++ a.active.accountAuths).map Prod.fst).toFinset

/-- `get_key_members`. -/
def MemberAccountObject.keyMembers (a : MemberAccountObject K) : Finset K :=
  insert a.memoKey ((a.owner.keyAuths ++ a.active.keyAuths).map Prod.fst).toFinset

/-- `get_address_members`. -/
def MemberAccountObject.addressMembers (a : MemberAccountObject K) : Finset (Address K) :=
  insert ⟨a.memoKey, 0⟩ ((a.owner.addressAuths ++ a.active.addressAuths).map Prod.fst).toFinset

/-- The accounts that `required_approval_index` lists a proposal for. -/
def ProposalObject.approvers (p : ProposalObject K O) : Finset AccountId :=
  p.requiredActiveApprovals ∪ p.requiredOwnerApprovals ∪ p.availableActiveApprovals ∪
    p.availableOwnerApprovals

namespace MemberObject

/-- The members of an account, as `members` has them; no other object has any. -/
def accountMembers {M : Type} (members : MemberAccountObject K → Finset M) :
    MemberObject K O → Finset M
  | account a => members a
  | _ => ∅

/-- The approvers of a proposal; no other object has any. -/
def approvers : MemberObject K O → Finset AccountId
  | proposal p => p.approvers
  | _ => ∅

/-- The object is in neither of the indexes. -/
def Unindexed : MemberObject K O → Prop
  | account _ => False
  | proposal p => p.approvers = ∅
  | other => True

end MemberObject

/-! ## The indexes -/

/-- One of the maps of `account_member_index`. -/
def accountMembership {M : Type} (members : MemberAccountObject K → Finset M) :
    SecondaryIndex (MemberObject K O) M where
  members := MemberObject.accountMembers members
  followsModify := true

/-- The map of `required_approval_index`. -/
def approverMembership : SecondaryIndex (MemberObject K O) AccountId where
  members := MemberObject.approvers
  followsModify := false

/-- `account_member_index`: the accounts by member account, key and address. -/
def accountMemberIndex :
    Hooks (MemberObject K O) (Memberships AccountId × Memberships K × Memberships (Address K)) :=
  (accountMembership MemberAccountObject.accountMembers).hooks.prod
    ((accountMembership MemberAccountObject.keyMembers).hooks.prod
      (accountMembership MemberAccountObject.addressMembers).hooks)

/-- `required_approval_index`: the proposals by required or available approver. -/
def requiredApprovalIndex : Hooks (MemberObject K O) (Memberships AccountId) :=
  approverMembership.hooks

/-- What the two indexes hold. -/
abbrev SecondaryIndexes (K : Type) :=
  (Memberships AccountId × Memberships K × Memberships (Address K)) × Memberships AccountId

/-- Both indexes. -/
def secondaryIndexes : Hooks (MemberObject K O) (SecondaryIndexes K) :=
  accountMemberIndex.prod requiredApprovalIndex

/-- Both indexes when they are empty. -/
def SecondaryIndexes.empty : SecondaryIndexes K :=
  ((fun _ ↦ ∅, fun _ ↦ ∅, fun _ ↦ ∅), fun _ ↦ ∅)

/-- Both indexes list what they are to list. -/
def SecondaryIndexes.Coherent (objects : ObjectId → Option (MemberObject K O))
    (s : SecondaryIndexes K) : Prop :=
  ((accountMembership MemberAccountObject.accountMembers).Lists objects s.1.1 ∧
    (accountMembership MemberAccountObject.keyMembers).Lists objects s.1.2.1 ∧
    (accountMembership MemberAccountObject.addressMembers).Lists objects s.1.2.2) ∧
  approverMembership.Lists objects s.2

/-- What the two indexes follow. -/
theorem secondaryIndexes_maintains :
    Maintains (secondaryIndexes (K := K) (O := O)) SecondaryIndexes.Coherent
      (fun was obj ↦ was.approvers = obj.approvers) MemberObject.Unindexed := by
  have hmaintains := (SecondaryIndex.maintains (I := accountMembership (K := K) (O := O)
    MemberAccountObject.accountMembers)).prod ((SecondaryIndex.maintains (I := accountMembership
      MemberAccountObject.keyMembers)).prod (SecondaryIndex.maintains (I := accountMembership
        MemberAccountObject.addressMembers)))
  refine (hmaintains.prod (SecondaryIndex.maintains (I := approverMembership))).mono ?_ ?_
  · intro was obj heq
    exact ⟨⟨Or.inl rfl, Or.inl rfl, Or.inl rfl⟩, Or.inr heq⟩
  · rintro (a | p | _) hobj
    · exact hobj.elim
    · exact ⟨⟨rfl, rfl, rfl⟩, hobj⟩
    · exact ⟨⟨rfl, rfl, rfl⟩, rfl⟩

/-- The calls that the indexes follow: none changes the approvers of a proposal, and none puts back
an account, or a proposal with approvers. -/
def Followed : UndoRun (MemberObject K O) → UndoCall (MemberObject K O) → Prop :=
  IndexedRun.Tracked (fun was obj ↦ was.approvers = obj.approvers) MemberObject.Unindexed

theorem SecondaryIndexes.coherent_unique {objects : ObjectId → Option (MemberObject K O)}
    {s s' : SecondaryIndexes K} (h : s.Coherent objects) (h' : s'.Coherent objects) : s = s' :=
  Prod.ext
    (Prod.ext (SecondaryIndex.lists_unique h.1.1 h'.1.1)
      (Prod.ext (SecondaryIndex.lists_unique h.1.2.1 h'.1.2.1)
        (SecondaryIndex.lists_unique h.1.2.2 h'.1.2.2)))
    (SecondaryIndex.lists_unique h.2 h'.2)

theorem SecondaryIndexes.coherent_empty :
    (SecondaryIndexes.empty (K := K)).Coherent (fun _ ↦ (none : Option (MemberObject K O))) :=
  ⟨⟨SecondaryIndex.lists_empty, SecondaryIndex.lists_empty, SecondaryIndex.lists_empty⟩,
    SecondaryIndex.lists_empty⟩

/-- Rebuilding the indexes makes them coherent. -/
theorem SecondaryIndexes.coherent_rebuild {objects : ObjectId → Option (MemberObject K O)}
    {l : List (ObjectId × MemberObject K O)} (hl : Listing objects l) :
    SecondaryIndexes.Coherent objects (secondaryIndexes.rebuild .empty l) := by
  have hadded := secondaryIndexes_maintains.foldl_inserted hl.nodup (fun _ _ ↦ rfl)
    (SecondaryIndexes.coherent_empty (K := K))
  rwa [hl.addAll_eq] at hadded

/-- **The secondary indexes are coherent**: along every run of sessions, from indexes as `open`
builds them, that changes the approvers of no proposal and takes back no removal of an account or a
proposal, they are what rebuilding them from the objects gives. -/
theorem secondary_indexes_coherent {x₀ x : IndexedRun (MemberObject K O) (SecondaryIndexes K)}
    {l₀ l : List (ObjectId × MemberObject K O)} (hl₀ : Listing x₀.run.db.indexes.objects l₀)
    (h₀ : x₀.sindex = secondaryIndexes.rebuild .empty l₀)
    (h : x₀.Reaches secondaryIndexes Followed x) (hl : Listing x.run.db.indexes.objects l) :
    x.sindex = secondaryIndexes.rebuild .empty l := by
  have hstart : x₀.Ok SecondaryIndexes.Coherent := by
    rw [IndexedRun.Ok, h₀]
    exact SecondaryIndexes.coherent_rebuild hl₀
  have hok := IndexedRun.coherent_of_reaches secondaryIndexes_maintains hstart h
  exact SecondaryIndexes.coherent_unique hok (SecondaryIndexes.coherent_rebuild hl)

/-! ## Runs on fixed objects -/

/-- An authority with no members. -/
def noMembers : Authority ℕ := ⟨0, [], [], [], List.nodup_nil, List.nodup_nil, nodup_noAddresses⟩

/-- An account whose only member is its memo key. -/
def memoAccount (memoKey : ℕ) : MemberObject ℕ Unit := .account ⟨noMembers, noMembers, memoKey⟩

/-- A proposal that the account 5 has to approve, with the available approvals of `active`. -/
def approvedBy (active : Finset AccountId) : MemberObject ℕ Unit :=
  .proposal ⟨0, none, [], {5}, active, ∅, ∅, ∅⟩

/-- An empty database with its secondary indexes. -/
def emptyRun : IndexedRun (MemberObject ℕ Unit) (SecondaryIndexes ℕ) :=
  ⟨UndoRun.init (UndoRun.emptyIndexes _) 256, .empty⟩

/-- A proposal is created and approved by the account 9. -/
def approveCalls : List (UndoCall (MemberObject ℕ Unit)) :=
  [.create ⟨1, 10⟩ (approvedBy ∅), .modify ⟨⟨1, 10⟩, 0⟩ (approvedBy {9})]

/-- An account is removed in a session that is undone. -/
def unremoveCalls : List (UndoCall (MemberObject ℕ Unit)) :=
  [.create ⟨1, 2⟩ (memoAccount 3), .startUndoSession, .remove ⟨⟨1, 2⟩, 0⟩, .undo 0]

/-- **The secondary indexes go stale** when the approvals of a proposal change, and when an account
that was removed is put back. -/
theorem secondary_indexes_stale :
    (∃ x l, IndexedRun.steps secondaryIndexes emptyRun approveCalls = some x ∧
      Listing x.run.db.indexes.objects l ∧ x.sindex ≠ secondaryIndexes.rebuild .empty l) ∧
    ∃ x l, IndexedRun.steps secondaryIndexes emptyRun unremoveCalls = some x ∧
      Listing x.run.db.indexes.objects l ∧ x.sindex ≠ secondaryIndexes.rebuild .empty l := by
  constructor
  · refine ⟨_, [(⟨⟨1, 10⟩, 0⟩, approvedBy {9})], rfl, listing_singleton ?_, fun heq ↦ ?_⟩
    · exact Function.update_idem _ _ _
    · have happrover := congrFun (congrArg Prod.snd heq) 9
      revert happrover
      decide
  · refine ⟨_, [(⟨⟨1, 2⟩, 0⟩, memoAccount 3)], rfl, listing_singleton ?_, fun heq ↦ ?_⟩
    · exact (Function.update_idem _ _ _).trans (Function.update_idem _ _ _)
    · have hmember := congrFun (congrArg (fun s ↦ s.1.2.1) heq) 3
      revert hmember
      decide

/-- A session in which an account has its memo key changed, and a proposal is created that the
account 5 has to approve, is undone. -/
theorem secondary_indexes_rekeyed :
    ∃ x l, emptyRun.Reaches secondaryIndexes Followed x ∧ x.run.sessions.length = 1 ∧
      Listing x.run.db.indexes.objects l ∧ x.sindex = secondaryIndexes.rebuild .empty l := by
  have hcreated : emptyRun.Reaches secondaryIndexes Followed _ :=
    .call .refl (.create ⟨1, 2⟩ (memoAccount 3)) trivial rfl
  have hmodified := (hcreated.call .startUndoSession trivial rfl).call
    (.modify ⟨⟨1, 2⟩, 0⟩ (memoAccount 4)) (fun was hwas ↦ by
      obtain rfl := Option.some_inj.1 hwas
      rfl) rfl
  have hundone := (hmodified.call (.create ⟨1, 10⟩ (approvedBy ∅)) trivial rfl).call (.undo 0)
    (fun s hs happly state hstate ↦ by
      obtain rfl := Option.some_inj.1 hstate
      refine ⟨fun id was hwas obj hobj ↦ ?_, fun id was hwas ↦ ?_⟩
      · have hmem := AList.mem_lookup_iff.1 hwas
        obtain ⟨rfl, heq⟩ := Sigma.mk.inj (List.mem_singleton.1 hmem)
        obtain rfl := eq_of_heq heq
        obtain rfl := Option.some_inj.1 hobj
        rfl
      · cases hwas) rfl
  have hlisting : Listing (Function.update (Function.update (Function.update (Function.update
      (Function.update (fun _ ↦ none) ⟨⟨1, 2⟩, 0⟩ (some (memoAccount 3))) ⟨⟨1, 2⟩, 0⟩
        (some (memoAccount 4))) ⟨⟨1, 10⟩, 0⟩ (some (approvedBy ∅))) ⟨⟨1, 2⟩, 0⟩
        (some (memoAccount 3))) ⟨⟨1, 10⟩, 0⟩ none)
      [((⟨⟨1, 2⟩, 0⟩ : ObjectId), memoAccount 3)] := by
    refine listing_singleton (funext fun id ↦ ?_)
    by_cases haccount : id = ⟨⟨1, 2⟩, 0⟩
    · simp [haccount]
    · by_cases hproposal : id = ⟨⟨1, 10⟩, 0⟩ <;> simp [haccount, hproposal]
  exact ⟨_, _, hundone, rfl, hlisting,
    secondary_indexes_coherent listing_empty rfl hundone hlisting⟩

end Graphene
