import Mathlib.Data.Finset.Sort
import Mathlib.Algebra.BigOperators.Group.List.Basic
import Mathlib.Algebra.GroupWithZero.Nat

/-!
# Authorities and the signatures that satisfy them

An authority is a threshold and the weights that keys and accounts have towards it; an account
counts once its own active authority is satisfied.  `verify_authority` decides whether the keys and
approvals at hand satisfy everything a list of operations requires, with a depth-first search that
remembers the accounts it has found satisfied and goes down `max_recursion` levels at most.

* `Authority`, `SignState` — the data.
* `checkAuthority` — the search.
* `verifyAuthority` — the whole check, and the exception it throws.

The accounts of an authority may refer to each other in circles.  An address is a hash of a key, and
`signed_by` looks for a key at hand that has it; it reads past the end of a map when there is none.
-/

set_option autoImplicit false

namespace Graphene

/-- `account_id_type`. -/
abbrev AccountId := ℕ

/-- `GRAPHENE_COMMITTEE_ACCOUNT`. -/
def committeeAccount : AccountId := 0

/-- `GRAPHENE_TEMP_ACCOUNT`. -/
def tempAccount : AccountId := 4

/-- `address`, as what it is a hash of. -/
structure Address (K : Type) where
  /-- The key. -/
  key : K
  /-- `address( key )` itself, or which of the forms of `pts_address`. -/
  form : Fin 5
deriving DecidableEq

/-- `authority`. -/
structure Authority (K : Type) where
  /-- `weight_threshold`. -/
  weightThreshold : ℕ
  /-- `account_auths`: the weights of accounts. -/
  accountAuths : List (AccountId × ℕ)
  /-- `key_auths`: the weights of keys. -/
  keyAuths : List (K × ℕ)
  /-- `address_auths`: the weights of addresses. -/
  addressAuths : List (Address K × ℕ)
  /-- An account has one weight. -/
  account_nodup : (accountAuths.map Prod.fst).Nodup
  /-- A key has one weight. -/
  key_nodup : (keyAuths.map Prod.fst).Nodup
  /-- An address has one weight. -/
  address_nodup : (addressAuths.map Prod.fst).Nodup

/-- `sign_state`, as `verify_authority` sets it up: with no `available_keys`. -/
structure SignState (K : Type) where
  /-- The keys of `provided_signatures`. -/
  provided : Finset K
  /-- The keys whose flag in `provided_signatures` is set. -/
  used : Finset K
  /-- `approved_by`. -/
  approvedBy : Finset AccountId
  /-- Whether a search has been given up at `max_recursion`; the source does not keep this. -/
  cutOff : Bool
  /-- Whether `signed_by` has read past the end of `provided_address_sigs`, after which the source
  promises nothing; here the address then counts as not signed for. -/
  pastEnd : Bool

theorem nodup_noAddresses {K : Type} : (([] : List (Address K × ℕ)).map Prod.fst).Nodup :=
  List.nodup_nil

/-! The instances that sorting a set of keys takes. -/

theorem isTrans_keys (K : Type) [LinearOrder K] : IsTrans K (· ≤ ·) := inferInstance

theorem antisymm_keys (K : Type) [LinearOrder K] : Std.Antisymm fun k k' : K ↦ k ≤ k' :=
  inferInstance

variable {K : Type} [DecidableEq K]

/-- The sum of two weights, as `uint32_t`. -/
def addWeight (total weight : ℕ) : ℕ := (total + weight) % 2 ^ 32

/-- How a loop of `check_authority` ends: it returns from the function, or it goes on with the
weight there is so far. -/
inductive Outcome where
  /-- `return`. -/
  | done (result : Bool)
  /-- The end of the loop. -/
  | total (weight : ℕ)

/-- `signed_by`, for a key. -/
def signedBy (k : K) (s : SignState K) : Bool × SignState K :=
  if k ∈ s.provided then (true, { s with used := insert k s.used }) else (false, s)

/-- `signed_by`, for an address. -/
def signedByAddress (a : Address K) (s : SignState K) : Bool × SignState K :=
  if a.key ∈ s.provided then (true, { s with used := insert a.key s.used })
  else (false, { s with pastEnd := true })

/-- The loops over `key_auths` and `address_auths`. -/
def checkSigned {X : Type} (signedBy : X → SignState K → Bool × SignState K) (threshold : ℕ) :
    List (X × ℕ) → ℕ → SignState K → Outcome × SignState K
  | [], total, s => (.total total, s)
  | (x, w) :: rest, total, s =>
    match signedBy x s with
    | (true, s) =>
      let total := addWeight total w
      if total ≥ threshold then (.done true, s) else checkSigned signedBy threshold rest total s
    | (false, s) => checkSigned signedBy threshold rest total s

/-- The loop over `account_auths`.  `descend` checks the active authority of an account; there is
none at `max_recursion`. -/
def checkAccounts (descend : Option (AccountId → SignState K → Bool × SignState K))
    (threshold : ℕ) : List (AccountId × ℕ) → ℕ → SignState K → Outcome × SignState K
  | [], total, s => (.total total, s)
  | (a, w) :: rest, total, s =>
    if a ∉ s.approvedBy then
      match descend with
      | none => (.done false, { s with cutOff := true })
      | some check =>
        match check a s with
        | (true, s) =>
          let s := { s with approvedBy := insert a s.approvedBy }
          let total := addWeight total w
          if total ≥ threshold then (.done true, s)
          else checkAccounts descend threshold rest total s
        | (false, s) => checkAccounts descend threshold rest total s
    else
      let total := addWeight total w
      if total ≥ threshold then (.done true, s)
      else checkAccounts descend threshold rest total s

/-- The body of `check_authority`. -/
def checkBody (descend : Option (AccountId → SignState K → Bool × SignState K)) :
    Option (Authority K) → SignState K → Bool × SignState K
  | none, s => (false, s)
  | some auth, s =>
    match checkSigned signedBy auth.weightThreshold auth.keyAuths 0 s with
    | (.done result, s) => (result, s)
    | (.total total, s) =>
      match checkSigned signedByAddress auth.weightThreshold auth.addressAuths total s with
      | (.done result, s) => (result, s)
      | (.total total, s) =>
        match checkAccounts descend auth.weightThreshold auth.accountAuths total s with
        | (.done result, s) => (result, s)
        | (.total total, s) => (decide (total ≥ auth.weightThreshold), s)

/-- `check_authority`, with `levels` more levels to go until `max_recursion`. -/
def checkAuthority (getActive : AccountId → Option (Authority K)) :
    ℕ → Option (Authority K) → SignState K → Bool × SignState K
  | 0 => checkBody none
  | levels + 1 => checkBody (some fun a ↦ checkAuthority getActive levels (getActive a))

/-! ## `verify_authority` -/

/-- What operations require. -/
structure RequiredAuthorities (K : Type) where
  /-- The accounts whose active authority is required. -/
  active : Finset AccountId
  /-- The accounts whose owner authority is required. -/
  owner : Finset AccountId
  /-- Other authorities. -/
  other : List (Authority K)

/-- `operation_get_required_authorities`, for a list of operations. -/
def requiredAuthorities {Op : Type} (required : Op → RequiredAuthorities K) (ops : List Op) :
    RequiredAuthorities K where
  active := ops.foldl (fun accounts op ↦ accounts ∪ (required op).active) ∅
  owner := ops.foldl (fun accounts op ↦ accounts ∪ (required op).owner) ∅
  other := ops.flatMap fun op ↦ (required op).other

/-- The exceptions of `verify_authority`. -/
inductive VerifyError where
  /-- `invalid_committee_approval`. -/
  | invalidCommitteeApproval
  /-- `tx_missing_other_auth`. -/
  | txMissingOtherAuth
  /-- `tx_missing_active_auth`. -/
  | txMissingActiveAuth
  /-- `tx_missing_owner_auth`. -/
  | txMissingOwnerAuth
  /-- `tx_irrelevant_sig`. -/
  | txIrrelevantSig
deriving DecidableEq

/-- An authority the operations require is missing. -/
def VerifyError.Missing : VerifyError → Prop
  | txMissingOtherAuth | txMissingActiveAuth | txMissingOwnerAuth => True
  | invalidCommitteeApproval | txIrrelevantSig => False

/-- Who there is, and how far a search goes. -/
structure Accounts (K : Type) where
  /-- `get_active`. -/
  getActive : AccountId → Option (Authority K)
  /-- `get_owner`. -/
  getOwner : AccountId → Option (Authority K)
  /-- `max_recursion`. -/
  maxRecursion : ℕ

/-- The keys and approvals at hand. -/
structure Approvals (K : Type) where
  /-- `sigs`. -/
  keys : Finset K
  /-- `active_aprovals`. -/
  active : Finset AccountId
  /-- `owner_approvals`. -/
  owner : Finset AccountId

namespace Accounts

variable (acc : Accounts K)

/-- `check_authority` for an authority at the top. -/
def check (auth : Option (Authority K)) (s : SignState K) : Bool × SignState K :=
  checkAuthority acc.getActive acc.maxRecursion auth s

/-- `check_authority( account_id_type id )`. -/
def checkAccount (id : AccountId) (s : SignState K) : Bool × SignState K :=
  if id ∈ s.approvedBy then (true, s) else acc.check (acc.getActive id) s

/-- The condition for an account whose active authority is required. -/
def checkActive (id : AccountId) (s : SignState K) : Bool × SignState K :=
  match acc.checkAccount id s with
  | (true, s) => (true, s)
  | (false, s) => acc.check (acc.getOwner id) s

/-- The condition for an account whose owner authority is required. -/
def checkOwner (owner : Finset AccountId) (id : AccountId) (s : SignState K) :
    Bool × SignState K :=
  if id ∈ owner then (true, s) else acc.check (acc.getOwner id) s

end Accounts

/-- A loop of `GRAPHENE_ASSERT`s: whether all of them hold. -/
def checkAll {X : Type} (check : X → SignState K → Bool × SignState K) :
    List X → SignState K → Bool × SignState K
  | [], s => (true, s)
  | x :: xs, s =>
    match check x s with
    | (true, s) => checkAll check xs s
    | (false, s) => (false, s)

/-- The `sign_state` `verify_authority` starts from. -/
def Approvals.signState (app : Approvals K) : SignState K where
  provided := app.keys
  used := ∅
  approvedBy := insert tempAccount (app.active ∪ app.owner)
  cutOff := false
  pastEnd := false

/-- `verify_authority`: the exception it throws, if it does, and the `sign_state` at the end. -/
def verifyAuthority (acc : Accounts K) (req : RequiredAuthorities K) (allowCommittee : Bool)
    (app : Approvals K) : Option VerifyError × SignState K :=
  let s := app.signState
  if !allowCommittee && committeeAccount ∈ req.active then (some .invalidCommitteeApproval, s)
  else
    match checkAll (fun auth ↦ acc.check (some auth)) req.other s with
    | (false, s) => (some .txMissingOtherAuth, s)
    | (true, s) =>
      match checkAll acc.checkActive (req.active.sort (· ≤ ·)) s with
      | (false, s) => (some .txMissingActiveAuth, s)
      | (true, s) =>
        match checkAll (acc.checkOwner app.owner) (req.owner.sort (· ≤ ·)) s with
        | (false, s) => (some .txMissingOwnerAuth, s)
        | (true, s) => (if s.provided ⊆ s.used then none else some .txIrrelevantSig, s)

end Graphene
