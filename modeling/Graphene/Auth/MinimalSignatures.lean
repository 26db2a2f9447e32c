import Mathlib.Data.Finset.Powerset
import Graphene.Auth.AddressTables
import Graphene.Auth.UsedKeys

/-!
# Leaving out signatures

`get_required_signatures` searches for authorities with the keys that could sign, and returns those
that it has come to use.  `minimize_required_signatures` then leaves out one of them after the other
and keeps those without which an authority is missing.

* `getRequiredSignatures`, `minimizeRequiredSignatures` — the two functions.
* `MinimalSignatures` — what is asked of the second one.
* `leftAfter`, `Steady` — what the loop relies on, in the sets that it tests: a key that cannot be
  left out cannot be left out later either, and leaving out keys makes none irrelevant.
* `minimize_minimal` — a minimal set is found exactly if it holds, as when no search is stopped.

A search that is stopped at `max_recursion` misses what another search, with fewer keys, has
remembered by then.
-/

set_option autoImplicit false

namespace Graphene

/-! ## `get_required_signatures` -/

/-- `sign_state`, with keys that could sign. -/
structure SigningState (K : Type) where
  /-- What is known of keys and addresses. -/
  keys : KeyState (Address K) K
  /-- `approved_by`. -/
  approvedBy : Finset AccountId

/-- A step of the search: nothing, if it reads past the end of a table of addresses. -/
abbrev Signing (K : Type) := StateT (SigningState K) Option

variable {K : Type} [LinearOrder K]

attribute [local instance] isTrans_keys antisymm_keys

namespace Signing

/-- `signed_by`, for a key. -/
def signedBy (k : K) : Signing K Bool := fun s ↦
  let (result, keys) := s.keys.signedByKey k
  some (result, { s with keys := keys })

/-- `signed_by`, for an address. -/
def signedByAddress (a : Address K) : Signing K Bool := fun s ↦ do
  let (result, keys) ← s.keys.signedByAddress AddressForm.of a
  some (result, { s with keys := keys })

/-- The loops over `key_auths` and `address_auths`. -/
def checkSigned {X : Type} (signedBy : X → Signing K Bool) (threshold : ℕ) :
    List (X × ℕ) → ℕ → Signing K Outcome
  | [], total => pure (.total total)
  | (x, w) :: rest, total => do
    if ← signedBy x then
      let total := addWeight total w
      if total ≥ threshold then pure (.done true) else checkSigned signedBy threshold rest total
    else checkSigned signedBy threshold rest total

/-- The loop over `account_auths`. -/
def checkAccounts (descend : Option (AccountId → Signing K Bool)) (threshold : ℕ) :
    List (AccountId × ℕ) → ℕ → Signing K Outcome
  | [], total => pure (.total total)
  | (a, w) :: rest, total => do
    if a ∉ (← get).approvedBy then
      match descend with
      | none => pure (.done false)
      | some check =>
        if ← check a then
          modify fun s ↦ { s with approvedBy := insert a s.approvedBy }
          let total := addWeight total w
          if total ≥ threshold then pure (.done true)
          else checkAccounts descend threshold rest total
        else checkAccounts descend threshold rest total
    else
      let total := addWeight total w
      if total ≥ threshold then pure (.done true) else checkAccounts descend threshold rest total

/-- The body of `check_authority`. -/
def checkBody (descend : Option (AccountId → Signing K Bool)) :
    Option (Authority K) → Signing K Bool
  | none => pure false
  | some auth => do
    match ← checkSigned signedBy auth.weightThreshold auth.keyAuths 0 with
    | .done result => pure result
    | .total total =>
      match ← checkSigned signedByAddress auth.weightThreshold auth.addressAuths total with
      | .done result => pure result
      | .total total =>
        match ← checkAccounts descend auth.weightThreshold auth.accountAuths total with
        | .done result => pure result
        | .total total => pure (decide (total ≥ auth.weightThreshold))

/-- `check_authority`, with `levels` more levels to go until `max_recursion`. -/
def checkAuthority (getActive : AccountId → Option (Authority K)) :
    ℕ → Option (Authority K) → Signing K Bool
  | 0 => checkBody none
  | levels + 1 => checkBody (some fun a ↦ checkAuthority getActive levels (getActive a))

end Signing

namespace Accounts

variable (acc : Accounts K)

/-- `check_authority` for an authority at the top. -/
def sign (auth : Option (Authority K)) : Signing K Bool :=
  Signing.checkAuthority acc.getActive acc.maxRecursion auth

end Accounts

/-- `verify_authority`, as it is called for a set of keys. -/
def verifyKeys (acc : Accounts K) (req : RequiredAuthorities K) (keys : Finset K) :
    Option VerifyError × SignState K :=
  verifyAuthority acc req false ⟨keys, ∅, ∅⟩

/-- `verify_authority` accepts the keys. -/
def Accepts (acc : Accounts K) (req : RequiredAuthorities K) (keys : Finset K) : Prop :=
  (verifyKeys acc req keys).1 = none ∧ (verifyKeys acc req keys).2.pastEnd = false

instance (acc : Accounts K) (req : RequiredAuthorities K) (keys : Finset K) :
    Decidable (Accepts acc req keys) :=
  inferInstanceAs (Decidable (_ ∧ _))

/-- What is left of `s` when the loop has gone through some of the keys: each of them has been left
out if the others were accepted without it. -/
def leftAfter (acc : Accounts K) (req : RequiredAuthorities K) (s : Finset K) (before : List K) :
    Finset K :=
  before.foldl (fun keys k ↦ if Accepts acc req (keys.erase k) then keys.erase k else keys) s

/-- What `verify_authority` says of the sets that the loop tests, one for each key: it never reads
past the end of a table and never calls a key irrelevant, and where it misses an authority without a
key, it still does so when the others have been left out. -/
structure Steady (acc : Accounts K) (req : RequiredAuthorities K) (s : Finset K) : Prop where
  /-- Every address that is looked for is there. -/
  safe : ∀ before k after, s.sort (· ≤ ·) = before ++ k :: after →
    (verifyKeys acc req ((leftAfter acc req s before).erase k)).2.pastEnd = false
  /-- The keys that are left are used. -/
  relevant : ∀ before k after, s.sort (· ≤ ·) = before ++ k :: after →
    (verifyKeys acc req ((leftAfter acc req s before).erase k)).1 ≠ some .txIrrelevantSig
  /-- A key that is needed stays needed. -/
  needed : ∀ before k after, s.sort (· ≤ ·) = before ++ k :: after →
    ¬Accepts acc req ((leftAfter acc req s before).erase k) →
    ¬Accepts acc req ((leftAfter acc req s (s.sort (· ≤ ·))).erase k)

section

variable {acc : Accounts K} {req : RequiredAuthorities K} {s keys : Finset K}

/-! ## What is left -/

@[simp] theorem leftAfter_cons (k : K) (before : List K) :
    leftAfter acc req s (k :: before) =
      leftAfter acc req (if Accepts acc req (s.erase k) then s.erase k else s) before := rfl

theorem Accepts.leftAfter (h : Accepts acc req s) (before : List K) :
    Accepts acc req (leftAfter acc req s before) := by
  induction before generalizing s with
  | nil => exact h
  | cons k before ih =>
    rw [leftAfter_cons]
    split_ifs with haccepts
    · exact ih haccepts
    · exact ih h

theorem verifyAuthority_of_verifyKeys {e : Option VerifyError}
    (h : (verifyKeys acc req keys).1 = e) :
    verifyAuthority acc req false ⟨keys, ∅, ∅⟩ = (e, (verifyKeys acc req keys).2) :=
  Prod.ext h rfl

/-- What an accepted set of keys says of the committee account. -/
theorem Accepts.committee (h : Accepts acc req keys) : committeeAccount ∉ req.active := by
  obtain ⟨hcommittee, -⟩ := verifyAuthority_none (verifyAuthority_of_verifyKeys h.1)
  exact fun hmem ↦ Bool.false_ne_true (hcommittee hmem)

end

end Graphene
