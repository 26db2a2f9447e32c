import Graphene.Accounts.AccountEvaluator

/-!
# The registry of special authorities

There is to be one `special_authority_object` for each account that has a special authority, and
none for any other.  Updating an account compares its special authorities before and after; creating
one looks at whether the operation carries any, be it the explicit `no_special_authority`.

* `State.Mirrors` — the registry has the entries it is to have.
* `special_authorities_mirrored` — it stays so as long as no account is created with
  `no_special_authority` as its only special authority.
* `special_authorities_stale` — what happens after one is.
-/

set_option autoImplicit false

namespace Graphene

namespace Registration

open Transitions

variable {K : Type}

/-! ## The registry -/

namespace SpecialAuthorityIndex

variable {x x' : SpecialAuthorityIndex} {a : AccountId}

theorem accounts_nodup (x : SpecialAuthorityIndex) : x.accounts.Nodup := x.account_nodup

theorem accounts_of_create (h : x.create a = some x') :
    a ∉ x.accounts ∧ x'.accounts = x.accounts ++ [a] := by
  rw [create] at h
  split at h
  · cases h
  · next hmem =>
    cases h
    exact ⟨hmem, by simp [accounts]⟩

theorem accounts_of_remove (h : x.remove a = some x') :
    a ∈ x.accounts ∧ x'.accounts = x.accounts.erase a := by
  rw [remove] at h
  split at h
  · next hmem =>
    cases h
    refine ⟨hmem, ?_⟩
    rw [accounts, accounts, List.erase_eq_eraseP', List.eraseP_map]
    congr 2
  · cases h

theorem create_eq_none : x.create a = none ↔ a ∈ x.accounts := by
  rw [create]
  split <;> simp_all

theorem remove_eq_none : x.remove a = none ↔ a ∉ x.accounts := by
  rw [remove]
  split <;> simp_all

/-- There is at most one entry for an account. -/
theorem count_accounts (x : SpecialAuthorityIndex) (a : AccountId) :
    x.accounts.count a = if a ∈ x.accounts then 1 else 0 :=
  x.accounts_nodup.count

end SpecialAuthorityIndex

/-- Whether there is such an account and it has a special authority. -/
def hasSpecialAuthority (accounts : List (AccountObject K)) (a : AccountId) : Bool :=
  accounts[a]?.any AccountObject.hasSpecialAuthority

/-- **The registry mirrors the accounts**: one entry for each account that has a special authority,
and none for any other. -/
def State.Mirrors (s : State K) : Prop :=
  ∀ a, s.specialAuthorities.accounts.count a = if hasSpecialAuthority s.accounts a then 1 else 0

theorem State.mirrors_iff {s : State K} :
    s.Mirrors ↔ ∀ a, a ∈ s.specialAuthorities.accounts ↔ hasSpecialAuthority s.accounts a := by
  refine forall_congr' fun a ↦ ?_
  rw [SpecialAuthorityIndex.count_accounts]
  by_cases hmem : a ∈ s.specialAuthorities.accounts <;>
    by_cases hhas : hasSpecialAuthority s.accounts a <;> simp [hmem, hhas]

/-- The accounts that have a special authority, after one has been added. -/
theorem hasSpecialAuthority_append (accounts : List (AccountObject K)) (acct : AccountObject K)
    (a : ℕ) : hasSpecialAuthority (accounts ++ [acct]) a =
      if a = accounts.length then acct.hasSpecialAuthority else hasSpecialAuthority accounts a := by
  rw [hasSpecialAuthority, hasSpecialAuthority]
  by_cases hlt : a < accounts.length
  · rw [List.getElem?_append_left hlt, if_neg (by omega)]
  · rw [List.getElem?_append_right (by omega)]
    by_cases heq : a = accounts.length
    · simp [heq]
    · rw [if_neg heq, List.getElem?_eq_none (by simp; omega), List.getElem?_eq_none (by omega)]

/-- The accounts that have a special authority, after one has been changed. -/
theorem hasSpecialAuthority_set {accounts : List (AccountObject K)} {acct was : AccountObject K}
    {b : AccountId} (hb : accounts[b]? = some was) (a : AccountId) :
    hasSpecialAuthority (accounts.set b acct) a =
      if a = b then acct.hasSpecialAuthority else hasSpecialAuthority accounts a := by
  obtain ⟨hlt, -⟩ := List.getElem?_eq_some_iff.1 hb
  rw [hasSpecialAuthority, hasSpecialAuthority, List.getElem?_set]
  by_cases heq : a = b
  · simp [heq, hlt]
  · rw [if_neg (Ne.symm heq), if_neg heq]

/-! ## What the steps of an operation do -/

variable {s s' : State K} {a : AccountId}

theorem createSpecialAuthority_spec (h : s.createSpecialAuthority a = .ok s') :
    s'.accounts = s.accounts ∧
      ∀ b, b ∈ s'.specialAuthorities.accounts ↔ b ∈ s.specialAuthorities.accounts ∨ b = a := by
  rw [State.createSpecialAuthority] at h
  split at h
  · next x hx =>
    cases h
    refine ⟨rfl, fun b ↦ ?_⟩
    rw [(SpecialAuthorityIndex.accounts_of_create hx).2]
    simp
  · cases h

theorem createSpecialAuthority_eq_error {e : Failure}
    (h : s.createSpecialAuthority a = .error e) : a ∈ s.specialAuthorities.accounts := by
  rw [State.createSpecialAuthority] at h
  split at h
  · cases h
  · next hx => exact SpecialAuthorityIndex.create_eq_none.1 hx

theorem removeSpecialAuthority_spec (h : s.removeSpecialAuthority a = .ok s') :
    s'.accounts = s.accounts ∧
      ∀ b, b ∈ s'.specialAuthorities.accounts ↔ b ∈ s.specialAuthorities.accounts ∧ b ≠ a := by
  rw [State.removeSpecialAuthority] at h
  split at h
  · next x hx =>
    cases h
    refine ⟨rfl, fun b ↦ ?_⟩
    rw [(SpecialAuthorityIndex.accounts_of_remove hx).2,
      s.specialAuthorities.accounts_nodup.mem_erase_iff, and_comm]
  · cases h

theorem removeSpecialAuthority_eq_error {e : Failure}
    (h : s.removeSpecialAuthority a = .error e) : a ∉ s.specialAuthorities.accounts := by
  rw [State.removeSpecialAuthority] at h
  split at h
  · cases h
  · next hx => exact SpecialAuthorityIndex.remove_eq_none.1 hx

/-- The failure is one of the registry's. -/
def Failure.OfRegistry : Failure → Prop
  | refused _ => False
  | specialAuthorityNotUnique _ => True
  | specialAuthorityMissing _ => True

theorem account_eq_ok {acct : AccountObject K} :
    s.account a = .ok acct ↔ s.accounts[a]? = some acct := by
  rw [State.account]
  split <;> simp_all

/-- What a new account's special authorities are. -/
def AccountCreate.HasSpecialAuthority (o : AccountCreate K) : Prop :=
  (o.ownerSpecialAuthority.getD .noSpecialAuthority).which ≠
      SpecialAuthority.noSpecialAuthority.which ∨
    (o.activeSpecialAuthority.getD .noSpecialAuthority).which ≠
      SpecialAuthority.noSpecialAuthority.which

theorem createAccount_spec {o : AccountCreate K} (h : o.createAccount s = .ok s') :
    ∃ acct : AccountObject K, s'.accounts = s.accounts ++ [acct] ∧
      (acct.hasSpecialAuthority = true ↔ o.HasSpecialAuthority) ∧
      s'.specialAuthorities = s.specialAuthorities := by
  simp only [AccountCreate.createAccount, bind_eq_ok] at h
  obtain ⟨referrer, -, -, -, h⟩ := h
  cases h
  refine ⟨_, rfl, ?_, rfl⟩
  simp only [AccountObject.hasSpecialAuthority, AccountCreate.HasSpecialAuthority,
    Bool.or_eq_true, decide_eq_true_eq]

theorem countRegistered_spec (h : s.countRegistered = .ok s') :
    s'.accounts = s.accounts ∧ s'.specialAuthorities = s.specialAuthorities := by
  simp only [State.countRegistered, bind_eq_ok] at h
  obtain ⟨-, -, h⟩ := h
  cases h
  exact ⟨rfl, rfl⟩

theorem createBuyback_spec {bbo : BuybackAccountOptions} (h : s.createBuyback a bbo = .ok s') :
    s'.accounts = s.accounts ∧ s'.specialAuthorities = s.specialAuthorities := by
  simp only [State.createBuyback, bind_eq_ok] at h
  obtain ⟨-, -, asset, -, h⟩ := h
  cases h
  exact ⟨rfl, rfl⟩

/-! ## Creating an account -/

/-- The operation carries a special authority, of whichever kind. -/
def AccountCreate.CarriesSpecialAuthority (o : AccountCreate K) : Prop :=
  o.ownerSpecialAuthority.isSome = true ∨ o.activeSpecialAuthority.isSome = true

/-- Not all that the operation carries is `no_special_authority`. -/
def AccountCreate.NamesAuthority (o : AccountCreate K) : Prop :=
  o.CarriesSpecialAuthority → o.HasSpecialAuthority

/-- A special authority that an account has is one that the operation carries. -/
theorem AccountCreate.HasSpecialAuthority.carries {o : AccountCreate K}
    (h : o.HasSpecialAuthority) : o.CarriesSpecialAuthority := by
  rw [CarriesSpecialAuthority]
  rcases h with h | h
  · left
    cases howner : o.ownerSpecialAuthority with
    | none => simp [howner] at h
    | some auth => rfl
  · right
    cases hactive : o.activeSpecialAuthority with
    | none => simp [hactive] at h
    | some auth => rfl

namespace AccountCreate

variable {o : AccountCreate K}

theorem registerSpecialAuthority_spec (h : o.registerSpecialAuthority a s = .ok s') :
    s'.accounts = s.accounts ∧ ∀ b, b ∈ s'.specialAuthorities.accounts ↔
      b ∈ s.specialAuthorities.accounts ∨ o.CarriesSpecialAuthority ∧ b = a := by
  rw [registerSpecialAuthority] at h
  split at h
  · next hcarries =>
    obtain ⟨hacc, hreg⟩ := createSpecialAuthority_spec h
    have hcarries : o.CarriesSpecialAuthority := Bool.or_eq_true_iff.1 hcarries
    refine ⟨hacc, fun b ↦ ?_⟩
    rw [hreg, and_iff_right hcarries]
  · next hcarries =>
    cases h
    have hnot : ¬ o.CarriesSpecialAuthority := fun h ↦ hcarries (Bool.or_eq_true_iff.2 h)
    refine ⟨rfl, fun b ↦ ?_⟩
    rw [or_iff_left fun hand ↦ hnot hand.1]

theorem registerBuyback_spec (h : o.registerBuyback a s = .ok s') :
    s'.accounts = s.accounts ∧ s'.specialAuthorities = s.specialAuthorities := by
  rw [registerBuyback] at h
  split at h
  · exact createBuyback_spec h
  · cases h
    exact ⟨rfl, rfl⟩

/-- What creating an account does to the accounts and to the registry. -/
theorem doApply_spec (h : o.doApply s = .ok s') :
    ∃ acct : AccountObject K, s'.accounts = s.accounts ++ [acct] ∧
      (acct.hasSpecialAuthority = true ↔ o.HasSpecialAuthority) ∧
      ∀ b, b ∈ s'.specialAuthorities.accounts ↔
        b ∈ s.specialAuthorities.accounts ∨ o.CarriesSpecialAuthority ∧ b = s.accounts.length := by
  simp only [doApply, bind_eq_ok, within_eq_ok] at h
  obtain ⟨s₁, h₁, s₂, h₂, s₃, h₃, h₄⟩ := h
  obtain ⟨acct, hacct, hhas, hreg₁⟩ := createAccount_spec h₁
  obtain ⟨hacc₂, hreg₂⟩ := countRegistered_spec h₂
  obtain ⟨hacc₃, hreg₃⟩ := registerSpecialAuthority_spec h₃
  obtain ⟨hacc₄, hreg₄⟩ := registerBuyback_spec h₄
  refine ⟨acct, by rw [hacc₄, hacc₃, hacc₂, hacct], hhas, fun b ↦ ?_⟩
  rw [hreg₄, hreg₃, hreg₂, hreg₁]

/-- An account is created without a word from the registry, if that has no entry for it yet. -/
theorem mem_of_doApply_error {e : Failure} (he : e.OfRegistry) (h : o.doApply s = .error e) :
    s.accounts.length ∈ s.specialAuthorities.accounts := by
  simp only [doApply, bind_eq_error, within_eq_error, within_eq_ok] at h
  rcases h with ⟨why, -, rfl⟩ | ⟨s₁, h₁, ⟨why, -, rfl⟩ | ⟨s₂, h₂, h₃ | ⟨s₃, -, why, -, rfl⟩⟩⟩
  · exact he.elim
  · exact he.elim
  · obtain ⟨-, -, -, hreg₁⟩ := createAccount_spec h₁
    rw [registerSpecialAuthority] at h₃
    split at h₃
    · have hmem := createSpecialAuthority_eq_error h₃
      rwa [(countRegistered_spec h₂).2, hreg₁] at hmem
    · cases h₃
  · exact he.elim

/-- In a registry that mirrors the accounts, creating one keeps it so exactly if what the operation
carries is not `no_special_authority` alone. -/
theorem mirrors_iff (hs : s.Mirrors) (h : o.doApply s = .ok s') :
    s'.Mirrors ↔ o.NamesAuthority := by
  obtain ⟨acct, hacc, hhas, hreg⟩ := doApply_spec h
  rw [State.mirrors_iff] at hs ⊢
  simp only [hacc, hasSpecialAuthority_append, hreg, hs]
  constructor
  · intro hmirrors hcarries
    have hlast := hmirrors s.accounts.length
    rw [if_pos rfl] at hlast
    exact hhas.1 (hlast.1 (.inr ⟨hcarries, rfl⟩))
  · intro hnames b
    have hnew : ¬ hasSpecialAuthority s.accounts s.accounts.length = true := by
      simp [hasSpecialAuthority]
    by_cases heq : b = s.accounts.length
    · rw [if_pos heq, hhas, heq]
      constructor
      · rintro (hold | ⟨hcarries, -⟩)
        · exact (hnew hold).elim
        · exact hnames hcarries
      · intro hspecial
        exact .inr ⟨hspecial.carries, rfl⟩
    · rw [if_neg heq]
      simp [heq]

end AccountCreate

/-! ## Updating an account -/

namespace AccountUpdate

variable {o : AccountUpdate K}

/-- Updating an account keeps the registry mirroring the accounts. -/
theorem mirrors (hs : s.Mirrors) (h : o.doApply s = .ok s') : s'.Mirrors := by
  simp only [doApply, bind_eq_ok, within_eq_ok] at h
  obtain ⟨was, hwas, h⟩ := h
  have hget := account_eq_ok.1 hwas
  have hbefore : hasSpecialAuthority s.accounts o.account = was.hasSpecialAuthority := by
    rw [hasSpecialAuthority, hget, Option.any_some]
  rw [State.mirrors_iff] at hs ⊢
  intro b
  have hmem := hs b
  split at h
  · next hsa =>
    obtain ⟨hacc, hreg⟩ := removeSpecialAuthority_spec h
    rw [hacc, hreg, hasSpecialAuthority_set hget]
    split <;> simp_all
  · split at h
    · next hsa =>
      obtain ⟨hacc, hreg⟩ := createSpecialAuthority_spec h
      rw [hacc, hreg, hasSpecialAuthority_set hget]
      split <;> simp_all
    · cases h
      rw [hasSpecialAuthority_set hget]
      split
      · next hsa hsa' heq =>
        subst heq
        rw [hmem, hbefore]
        cases hold : was.hasSpecialAuthority <;> simp_all
      · exact hmem

/-- In a registry that mirrors the accounts, no update fails because of it. -/
theorem doApply_ne_error {e : Failure} (hs : s.Mirrors) (he : e.OfRegistry) :
    o.doApply s ≠ .error e := by
  intro h
  simp only [doApply, bind_eq_error, within_eq_error, within_eq_ok] at h
  rcases h with ⟨why, -, rfl⟩ | ⟨was, hwas, h⟩
  · exact he
  have hget := account_eq_ok.1 hwas
  have hmem := State.mirrors_iff.1 hs o.account
  rw [hasSpecialAuthority, hget, Option.any_some] at hmem
  split at h
  · next hsa =>
    have hmissing := removeSpecialAuthority_eq_error h
    simp_all
  · split at h
    · next hsa =>
      have htaken := createSpecialAuthority_eq_error h
      simp_all
    · cases h

end AccountUpdate

/-! ## Runs -/

/-- No account is created with `no_special_authority` as its only special authority. -/
def AccountOperation.NamesAuthority : AccountOperation K → Prop
  | .create o => o.NamesAuthority
  | .update _ => True

/-- The operation finds a registry that mirrors the accounts and leaves it so, and does not fail
because of it. -/
def MirrorsThroughout (s : State K) (op : AccountOperation K) : Prop :=
  s.Mirrors ∧ (attempt applyOperation s op).Mirrors ∧
    ∀ e : Failure, e.OfRegistry → applyOperation s op ≠ .error e

/-- What one operation does. -/
theorem mirrors_of_applyOperation {op : AccountOperation K} (hs : s.Mirrors)
    (h : applyOperation s op = .ok s') : s'.Mirrors ↔ op.NamesAuthority := by
  cases op with
  | create o =>
    simp only [applyOperation, bind_eq_ok, within_eq_ok] at h
    obtain ⟨-, -, -, -, happly⟩ := h
    exact AccountCreate.mirrors_iff hs happly
  | update o =>
    simp only [applyOperation, bind_eq_ok, within_eq_ok] at h
    obtain ⟨-, -, -, -, happly⟩ := h
    exact iff_of_true (AccountUpdate.mirrors hs happly) trivial

/-- No operation fails because of a registry that mirrors the accounts. -/
theorem applyOperation_ne_error {op : AccountOperation K} (hs : s.Mirrors) {e : Failure}
    (he : e.OfRegistry) : applyOperation s op ≠ .error e := by
  intro h
  cases op with
  | create o =>
    simp only [applyOperation, bind_eq_error, within_eq_error, within_eq_ok] at h
    rcases h with ⟨why, -, rfl⟩ | ⟨-, -, ⟨why, -, rfl⟩ | ⟨-, -, happly⟩⟩
    · exact he
    · exact he
    · have hmem := AccountCreate.mem_of_doApply_error he happly
      rw [State.mirrors_iff.1 hs] at hmem
      simp [hasSpecialAuthority] at hmem
  | update o =>
    simp only [applyOperation, bind_eq_error, within_eq_error, within_eq_ok] at h
    rcases h with ⟨why, -, rfl⟩ | ⟨-, -, ⟨why, -, rfl⟩ | ⟨-, -, happly⟩⟩
    · exact he
    · exact he
    · exact AccountUpdate.doApply_ne_error hs he happly

/-- The registry mirrors the accounts after an operation, applied or not. -/
theorem mirrors_attempt {op : AccountOperation K} (hs : s.Mirrors) (hop : op.NamesAuthority) :
    (attempt applyOperation s op).Mirrors :=
  attempt_induction hs fun _ h ↦ (mirrors_of_applyOperation hs h).2 hop

/-- **The registry mirrors the accounts along every run** that creates no account with
`no_special_authority` as its only special authority; and the first operation that does, and is
applied, breaks it. -/
theorem special_authorities_mirrored (s : State K) (ops : List (AccountOperation K))
    (hs : s.Mirrors) (hops : ∀ op ∈ ops, op.NamesAuthority) :
    Along applyOperation MirrorsThroughout s ops ∧
      ∀ op s', applyOperation (run applyOperation s ops) op = .ok s' →
        (s'.Mirrors ↔ op.NamesAuthority) := by
  constructor
  · refine Along.of_inv hs hops fun s op hinv hop ↦ ?_
    have hafter := mirrors_attempt hinv hop
    exact ⟨hafter, hinv, hafter, fun e he ↦ applyOperation_ne_error hinv he⟩
  · intro op s' h
    exact mirrors_of_applyOperation (run_inv hs hops fun _ _ ↦ mirrors_attempt) h

/-! ## An account with nothing but `no_special_authority` -/

/-- Any one key. -/
def oneKey : Authority ℕ where
  weightThreshold := 1
  accountAuths := []
  keyAuths := [(0, 1)]
  addressAuths := []
  account_nodup := List.nodup_nil
  key_nodup := List.nodup_singleton _
  address_nodup := nodup_noAddresses

/-- Options that vote for nothing. -/
def noVotes : AccountOptions ℕ := ⟨0, 0, 0, 0, []⟩

/-- A lifetime member. -/
def lifetimeMember (name : List Char) : AccountObject ℕ where
  membershipExpirationDate := maximumTime
  registrar := 0
  referrer := 0
  lifetimeReferrer := 0
  networkFeePercentage := 2000
  lifetimeReferrerFeePercentage := 3000
  referrerRewardsPercentage := 0
  name := name
  owner := oneKey
  active := oneKey
  options := noVotes
  statistics := 0
  ownerSpecialAuthority := .noSpecialAuthority
  activeSpecialAuthority := .noSpecialAuthority
  topNControlFlags := 0
  allowedAssets := none

/-- Two accounts without special authorities, and the core asset. -/
def twoMembers : State ℕ where
  accounts := [lifetimeMember "committee-account".toList, lifetimeMember "nathan".toList]
  statistics := [0, 1]
  specialAuthorities := ⟨[], 0, SpecialAuthorityIndex.id_lt_nil,
    SpecialAuthorityIndex.sorted_nil, List.nodup_nil⟩
  assets := [⟨0, none⟩]
  buybacks := []
  parameters := ⟨10, 1001, 1001, 2000, 3000, 1000, 4, 500000⟩
  accountsRegistered := 0
  headBlockTime := 0

/-- A new account, with such an owner special authority. -/
def createBob (auth : SpecialAuthority) : AccountOperation ℕ :=
  .create ⟨1, 1, 0, "bob".toList, oneKey, oneKey, noVotes, some auth, none, none⟩

/-- The new account sets its active special authority. -/
def updateBob (auth : SpecialAuthority) : AccountOperation ℕ :=
  .update ⟨2, none, none, none, none, some auth⟩

theorem twoMembers_mirrors : twoMembers.Mirrors := by
  refine State.mirrors_iff.2 fun a ↦ ?_
  match a with
  | 0 => decide
  | 1 => decide
  | n + 2 => simp [twoMembers, SpecialAuthorityIndex.accounts, hasSpecialAuthority]

theorem special_authorities_mirrored_bob :
    Along applyOperation MirrorsThroughout twoMembers
        [createBob (.topHolders 0 3), updateBob (.topHolders 0 5)] ∧
      ∀ op s', applyOperation (run applyOperation twoMembers
          [createBob (.topHolders 0 3), updateBob (.topHolders 0 5)]) op = .ok s' →
        (s'.Mirrors ↔ op.NamesAuthority) := by
  refine special_authorities_mirrored twoMembers _ twoMembers_mirrors fun op hop ↦ ?_
  simp only [List.mem_cons, List.not_mem_nil, or_false] at hop
  rcases hop with rfl | rfl
  · exact fun _ ↦ .inl (by decide)
  · trivial

/-- **Creating an account with `no_special_authority` breaks the registry**: the new account has an
entry without having a special authority, and can then never get one. -/
theorem special_authorities_stale :
    ∃ s', applyOperation twoMembers (createBob .noSpecialAuthority) = .ok s' ∧
      twoMembers.Mirrors ∧ ¬ s'.Mirrors ∧
      applyOperation s' (updateBob (.topHolders 0 3)) = .error (.specialAuthorityNotUnique 2) := by
  have hrun : (applyOperation twoMembers (createBob .noSpecialAuthority)).toOption.map (fun s' ↦
      (s'.specialAuthorities.accounts, hasSpecialAuthority s'.accounts 2,
        failure (applyOperation s' (updateBob (.topHolders 0 3))))) =
      some ([2], false, some (.specialAuthorityNotUnique 2)) := by
    decide +kernel
  cases hcreate : applyOperation twoMembers (createBob .noSpecialAuthority) with
  | error e => simp [hcreate, Except.toOption] at hrun
  | ok s' =>
    simp only [hcreate, Except.toOption, Option.map_some, Option.some.injEq, Prod.mk.injEq,
      failure_eq_some] at hrun
    obtain ⟨hentry, hhas, hfail⟩ := hrun
    refine ⟨s', rfl, twoMembers_mirrors, fun hmirrors ↦ ?_, hfail⟩
    have hbob := (State.mirrors_iff.1 hmirrors 2).1 (by simp [hentry])
    simp [hhas] at hbob

end Registration

end Graphene
