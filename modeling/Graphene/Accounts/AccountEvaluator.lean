import Mathlib.Data.Finset.Sort
import Graphene.Auth.Authority
import Graphene.Ledger.Fees
import Graphene.Lib.Transitions

/-!
# Creating and updating accounts

`account_create_evaluator` and `account_update_evaluator`, with what they read: the chain
parameters, the accounts, the assets, and the registry of the accounts that have a special
authority.  `special_authority_object` is unique by account; creating a second one for an account
fails, and removing one that is not there is caught by an assertion.

* `SpecialAuthorityIndex` — the registry; its objects are sorted by id and unique by account.
* `AccountCreate.validate`, `AccountCreate.doEvaluate`, `AccountCreate.doApply`, and the same of
  `AccountUpdate`.
* `applyOperation` — the whole of an operation, and why it fails.

Accounts and assets are never removed, so that the instance of one is its place in the list.
-/

set_option autoImplicit false

namespace Graphene

namespace Registration

open Transitions

/-! ## The objects -/

/-- `special_authority`. -/
inductive SpecialAuthority where
  /-- `no_special_authority`. -/
  | noSpecialAuthority
  /-- `top_holders_special_authority`. -/
  | topHolders (asset : AssetId) (numTopHolders : ℕ)
deriving DecidableEq

/-- `special_authority::which`. -/
def SpecialAuthority.which : SpecialAuthority → ℕ
  | noSpecialAuthority => 0
  | topHolders .. => 1

/-- The types of `vote_id_type`. -/
inductive VoteType where
  /-- `committee`. -/
  | committee
  /-- `witness`. -/
  | witness
  /-- `worker`. -/
  | worker
deriving DecidableEq

/-- `account_options`. -/
structure AccountOptions (K : Type) where
  /-- `memo_key`. -/
  memoKey : K
  /-- `voting_account`. -/
  votingAccount : AccountId
  /-- `num_witness`. -/
  numWitness : ℕ
  /-- `num_committee`. -/
  numCommittee : ℕ
  /-- `votes`, in their order. -/
  votes : List (VoteType × ℕ)

/-- `buyback_account_options`. -/
structure BuybackAccountOptions where
  /-- `asset_to_buy`. -/
  assetToBuy : AssetId
  /-- `asset_to_buy_issuer`. -/
  assetToBuyIssuer : AccountId
  /-- `markets`. -/
  markets : Finset AssetId

/-- `account_object`, as far as an account is created and updated. -/
structure AccountObject (K : Type) where
  /-- `membership_expiration_date`. -/
  membershipExpirationDate : ℕ
  /-- `registrar`. -/
  registrar : AccountId
  /-- `referrer`. -/
  referrer : AccountId
  /-- `lifetime_referrer`. -/
  lifetimeReferrer : AccountId
  /-- `network_fee_percentage`. -/
  networkFeePercentage : ℕ
  /-- `lifetime_referrer_fee_percentage`. -/
  lifetimeReferrerFeePercentage : ℕ
  /-- `referrer_rewards_percentage`. -/
  referrerRewardsPercentage : ℕ
  /-- `name`. -/
  name : List Char
  /-- `owner`. -/
  owner : Authority K
  /-- `active`. -/
  active : Authority K
  /-- `options`. -/
  options : AccountOptions K
  /-- `statistics`. -/
  statistics : ℕ
  /-- `owner_special_authority`. -/
  ownerSpecialAuthority : SpecialAuthority
  /-- `active_special_authority`. -/
  activeSpecialAuthority : SpecialAuthority
  /-- `top_n_control_flags`. -/
  topNControlFlags : ℕ
  /-- `allowed_assets`. -/
  allowedAssets : Option (Finset AssetId)

/-- `time_point_sec::maximum()`. -/
def maximumTime : ℕ := 2 ^ 32 - 1

/-- `is_lifetime_member`. -/
def AccountObject.isLifetimeMember {K : Type} (a : AccountObject K) : Bool :=
  a.membershipExpirationDate = maximumTime

/-- `is_basic_account`. -/
def AccountObject.isBasicAccount {K : Type} (a : AccountObject K) (now : ℕ) : Bool :=
  now > a.membershipExpirationDate

/-- `is_member`. -/
def AccountObject.isMember {K : Type} (a : AccountObject K) (now : ℕ) : Bool :=
  !a.isBasicAccount now

/-- `has_special_authority`. -/
def AccountObject.hasSpecialAuthority {K : Type} (a : AccountObject K) : Bool :=
  a.ownerSpecialAuthority.which ≠ SpecialAuthority.noSpecialAuthority.which ||
    a.activeSpecialAuthority.which ≠ SpecialAuthority.noSpecialAuthority.which

/-- `asset_object`, as far as buyback accounts go. -/
structure AssetObject where
  /-- `issuer`. -/
  issuer : AccountId
  /-- `buyback_account`. -/
  buybackAccount : Option AccountId

/-- `special_authority_object`. -/
structure SpecialAuthorityObject where
  /-- The instance of `id`. -/
  id : ℕ
  /-- `account`. -/
  account : AccountId
deriving DecidableEq

/-- `special_authority_index`: its objects, by id. -/
structure SpecialAuthorityIndex where
  /-- The objects. -/
  objects : List SpecialAuthorityObject
  /-- The instance of the next id. -/
  nextId : ℕ
  /-- The ids are given out in order. -/
  id_lt : ∀ o ∈ objects, o.id < nextId
  /-- `by_id`. -/
  sorted : objects.Pairwise fun o o' ↦ o.id < o'.id
  /-- `by_account`. -/
  account_nodup : (objects.map SpecialAuthorityObject.account).Nodup

namespace SpecialAuthorityIndex

theorem id_lt_nil : ∀ o ∈ ([] : List SpecialAuthorityObject), o.id < 0 := List.forall_mem_nil _

theorem sorted_nil : ([] : List SpecialAuthorityObject).Pairwise fun o o' ↦ o.id < o'.id :=
  List.Pairwise.nil

/-- The accounts that have an entry, one for each. -/
def accounts (x : SpecialAuthorityIndex) : List AccountId :=
  x.objects.map SpecialAuthorityObject.account

/-- `create< special_authority_object >`: there may not be one for the account. -/
def create (x : SpecialAuthorityIndex) (a : AccountId) : Option SpecialAuthorityIndex :=
  if h : a ∈ x.accounts then none
  else some
    { objects := x.objects ++ [⟨x.nextId, a⟩]
      nextId := x.nextId + 1
      id_lt := by
        intro o ho
        rcases List.mem_append.1 ho with ho | ho
        · exact Nat.lt_succ_of_lt (x.id_lt o ho)
        · simp_all
      sorted := by
        refine List.pairwise_append.2 ⟨x.sorted, List.pairwise_singleton .., ?_⟩
        intro o ho o' ho'
        obtain rfl := List.mem_singleton.1 ho'
        exact x.id_lt o ho
      account_nodup := by
        rw [List.map_append, List.nodup_append]
        refine ⟨x.account_nodup, List.nodup_singleton _, ?_⟩
        rintro b hb b' hb' rfl
        have heq : b = a := List.mem_singleton.1 hb'
        exact h (heq ▸ hb) }

/-- `remove` of what `find` in `by_account` gives; there has to be one. -/
def remove (x : SpecialAuthorityIndex) (a : AccountId) : Option SpecialAuthorityIndex :=
  if a ∈ x.accounts then some
    { objects := x.objects.eraseP (·.account = a)
      nextId := x.nextId
      id_lt := fun o ho ↦ x.id_lt o (List.mem_of_mem_eraseP ho)
      sorted := x.sorted.sublist List.eraseP_sublist
      account_nodup := x.account_nodup.sublist (List.eraseP_sublist.map _) }
  else none

end SpecialAuthorityIndex

/-- The chain parameters that the evaluators read. -/
structure ChainParameters where
  /-- `maximum_authority_membership`. -/
  maximumAuthorityMembership : ℕ
  /-- `maximum_witness_count`. -/
  maximumWitnessCount : ℕ
  /-- `maximum_committee_count`. -/
  maximumCommitteeCount : ℕ
  /-- `network_percent_of_fee`. -/
  networkPercentOfFee : ℕ
  /-- `lifetime_referrer_percent_of_fee`. -/
  lifetimeReferrerPercentOfFee : ℕ
  /-- `accounts_per_fee_scale`. -/
  accountsPerFeeScale : ℕ
  /-- `account_fee_scale_bitshifts`. -/
  accountFeeScaleBitshifts : ℕ
  /-- `basic_fee` of `account_create_operation`. -/
  basicFee : ℕ

/-- What the evaluators read and change. -/
structure State (K : Type) where
  /-- The accounts, by instance. -/
  accounts : List (AccountObject K)
  /-- The owner of each `account_statistics_object`. -/
  statistics : List AccountId
  /-- The special authorities. -/
  specialAuthorities : SpecialAuthorityIndex
  /-- The assets, by instance. -/
  assets : List AssetObject
  /-- `asset_to_buy` of each `buyback_object`, which is unique by it. -/
  buybacks : List AssetId
  /-- `get_global_properties().parameters`. -/
  parameters : ChainParameters
  /-- `accounts_registered_this_interval`. -/
  accountsRegistered : ℕ
  /-- `head_block_time()`. -/
  headBlockTime : ℕ

/-! ## The operations -/

/-- `account_create_operation`, without its fee. -/
structure AccountCreate (K : Type) where
  /-- `registrar`, who pays the fee. -/
  registrar : AccountId
  /-- `referrer`. -/
  referrer : AccountId
  /-- `referrer_percent`. -/
  referrerPercent : ℕ
  /-- `name`. -/
  name : List Char
  /-- `owner`. -/
  owner : Authority K
  /-- `active`. -/
  active : Authority K
  /-- `options`. -/
  options : AccountOptions K
  /-- `owner_special_authority` of `extensions`. -/
  ownerSpecialAuthority : Option SpecialAuthority
  /-- `active_special_authority` of `extensions`. -/
  activeSpecialAuthority : Option SpecialAuthority
  /-- `buyback_options` of `extensions`. -/
  buybackOptions : Option BuybackAccountOptions

/-- `account_update_operation`, without its fee. -/
structure AccountUpdate (K : Type) where
  /-- `account`, who pays the fee. -/
  account : AccountId
  /-- `owner`. -/
  owner : Option (Authority K)
  /-- `active`. -/
  active : Option (Authority K)
  /-- `new_options`. -/
  newOptions : Option (AccountOptions K)
  /-- `owner_special_authority` of `extensions`. -/
  ownerSpecialAuthority : Option SpecialAuthority
  /-- `active_special_authority` of `extensions`. -/
  activeSpecialAuthority : Option SpecialAuthority

/-- The operations on accounts. -/
inductive AccountOperation (K : Type) where
  /-- `account_create_operation`. -/
  | create (o : AccountCreate K)
  /-- `account_update_operation`. -/
  | update (o : AccountUpdate K)

/-- The assertions of `validate`, `do_evaluate` and `do_apply`, but for those on the special
authorities. -/
inductive Refusal where
  /-- `validate` fails. -/
  | invalid
  /-- `get` of an object that does not exist. -/
  | notFound
  /-- "Invalid proxy account specified." -/
  | invalidProxy
  /-- "Only Lifetime members may register an account." -/
  | registrarNotLifetime
  /-- "The referrer must be either a lifetime or annual subscriber." -/
  | referrerNotMember
  /-- `account_create_max_auth_exceeded` and `account_update_max_auth_exceeded`. -/
  | maxAuthExceeded
  /-- `account_create_auth_account_not_found` and `account_update_auth_account_not_found`. -/
  | authAccountNotFound
  /-- `account_create_buyback_incorrect_issuer`. -/
  | buybackIncorrectIssuer
  /-- `account_create_buyback_already_exists`. -/
  | buybackAlreadyExists
  /-- `account_create_buyback_too_many_markets`. -/
  | buybackTooManyMarkets
  /-- "Voted for more witnesses than currently allowed" -/
  | tooManyWitnesses
  /-- "Voted for more committee members than currently allowed" -/
  | tooManyCommittee
  /-- The name is taken. -/
  | nameTaken
  /-- `accounts_per_fee_scale` is zero, and the remainder traps. -/
  | divisionByZero
  /-- "Could not create object! Most likely a uniqueness constraint is violated.", of a
  `buyback_object`. -/
  | buybackNotUnique
deriving DecidableEq

/-- Why an operation is not applied. -/
inductive Failure where
  /-- One of the other assertions. -/
  | refused (why : Refusal)
  /-- "Could not create object! Most likely a uniqueness constraint is violated.", of the
  `special_authority_object` of an account. -/
  | specialAuthorityNotUnique (account : AccountId)
  /-- `assert( sa_it != sa_idx.end() )`. -/
  | specialAuthorityMissing (account : AccountId)
deriving DecidableEq

/-! ## `validate` -/

variable {K : Type}

/-- `account_options::validate`: what is left to vote for. -/
def AccountOptions.needed (o : AccountOptions K) : ℕ × ℕ :=
  o.votes.foldl (fun needed id ↦
    if id.1 = .witness ∧ needed.1 ≠ 0 then (needed.1 - 1, needed.2)
    else if id.1 = .committee ∧ needed.2 ≠ 0 then (needed.1, needed.2 - 1)
    else needed) (o.numWitness, o.numCommittee)

/-- `account_options::validate`. -/
def AccountOptions.validate (o : AccountOptions K) : Bool := o.needed = (0, 0)

/-- `validate_special_authority`. -/
def SpecialAuthority.validate : SpecialAuthority → Bool
  | noSpecialAuthority => true
  | topHolders _ numTopHolders => numTopHolders > 0

/-- `num_auths`. -/
def numAuths (a : Authority K) : ℕ :=
  a.accountAuths.length + a.keyAuths.length + a.addressAuths.length

/-- `is_impossible`. -/
def isImpossible (a : Authority K) : Bool :=
  ((a.accountAuths.map Prod.snd).sum + (a.keyAuths.map Prod.snd).sum +
    (a.addressAuths.map Prod.snd).sum) % 2 ^ 64 < a.weightThreshold

/-- `GRAPHENE_NULL_ACCOUNT`. -/
def nullAccount : AccountId := 3

/-- Being `null_authority()`. -/
def isNullAuthority (a : Authority K) : Bool :=
  a.weightThreshold = 1 ∧ a.accountAuths = [(nullAccount, 1)] ∧ a.keyAuths.isEmpty ∧
    a.addressAuths.isEmpty

/-- What `validate` asks of an authority. -/
def validateAuthority (a : Authority K) : Bool :=
  numAuths a ≠ 0 ∧ a.addressAuths.isEmpty ∧ !isImpossible a

/-- A label of a name in `is_valid_name`. -/
def isValidLabel (label : List Char) : Bool :=
  3 ≤ label.length && label.head?.any Char.isLower &&
    label.getLast?.any (fun c ↦ c.isLower || c.isDigit) &&
    (label.drop 1).dropLast.all fun c ↦ c.isLower || c.isDigit || c = '-'

/-- `is_valid_name`. -/
def isValidName (name : List Char) : Bool :=
  3 ≤ name.length && name.length ≤ 63 && (name.splitOn '.').all isValidLabel

/-- `GRAPHENE_100_PERCENT`. -/
def hundredPercentOfFee : ℕ := 10000

/-- `account_create_operation::validate`. -/
def AccountCreate.validate (o : AccountCreate K) : Bool :=
  isValidName o.name && o.referrerPercent ≤ hundredPercentOfFee && validateAuthority o.owner &&
    validateAuthority o.active && o.options.validate &&
    o.ownerSpecialAuthority.all SpecialAuthority.validate &&
    o.activeSpecialAuthority.all SpecialAuthority.validate &&
    o.buybackOptions.all fun bbo ↦
      o.ownerSpecialAuthority.isNone && o.activeSpecialAuthority.isNone &&
        isNullAuthority o.owner && isNullAuthority o.active && bbo.markets.card > 0 &&
        bbo.assetToBuy ∉ bbo.markets

/-- `account_update_operation::validate`. -/
def AccountUpdate.validate (o : AccountUpdate K) : Bool :=
  o.account ≠ tempAccount && o.account ≠ committeeAccount &&
    (o.owner.isSome || o.active.isSome || o.newOptions.isSome || o.ownerSpecialAuthority.isSome ||
      o.activeSpecialAuthority.isSome) &&
    o.owner.all validateAuthority && o.active.all validateAuthority &&
    o.newOptions.all AccountOptions.validate &&
    o.ownerSpecialAuthority.all SpecialAuthority.validate &&
    o.activeSpecialAuthority.all SpecialAuthority.validate

/-! ## `do_evaluate` -/

namespace State

variable (s : State K)

/-- `get` of an account. -/
def account (a : AccountId) : Except Refusal (AccountObject K) :=
  match s.accounts[a]? with
  | some acct => .ok acct
  | none => .error .notFound

/-- `get` of an asset. -/
def asset (a : AssetId) : Except Refusal AssetObject :=
  match s.assets[a]? with
  | some asset => .ok asset
  | none => .error .notFound

/-- `verify_authority_accounts`. -/
def verifyAuthorityAccounts (a : Authority K) : Except Refusal Unit := do
  check (numAuths a ≤ s.parameters.maximumAuthorityMembership) .maxAuthExceeded
  check (a.accountAuths.all fun acnt ↦ s.accounts[acnt.1]?.isSome) .authAccountNotFound

/-- `verify_account_votes`. -/
def verifyAccountVotes (o : AccountOptions K) : Except Refusal Unit := do
  check (o.numWitness ≤ s.parameters.maximumWitnessCount) .tooManyWitnesses
  check (o.numCommittee ≤ s.parameters.maximumCommitteeCount) .tooManyCommittee

/-- `evaluate_special_authority`: the asset has to exist. -/
def evaluateSpecialAuthority : SpecialAuthority → Except Refusal Unit
  | .noSpecialAuthority => .ok ()
  | .topHolders asset _ => do
    let _ ← s.asset asset
    return ()

/-- `GRAPHENE_DEFAULT_MAX_BUYBACK_MARKETS`. -/
def maxBuybackMarkets : ℕ := 4

/-- `evaluate_buyback_account_options`. -/
def evaluateBuybackAccountOptions (bbo : BuybackAccountOptions) : Except Refusal Unit := do
  let a ← s.asset bbo.assetToBuy
  check (a.issuer = bbo.assetToBuyIssuer) .buybackIncorrectIssuer
  check a.buybackAccount.isNone .buybackAlreadyExists
  check (bbo.markets.card < maxBuybackMarkets) .buybackTooManyMarkets

/-- Evaluate what there is in an `optional`. -/
def evaluateOptional {X : Type} (evaluate : X → Except Refusal Unit) : Option X →
    Except Refusal Unit
  | some x => evaluate x
  | none => .ok ()

end State

/-- `account_create_evaluator::do_evaluate`; the fee payer is found before it. -/
def AccountCreate.doEvaluate (o : AccountCreate K) (s : State K) : Except Refusal Unit := do
  let feePayingAccount ← s.account o.registrar
  check s.accounts[o.options.votingAccount]?.isSome .invalidProxy
  check feePayingAccount.isLifetimeMember .registrarNotLifetime
  let referrer ← s.account o.referrer
  check (referrer.isMember s.headBlockTime) .referrerNotMember
  s.verifyAuthorityAccounts o.owner
  s.verifyAuthorityAccounts o.active
  State.evaluateOptional s.evaluateSpecialAuthority o.ownerSpecialAuthority
  State.evaluateOptional s.evaluateSpecialAuthority o.activeSpecialAuthority
  State.evaluateOptional s.evaluateBuybackAccountOptions o.buybackOptions
  s.verifyAccountVotes o.options
  check (o.name.isEmpty || s.accounts.all fun a ↦ a.name ≠ o.name) .nameTaken

/-- `account_update_evaluator::do_evaluate`. -/
def AccountUpdate.doEvaluate (o : AccountUpdate K) (s : State K) : Except Refusal Unit := do
  State.evaluateOptional s.verifyAuthorityAccounts o.owner
  State.evaluateOptional s.verifyAuthorityAccounts o.active
  State.evaluateOptional s.evaluateSpecialAuthority o.ownerSpecialAuthority
  State.evaluateOptional s.evaluateSpecialAuthority o.activeSpecialAuthority
  let _ ← s.account o.account
  State.evaluateOptional s.verifyAccountVotes o.newOptions

/-! ## `do_apply` -/

/-- `create< account_object >`, and the statistics object that is created on the way. -/
def AccountCreate.createAccount (o : AccountCreate K) (s : State K) :
    Except Refusal (State K) := do
  let referrer ← s.account o.referrer
  let acct : AccountObject K :=
    { membershipExpirationDate := 0
      registrar := o.registrar
      referrer := o.referrer
      lifetimeReferrer := referrer.lifetimeReferrer
      networkFeePercentage := s.parameters.networkPercentOfFee
      lifetimeReferrerFeePercentage := s.parameters.lifetimeReferrerPercentOfFee
      referrerRewardsPercentage := o.referrerPercent
      name := o.name
      owner := o.owner
      active := o.active
      options := o.options
      statistics := s.statistics.length
      ownerSpecialAuthority := o.ownerSpecialAuthority.getD .noSpecialAuthority
      activeSpecialAuthority := o.activeSpecialAuthority.getD .noSpecialAuthority
      topNControlFlags := 0
      allowedAssets := o.buybackOptions.map fun bbo ↦ insert bbo.assetToBuy bbo.markets }
  check (s.accounts.all fun a ↦ a.name ≠ o.name) .nameTaken
  return { s with
    accounts := s.accounts ++ [acct]
    statistics := s.statistics ++ [s.accounts.length] }

/-- `++accounts_registered_this_interval`, which now and then raises the fee. -/
def State.countRegistered (s : State K) : Except Refusal (State K) := do
  let registered := (s.accountsRegistered + 1) % 2 ^ 32
  check (s.parameters.accountsPerFeeScale ≠ 0) .divisionByZero
  let fee := if registered % s.parameters.accountsPerFeeScale = 0 then
      s.parameters.basicFee * 2 ^ s.parameters.accountFeeScaleBitshifts % 2 ^ 64
    else s.parameters.basicFee
  return { s with
    accountsRegistered := registered
    parameters := { s.parameters with basicFee := fee } }

/-- `create< special_authority_object >`. -/
def State.createSpecialAuthority (s : State K) (a : AccountId) : Except Failure (State K) :=
  match s.specialAuthorities.create a with
  | some x => .ok { s with specialAuthorities := x }
  | none => .error (.specialAuthorityNotUnique a)

/-- `remove` of the `special_authority_object` of an account. -/
def State.removeSpecialAuthority (s : State K) (a : AccountId) : Except Failure (State K) :=
  match s.specialAuthorities.remove a with
  | some x => .ok { s with specialAuthorities := x }
  | none => .error (.specialAuthorityMissing a)

/-- `create< buyback_object >`, and `modify` of the asset. -/
def State.createBuyback (s : State K) (a : AccountId) (bbo : BuybackAccountOptions) :
    Except Refusal (State K) := do
  check (bbo.assetToBuy ∉ s.buybacks) .buybackNotUnique
  let asset ← s.asset bbo.assetToBuy
  return { s with
    buybacks := s.buybacks ++ [bbo.assetToBuy]
    assets := s.assets.set bbo.assetToBuy { asset with buybackAccount := some a } }

/-- The special authority's part of `account_create_evaluator::do_apply`. -/
def AccountCreate.registerSpecialAuthority (o : AccountCreate K) (a : AccountId) (s : State K) :
    Except Failure (State K) :=
  if o.ownerSpecialAuthority.isSome || o.activeSpecialAuthority.isSome then
    s.createSpecialAuthority a
  else .ok s

/-- The buyback's part of `account_create_evaluator::do_apply`. -/
def AccountCreate.registerBuyback (o : AccountCreate K) (a : AccountId) (s : State K) :
    Except Refusal (State K) :=
  match o.buybackOptions with
  | some bbo => s.createBuyback a bbo
  | none => .ok s

/-- `account_create_evaluator::do_apply`. -/
def AccountCreate.doApply (o : AccountCreate K) (s : State K) : Except Failure (State K) := do
  let a := s.accounts.length
  let s ← within .refused (o.createAccount s)
  let s ← within .refused s.countRegistered
  let s ← o.registerSpecialAuthority a s
  within .refused (o.registerBuyback a s)

/-- What `account_update_evaluator::do_apply` makes of the account. -/
def AccountUpdate.updated (o : AccountUpdate K) (a : AccountObject K) : AccountObject K :=
  { a with
    owner := o.owner.getD a.owner
    active := o.active.getD a.active
    options := o.newOptions.getD a.options
    ownerSpecialAuthority := o.ownerSpecialAuthority.getD a.ownerSpecialAuthority
    activeSpecialAuthority := o.activeSpecialAuthority.getD a.activeSpecialAuthority
    topNControlFlags :=
      if o.owner.isSome || o.active.isSome || o.ownerSpecialAuthority.isSome ||
        o.activeSpecialAuthority.isSome then 0 else a.topNControlFlags }

/-- `account_update_evaluator::do_apply`. -/
def AccountUpdate.doApply (o : AccountUpdate K) (s : State K) : Except Failure (State K) := do
  let a ← within .refused (s.account o.account)
  let saBefore := a.hasSpecialAuthority
  let saAfter := (o.updated a).hasSpecialAuthority
  let s := { s with accounts := s.accounts.set o.account (o.updated a) }
  if saBefore && !saAfter then s.removeSpecialAuthority o.account
  else if !saBefore && saAfter then s.createSpecialAuthority o.account
  else .ok s

/-! ## The whole of an operation -/

/-- An operation, from `validate` to `do_apply`. -/
def applyOperation (s : State K) : AccountOperation K → Except Failure (State K)
  | .create o => do
    within .refused (check o.validate .invalid)
    within .refused (o.doEvaluate s)
    o.doApply s
  | .update o => do
    within .refused (check o.validate .invalid)
    within .refused (o.doEvaluate s)
    o.doApply s

end Registration

end Graphene
