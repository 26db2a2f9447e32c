import Graphene.Proposals.Proposal
import Mathlib.Data.Finset.Option

/-!
# The accounts an operation impacts

Every operation of the chain, with the fields that decide which accounts have to authorize it and
which accounts it is listed for.

* `NonProposalOperation` — the operations that are not about proposals.
* `NonProposalOperation.required` — `operation_get_required_authorities`.
* `getImpactedAccounts` — `operation_get_impacted_accounts`, the visitor.
-/

set_option autoImplicit false

namespace Graphene

/-- The operations other than those about proposals, in the order of `operation`. -/
inductive NonProposalOperation (K : Type) where
  /-- `transfer_operation`: `from` and `to`. -/
  | transfer (sender recipient : AccountId)
  /-- `limit_order_create_operation`. -/
  | limitOrderCreate (seller : AccountId)
  /-- `limit_order_cancel_operation`. -/
  | limitOrderCancel (feePayingAccount : AccountId)
  /-- `call_order_update_operation`. -/
  | callOrderUpdate (fundingAccount : AccountId)
  /-- `fill_order_operation`. -/
  | fillOrder (accountId : AccountId)
  /-- `account_create_operation`; the issuer is that of `buyback_options`. -/
  | accountCreate (registrar referrer : AccountId) (owner active : Authority K)
    (assetToBuyIssuer : Option AccountId)
  /-- `account_update_operation`; the flag is `owner_special_authority.valid()`. -/
  | accountUpdate (account : AccountId) (owner active : Option (Authority K))
    (ownerSpecialAuthority : Bool)
  /-- `account_whitelist_operation`. -/
  | accountWhitelist (authorizingAccount accountToList : AccountId)
  /-- `account_upgrade_operation`. -/
  | accountUpgrade (accountToUpgrade : AccountId)
  /-- `account_transfer_operation`. -/
  | accountTransfer (accountId newOwner : AccountId)
  /-- `asset_create_operation`. -/
  | assetCreate (issuer : AccountId)
  /-- `asset_update_operation`. -/
  | assetUpdate (issuer : AccountId) (newIssuer : Option AccountId)
  /-- `asset_update_bitasset_operation`. -/
  | assetUpdateBitasset (issuer : AccountId)
  /-- `asset_update_feed_producers_operation`. -/
  | assetUpdateFeedProducers (issuer : AccountId)
  /-- `asset_issue_operation`. -/
  | assetIssue (issuer issueToAccount : AccountId)
  /-- `asset_reserve_operation`. -/
  | assetReserve (payer : AccountId)
  /-- `asset_fund_fee_pool_operation`. -/
  | assetFundFeePool (fromAccount : AccountId)
  /-- `asset_settle_operation`. -/
  | assetSettle (account : AccountId)
  /-- `asset_global_settle_operation`. -/
  | assetGlobalSettle (issuer : AccountId)
  /-- `asset_publish_feed_operation`. -/
  | assetPublishFeed (publisher : AccountId)
  /-- `witness_create_operation`. -/
  | witnessCreate (witnessAccount : AccountId)
  /-- `witness_update_operation`. -/
  | witnessUpdate (witnessAccount : AccountId)
  /-- `withdraw_permission_create_operation`. -/
  | withdrawPermissionCreate (withdrawFromAccount authorizedAccount : AccountId)
  /-- `withdraw_permission_update_operation`. -/
  | withdrawPermissionUpdate (withdrawFromAccount authorizedAccount : AccountId)
  /-- `withdraw_permission_claim_operation`. -/
  | withdrawPermissionClaim (withdrawFromAccount withdrawToAccount : AccountId)
  /-- `withdraw_permission_delete_operation`. -/
  | withdrawPermissionDelete (withdrawFromAccount authorizedAccount : AccountId)
  /-- `committee_member_create_operation`. -/
  | committeeMemberCreate (committeeMemberAccount : AccountId)
  /-- `committee_member_update_operation`. -/
  | committeeMemberUpdate (committeeMemberAccount : AccountId)
  /-- `committee_member_update_global_parameters_operation`. -/
  | committeeMemberUpdateGlobalParameters
  /-- `vesting_balance_create_operation`. -/
  | vestingBalanceCreate (creator owner : AccountId)
  /-- `vesting_balance_withdraw_operation`. -/
  | vestingBalanceWithdraw (owner : AccountId)
  /-- `custom_operation`. -/
  | custom (payer : AccountId)
  /-- `assert_operation`. -/
  | assertion (feePayingAccount : AccountId)
  /-- `balance_claim_operation`. -/
  | balanceClaim (depositToAccount : AccountId) (balanceOwnerKey : K)
  /-- `override_transfer_operation`: `issuer`, `from` and `to`. -/
  | overrideTransfer (issuer sender recipient : AccountId)
  /-- `transfer_to_blind_operation`: `from`, and the owners of its outputs. -/
  | transferToBlind (sender : AccountId) (outputs : List (Authority K))
  /-- `blind_transfer_operation`, with the owners of its inputs and outputs. -/
  | blindTransfer (inputs outputs : List (Authority K))
  /-- `transfer_from_blind_operation`: `to`, and the owners of its inputs. -/
  | transferFromBlind (recipient : AccountId) (inputs : List (Authority K))
  /-- `asset_settle_cancel_operation`. -/
  | assetSettleCancel (account : AccountId)
  /-- `asset_claim_fees_operation`. -/
  | assetClaimFees (issuer : AccountId)
  /-- `fba_distribute_operation`. -/
  | fbaDistribute (accountId : AccountId)
  /-- `account_balance_migrate_operation`. -/
  | accountBalanceMigrate (account : AccountId)

variable {K : Type} [LinearOrder K]

/-- `add_authority_accounts`: the accounts it adds. -/
def addAuthorityAccounts (a : Authority K) : Finset AccountId :=
  (a.accountAuths.map Prod.fst).toFinset

/-- `add_authority_accounts`, for one authority after the other. -/
def addAuthoritiesAccounts (auths : List (Authority K)) : Finset AccountId :=
  (auths.flatMap fun a ↦ a.accountAuths.map Prod.fst).toFinset

namespace NonProposalOperation

/-- `fee_payer`. -/
def feePayer : NonProposalOperation K → AccountId
  | transfer sender _ => sender
  | limitOrderCreate seller => seller
  | limitOrderCancel feePayingAccount => feePayingAccount
  | callOrderUpdate fundingAccount => fundingAccount
  | fillOrder accountId => accountId
  | accountCreate registrar _ _ _ _ => registrar
  | accountUpdate account _ _ _ => account
  | accountWhitelist authorizingAccount _ => authorizingAccount
  | accountUpgrade accountToUpgrade => accountToUpgrade
  | accountTransfer accountId _ => accountId
  | assetCreate issuer => issuer
  | assetUpdate issuer _ => issuer
  | assetUpdateBitasset issuer => issuer
  | assetUpdateFeedProducers issuer => issuer
  | assetIssue issuer _ => issuer
  | assetReserve payer => payer
  | assetFundFeePool fromAccount => fromAccount
  | assetSettle account => account
  | assetGlobalSettle issuer => issuer
  | assetPublishFeed publisher => publisher
  | witnessCreate witnessAccount => witnessAccount
  | witnessUpdate witnessAccount => witnessAccount
  | withdrawPermissionCreate withdrawFromAccount _ => withdrawFromAccount
  | withdrawPermissionUpdate withdrawFromAccount _ => withdrawFromAccount
  | withdrawPermissionClaim _ withdrawToAccount => withdrawToAccount
  | withdrawPermissionDelete withdrawFromAccount _ => withdrawFromAccount
  | committeeMemberCreate committeeMemberAccount => committeeMemberAccount
  | committeeMemberUpdate committeeMemberAccount => committeeMemberAccount
  | committeeMemberUpdateGlobalParameters => committeeAccount
  | vestingBalanceCreate creator _ => creator
  | vestingBalanceWithdraw owner => owner
  | custom payer => payer
  | assertion feePayingAccount => feePayingAccount
  | balanceClaim depositToAccount _ => depositToAccount
  | overrideTransfer issuer _ _ => issuer
  | transferToBlind sender _ => sender
  | blindTransfer _ _ => tempAccount
  | transferFromBlind _ _ => tempAccount
  | assetSettleCancel account => account
  | assetClaimFees issuer => issuer
  | fbaDistribute accountId => accountId
  | accountBalanceMigrate account => account

/-- `is_owner_update`, of an `account_update_operation`. -/
def isOwnerUpdate (owner : Option (Authority K)) (ownerSpecialAuthority : Bool) : Bool :=
  owner.isSome || ownerSpecialAuthority

/-- `get_required_active_authorities`. -/
def requiredActive : NonProposalOperation K → Finset AccountId
  | accountCreate registrar _ _ _ assetToBuyIssuer =>
    insert registrar assetToBuyIssuer.toFinset
  | accountUpdate account owner _ ownerSpecialAuthority =>
    if isOwnerUpdate owner ownerSpecialAuthority then ∅ else {account}
  | _ => ∅

/-- `get_required_owner_authorities`. -/
def requiredOwner : NonProposalOperation K → Finset AccountId
  | accountUpdate account owner _ ownerSpecialAuthority =>
    if isOwnerUpdate owner ownerSpecialAuthority then {account} else ∅
  | _ => ∅

/-- `get_required_authorities`. -/
def requiredOther : NonProposalOperation K → List (Authority K)
  | balanceClaim _ balanceOwnerKey => [.ofKeys {balanceOwnerKey}]
  | blindTransfer inputs _ => inputs
  | transferFromBlind _ inputs => inputs
  | _ => []

/-- `operation_get_required_authorities`. -/
def required (op : NonProposalOperation K) : RequiredAuthorities K where
  active := insert op.feePayer op.requiredActive
  owner := op.requiredOwner
  other := op.requiredOther

/-- `get_impacted_account_visitor`: the accounts it inserts. -/
def getImpacted : NonProposalOperation K → Finset AccountId
  | transfer _ recipient => {recipient}
  | assetClaimFees _ => ∅
  | limitOrderCreate _ => ∅
  | limitOrderCancel feePayingAccount => {feePayingAccount}
  | callOrderUpdate _ => ∅
  | fillOrder accountId => {accountId}
  | accountCreate registrar referrer owner active _ =>
    {registrar, referrer} ∪ addAuthorityAccounts owner ∪ addAuthorityAccounts active
  | accountUpdate account owner active _ =>
    {account} ∪ addAuthoritiesAccounts owner.toList ∪ addAuthoritiesAccounts active.toList
  | accountWhitelist _ accountToList => {accountToList}
  | accountUpgrade _ => ∅
  | accountTransfer _ newOwner => {newOwner}
  | accountBalanceMigrate account => {account}
  | assetCreate _ => ∅
  | assetUpdate _ newIssuer => newIssuer.toFinset
  | assetUpdateBitasset _ => ∅
  | assetUpdateFeedProducers _ => ∅
  | assetIssue _ issueToAccount => {issueToAccount}
  | assetReserve _ => ∅
  | assetFundFeePool _ => ∅
  | assetSettle _ => ∅
  | assetGlobalSettle _ => ∅
  | assetPublishFeed _ => ∅
  | witnessCreate witnessAccount => {witnessAccount}
  | witnessUpdate witnessAccount => {witnessAccount}
  | withdrawPermissionCreate _ authorizedAccount => {authorizedAccount}
  | withdrawPermissionUpdate _ authorizedAccount => {authorizedAccount}
  | withdrawPermissionClaim withdrawFromAccount _ => {withdrawFromAccount}
  | withdrawPermissionDelete _ authorizedAccount => {authorizedAccount}
  | committeeMemberCreate committeeMemberAccount => {committeeMemberAccount}
  | committeeMemberUpdate committeeMemberAccount => {committeeMemberAccount}
  | committeeMemberUpdateGlobalParameters => ∅
  | vestingBalanceCreate _ owner => {owner}
  | vestingBalanceWithdraw _ => ∅
  | custom _ => ∅
  | assertion _ => ∅
  | balanceClaim _ _ => ∅
  | overrideTransfer issuer sender recipient => {recipient, sender, issuer}
  | transferToBlind sender outputs => {sender} ∪ addAuthoritiesAccounts outputs
  | blindTransfer inputs outputs =>
    addAuthoritiesAccounts inputs ∪ addAuthoritiesAccounts outputs
  | transferFromBlind recipient inputs => {recipient} ∪ addAuthoritiesAccounts inputs
  | assetSettleCancel account => {account}
  | fbaDistribute accountId => {accountId}

end NonProposalOperation

/-- Every operation. -/
abbrev ChainOperation (K : Type) := Operation K (NonProposalOperation K)

/-- `operation_get_required_authorities`. -/
def ChainOperation.getRequired (op : ChainOperation K) : RequiredAuthorities K :=
  op.required NonProposalOperation.required

/-- `operation_get_impacted_accounts`: the accounts it inserts. -/
def ChainOperation.getImpacted : ChainOperation K → Finset AccountId
  | .proposalCreate _ _ _ _ proposedOps =>
    let required := requiredAuthorities ChainOperation.getRequired proposedOps
    required.active ∪ required.owner ∪ addAuthoritiesAccounts required.other
  | .proposalUpdate _ => ∅
  | .proposalDelete _ => ∅
  | .other op => op.getImpacted

end Graphene
