import Graphene.Ledger.Treasury

/-!
# Blinded balances

An amount can be moved into blinded balances, from some of these to others, and back.  What a
blinded balance is worth is not known; there is a commitment to it, and each operation proves that
the commitments it takes and those it makes come to the same amount.

* `Commitments` — the functions of the elliptic curve library.
* `Commitments.Homomorphic` — what is relied on: commitments add up as what they commit to does.
* `BlindOperation.validate`, `Treasury.evaluateBlind`, `Treasury.applyBlind` — the operations and
  their evaluators.
-/

set_option autoImplicit false

namespace Graphene

open Registration (isImpossible)

/-! ## Commitments -/

/-- What the library of the elliptic curve offers: blinding factors are of type `B`, commitments of
type `C` and range proofs of type `P`. -/
structure Commitments (B C P : Type) where
  /-- `fc::ecc::blind`. -/
  blind : B → ℤ → C
  /-- `fc::ecc::verify_sum`. -/
  verifySum : List C → List C → ℤ → Bool
  /-- `max_value` of `fc::ecc::range_get_info`, which throws on what is no range proof. -/
  rangeMaxValue : P → Option ℤ

/-- Commitments are points of a group `G`: one to an amount is the sum of a multiple of one
generator, by the blinding factor, and of a multiple of another, by the amount; and `verify_sum`
adds up. -/
structure Commitments.Homomorphic {B C P : Type} (lib : Commitments B C P) {G : Type}
    [AddCommGroup G] (point : C → G) (factor : B → G) (value : ℤ →+ G) : Prop where
  /-- What a commitment is. -/
  point_blind : ∀ b amount, point (lib.blind b amount) = factor b + value amount
  /-- What `verify_sum` verifies. -/
  verifySum_iff : ∀ ins outs excess, lib.verifySum ins outs excess = true ↔
    (ins.map point).sum = (outs.map point).sum + value excess

/-! ## Operations -/

/-- `blind_input`. -/
structure BlindInput (K C : Type) where
  /-- `commitment`. -/
  commitment : C
  /-- `owner`. -/
  owner : Authority K

/-- `blind_output`. -/
structure BlindOutput (K C P : Type) where
  /-- `commitment`. -/
  commitment : C
  /-- `range_proof`. -/
  rangeProof : P
  /-- `owner`. -/
  owner : Authority K

/-- The operations; each has its fee beside it. -/
inductive BlindOperation (K B C P : Type) where
  /-- `transfer_to_blind_operation`. -/
  | transferToBlind (amount : Asset) (source : AccountId) (blindingFactor : B)
      (outputs : List (BlindOutput K C P))
  /-- `transfer_from_blind_operation`. -/
  | transferFromBlind (amount : Asset) (target : AccountId) (blindingFactor : B)
      (inputs : List (BlindInput K C))
  /-- `blind_transfer_operation`. -/
  | blindTransfer (inputs : List (BlindInput K C)) (outputs : List (BlindOutput K C P))

namespace BlindOperation

variable {K B C P : Type}

/-- `fee_payer`. -/
def feePayer : BlindOperation K B C P → AccountId
  | transferToBlind _ source _ _ => source
  | transferFromBlind .. => tempAccount
  | blindTransfer .. => tempAccount

/-- The fee backed asset that `pay_fee` is for. -/
def fbaId : BlindOperation K B C P → FbaAccumulatorId
  | transferToBlind .. => .transferToBlind
  | transferFromBlind .. => .transferFromBlind
  | blindTransfer .. => .blindTransfer

/-- The blinded balances that are spent. -/
def inputs : BlindOperation K B C P → List (BlindInput K C)
  | transferToBlind .. => []
  | transferFromBlind _ _ _ inputs => inputs
  | blindTransfer inputs _ => inputs

/-- The blinded balances that are created. -/
def outputs : BlindOperation K B C P → List (BlindOutput K C P)
  | transferToBlind _ _ _ outputs => outputs
  | transferFromBlind .. => []
  | blindTransfer _ outputs => outputs

/-- The asset of the blinded balances. -/
def assetId (op : BlindOperation K B C P) (fee : Asset) : AssetId :=
  match op with
  | transferToBlind amount _ _ _ => amount.assetId
  | transferFromBlind .. => fee.assetId
  | blindTransfer .. => fee.assetId

variable [LinearOrder C] (lib : Commitments B C P)

/-- What `validate` asks of outputs, one after the other: that they are sorted, and that no owner is
impossible. -/
def checkOutputs (outputs : List (BlindOutput K C P)) : Bool :=
  (outputs.map BlindOutput.commitment).IsChain (· < ·) &&
    outputs.all fun out ↦ !isImpossible out.owner

/-- What `validate` asks of the range proofs, if there is more than one. -/
def checkRanges (outputs : List (BlindOutput K C P)) : Bool :=
  outputs.length ≤ 1 ||
    outputs.all fun out ↦ (lib.rangeMaxValue out.rangeProof).any (· ≤ maxShareSupply)

/-- `validate`. -/
def validate (op : BlindOperation K B C P) (fee : Asset) : Bool :=
  match op with
  | transferToBlind amount _ blindingFactor outputs =>
    fee.amount ≥ 0 && amount.amount > 0 && checkOutputs outputs && !outputs.isEmpty &&
      lib.verifySum [lib.blind blindingFactor amount.amount]
        (outputs.map BlindOutput.commitment) 0 && checkRanges lib outputs
  | transferFromBlind amount _ blindingFactor inputs =>
    amount.amount > 0 && fee.amount ≥ 0 && !inputs.isEmpty && amount.assetId = fee.assetId &&
      (inputs.map BlindInput.commitment).IsChain (· < ·) &&
      lib.verifySum (inputs.map BlindInput.commitment)
        [lib.blind blindingFactor (fee.amount + amount.amount)] 0
  | blindTransfer inputs outputs =>
    (inputs.map BlindInput.commitment).IsChain (· < ·) && checkOutputs outputs &&
      !inputs.isEmpty && lib.verifySum (inputs.map BlindInput.commitment)
        (outputs.map BlindOutput.commitment) fee.amount && checkRanges lib outputs

end BlindOperation

/-! ## Evaluators -/

deriving instance DecidableEq for Authority

namespace Treasury

variable {K B C P : Type} [DecidableEq K] [LinearOrder C] (s : Treasury K C)

/-- All accounts of the owners of outputs exist. -/
def ownersExist (outputs : List (BlindOutput K C P)) : Bool :=
  outputs.all fun out ↦ out.owner.accountAuths.all fun a ↦ (s.ledger.accounts a.1).isSome

/-- All inputs exist, with this asset and their owners. -/
def inputsExist (id : AssetId) (inputs : List (BlindInput K C)) : Bool :=
  inputs.all fun input ↦ (s.blinded.lookup input.commitment).any fun balance ↦
    balance.assetId = id && balance.owner = input.owner

/-- `do_evaluate`. -/
def evaluateBlind (op : BlindOperation K B C P) (fee : Asset) : Option Unit := do
  guard (s.headBlockTime < hardfork1Time)
  match op with
  | .transferToBlind amount _ _ outputs =>
    let atype ← s.ledger.assets amount.assetId
    guard (!(s.issues amount.assetId).disableConfidential)
    guard (!(s.rules amount.assetId).transferRestricted)
    guard (!atype.whiteList)
    guard (s.ownersExist outputs)
  | .transferFromBlind _ _ _ inputs =>
    guard (s.ledger.assets fee.assetId).isSome
    guard (s.inputsExist fee.assetId inputs)
  | .blindTransfer inputs outputs =>
    guard (s.ledger.assets fee.assetId).isSome
    guard (s.ownersExist outputs)
    guard (s.inputsExist fee.assetId inputs)

/-- Remove all inputs. -/
def spendInputs (inputs : List (BlindInput K C)) : Option (Treasury K C) :=
  (s.blinded.spend (inputs.map BlindInput.commitment)).map fun blinded ↦ { s with blinded }

/-- Create all outputs; `by_commitment` is unique. -/
def createOutputs (id : AssetId) (outputs : List (BlindOutput K C P)) : Option (Treasury K C) :=
  (s.blinded.create (outputs.map fun out ↦ (out.commitment, ⟨id, out.owner⟩))).map fun blinded ↦
    { s with blinded }

/-- `do_apply`. -/
def applyBlind (op : BlindOperation K B C P) (fee : Asset) : Option (Treasury K C) :=
  match op with
  | .transferToBlind amount source _ outputs => do
    let s ← s.adjustBalance source ⟨-amount.amount, amount.assetId⟩
    let s ← s.adjustConfidentialSupply amount.assetId amount.amount
    s.createOutputs amount.assetId outputs
  | .transferFromBlind amount target _ inputs => do
    let s ← s.adjustBalance tempAccount fee
    let s ← s.adjustBalance target amount
    let s ← s.spendInputs inputs
    s.adjustConfidentialSupply amount.assetId (-(amount.amount + fee.amount))
  | .blindTransfer inputs outputs => do
    let s ← s.adjustBalance tempAccount fee
    let s ← s.spendInputs inputs
    let s ← s.createOutputs fee.assetId outputs
    s.adjustConfidentialSupply fee.assetId (-fee.amount)

end Treasury

end Graphene
