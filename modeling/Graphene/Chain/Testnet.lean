import Graphene.Chain.Calls

/-!
# A small chain

The smallest protocol that still has what can go wrong: transactions that do something, that
throw, and that execute a proposal.  Digests are symbolic, so that different things have different
ones.

* `Testnet.protocol`, `Testnet.genesis`, `Testnet.node` — the protocol, its genesis state, and a
  node that was opened on it.
* `Testnet.node_opened`, `Testnet.nests`, `Testnet.lags` — what the results about nodes ask for.
-/

set_option autoImplicit false

namespace Graphene.Testnet

/-- What a transaction can do. -/
inductive Tx where
  /-- Create an object. -/
  | pay
  /-- Throw. -/
  | fail
  /-- Execute a proposal that creates an object. -/
  | propose
deriving DecidableEq

/-- A digest, written as what it is the digest of. -/
inductive Digest where
  /-- The digest that stands for nothing. -/
  | zero
  /-- The digest of a header. -/
  | header (num : ℕ) (previous root : Digest) (content : ℕ)
  /-- The Merkle root of a list of transactions. -/
  | root (txs : List Tx)
deriving DecidableEq

/-- The types of the chain. -/
abbrev types : ChainTypes where
  Digest := Digest
  Content := ℕ
  Tx := Tx
  Obj := Unit
  decDigest := inferInstance
  zeroDigest := .zero

instance : DecidableEq (SignedBlock types) := fun a b ↦
  decidable_of_iff (a.header.previous = b.header.previous ∧
      a.header.transactionMerkleRoot = b.header.transactionMerkleRoot ∧
      a.header.content = b.header.content ∧ a.transactions = b.transactions) <| by
    obtain ⟨⟨_, _, _⟩, _⟩ := a
    obtain ⟨⟨_, _, _⟩, _⟩ := b
    simp [and_assoc]

instance : DecidableEq (ForkItem types) := fun x y ↦
  decidable_of_iff
      (x.addr = y.addr ∧ x.prev = y.prev ∧ x.invalid = y.invalid ∧ x.data = y.data) <| by
    obtain ⟨_, _, _, _⟩ := x
    obtain ⟨_, _, _, _⟩ := y
    simp

/-- Where transactions create objects. -/
def payments : IndexId := ⟨1, 0⟩

/-- Creating an object. -/
def pay : Script (ChainObject types) := .edit (.create payments (.other ())) .done

/-- The evaluation that does nothing. -/
def nothing : Evaluation types := ⟨.done, trivial⟩

/-- The protocol. -/
def protocol : Protocol types where
  hash h := .header h.previous.num h.previous.digest h.transactionMerkleRoot h.content
  hash_injective := by
    rintro ⟨⟨num, digest⟩, root, content⟩ ⟨⟨num', digest'⟩, root', content'⟩ h
    obtain ⟨rfl, rfl, rfl, rfl⟩ := Digest.header.inj h
    rfl
  calculateMerkleRoot := .root
  calculateMerkleRoot_injective _ _ h := Digest.root.inj h
  validateBlockHeader _ _ := true
  evaluateTransaction _ tx :=
    match tx with
    | .pay => ⟨pay, trivial, trivial⟩
    | .fail => ⟨.throw, trivial⟩
    | .propose => ⟨.proposal pay .done, ⟨trivial, trivial⟩, trivial⟩
  countMissed _ _ := nothing
  updateSigningWitness _ _ := nothing
  confirmations _ := []
  confirmations_le _ _ _ _ h := absurd h List.not_mem_nil
  finishBlock _ _ := nothing
  isKnownTransaction _ _ := false

/-- The genesis state: the dynamic global properties and nothing else. -/
def genesis : ChainState types where
  objects id :=
    if id = dgpId then some (.dynamicGlobalProperties ⟨0, BlockId.zero types, 0⟩) else none
  nextId index := if index = dgpId.index then 1 else 0

/-- A node that was opened on the genesis state. -/
def node : Database types where
  objects := { indexes := genesis, undoDb := { maxSize := minUndoHistory } }

/-- The block with the given transactions on top of the block `previous`. -/
def block (previous : BlockId types) (content : ℕ) (txs : List Tx) : SignedBlock types :=
  ⟨⟨previous, .root txs, content⟩, txs⟩

/-- The first block. -/
def a1 : SignedBlock types := block (BlockId.zero types) 0 []

/-- A block on it. -/
def a2 : SignedBlock types := block (protocol.blockId a1) 0 []

/-- A block on the first one that does not apply. -/
def bad2 : SignedBlock types := block (protocol.blockId a1) 0 [.fail]

/-- Another first block. -/
def b1 : SignedBlock types := block (BlockId.zero types) 1 []

/-- A block on it. -/
def b2 : SignedBlock types := block (protocol.blockId b1) 0 []

/-- Plugins that never throw. -/
def quiet : Observers types := ⟨fun _ ↦ false, fun _ _ ↦ false⟩

/-- The node after the blocks have been pushed, one after the other. -/
def pushAll (blocks : List (SignedBlock types)) : Database types :=
  blocks.foldl (fun d b ↦ (Call.pushBlock quiet b).exec protocol d) node

/-- A run that pushes one more block. -/
theorem run_pushAll {Ok : Database types → Call types → Prop} {blocks : List (SignedBlock types)}
    (h : Run protocol Ok node (pushAll blocks)) (b : SignedBlock types)
    (hb : Ok (pushAll blocks) (.pushBlock quiet b)) :
    Run protocol Ok node (pushAll (blocks ++ [b])) := by
  rw [pushAll, List.foldl_append]
  exact h.call _ hb

theorem base : Base genesis :=
  ⟨⟨_, rfl⟩, rfl, le_rfl⟩

theorem fresh : genesis.Fresh := by
  intro id hid
  simp only [genesis] at hid ⊢
  split_ifs at hid with h
  · subst h
    decide
  · cases hid

theorem nests : protocol.Nests 1 := by
  have htx : ∀ tx, protocol.TxNests 1 tx := by
    intro tx ix
    cases tx with
    | pay => exact Nat.zero_le _
    | fail => exact Nat.zero_le _
    | propose => exact le_rfl
  exact ⟨htx, fun b ↦ ⟨fun tx _ ↦ htx tx, fun _ ↦ Nat.zero_le _, fun _ ↦ Nat.zero_le _,
    fun _ ↦ Nat.zero_le _⟩⟩

theorem lags : protocol.Lags genesis 1 := Protocol.lags_one base

theorem node_opened : node.Opened protocol genesis 1 where
  indexes_eq := rfl
  fresh := fresh
  undoDb := ⟨rfl, rfl, rfl⟩
  room := by decide
  pending := ⟨rfl, rfl⟩
  forkDb := ⟨ForkDatabase.wf_empty, rfl⟩
  stored := Or.inl rfl

end Graphene.Testnet
