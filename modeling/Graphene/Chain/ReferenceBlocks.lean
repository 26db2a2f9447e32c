import Graphene.Lib.RingTable
import Graphene.Lib.Transitions

/-!
# Transactions that refer to a block

A transaction names a block, by the low bits of its number and a word of its hash, and can be
applied only where that block is; an operation can ask for a block in the same way.  The chain keeps
the ids of its blocks in a table of 65536 entries for this.

* `BlockIdWords`, `BlockReference`, `setReferenceBlock` — ids, and what a transaction has of one.
* `SummaryState`, `SummaryState.applyBlock` — the table, and a block whose transactions refer to
  others.
* `ReferenceNode`, `ReferenceNode.step` — a chain that grows and from which blocks are taken off.
* `references_exact` — which references can be applied after any such run: those to the last 65536
  blocks of the chain.
* `references_on_chain` — so that every transaction on a chain refers to one before it.
-/

set_option autoImplicit false

namespace Graphene

open Transitions RingTable

/-- The words of a `block_id_type`. -/
structure BlockIdWords where
  /-- `num_from_id`: the first, turned around. -/
  num : UInt32
  /-- `_hash[1]`. -/
  word : UInt32
  /-- The others. -/
  rest : ℕ
deriving DecidableEq

/-- `block_id_type()`. -/
def BlockIdWords.zero : BlockIdWords := ⟨0, 0, 0⟩

/-- The entry of a block in the table. -/
def BlockIdWords.low (id : BlockIdWords) : UInt16 := id.num.toUInt16

/-- What a transaction has of the block it refers to. -/
structure BlockReference where
  /-- `ref_block_num`. -/
  refBlockNum : UInt16
  /-- `ref_block_prefix`. -/
  refBlockPrefix : UInt32

/-- `set_reference_block`. -/
def setReferenceBlock (id : BlockIdWords) : BlockReference := ⟨id.low, id.word⟩

/-- A transaction, as far as it refers to blocks. -/
structure ReferringTransaction where
  /-- The block it refers to. -/
  reference : BlockReference
  /-- The ids of the `block_id_predicate`s of its `assert_operation`s. -/
  blockIdPredicates : List BlockIdWords := []

/-- A block of such transactions. -/
structure ReferringBlock where
  /-- `previous`. -/
  previous : BlockIdWords
  /-- The second word of its hash. -/
  word : UInt32
  /-- The others. -/
  rest : ℕ
  /-- `transactions`. -/
  transactions : List ReferringTransaction

/-- `id`. -/
def ReferringBlock.id (b : ReferringBlock) : BlockIdWords := ⟨b.previous.num + 1, b.word, b.rest⟩

/-! ## The table -/

/-- The state that references are checked against. -/
structure SummaryState where
  /-- `head_block_id`, with `head_block_number`. -/
  headBlockId : BlockIdWords := .zero
  /-- The `block_id` of each `block_summary_object`. -/
  summaries : UInt16 → BlockIdWords := fun _ ↦ .zero

namespace SummaryState

variable (s : SummaryState)

/-- The check of `_apply_transaction`. -/
def checkReference (r : BlockReference) : Bool :=
  s.headBlockId.num = 0 || r.refBlockPrefix = (s.summaries r.refBlockNum).word

/-- `predicate_evaluator`, of a `block_id_predicate`. -/
def checkBlockId (id : BlockIdWords) : Bool := s.summaries id.low = id

/-- `_apply_transaction`. -/
def checkTransaction (t : ReferringTransaction) : Bool :=
  s.checkReference t.reference && t.blockIdPredicates.all s.checkBlockId

/-- `create_block_summary`, and the head block. -/
def createBlockSummary (b : ReferringBlock) : SummaryState where
  headBlockId := b.id
  summaries := Function.update s.summaries b.id.low b.id

/-- `_apply_block`. -/
def applyBlock (b : ReferringBlock) : Option SummaryState :=
  if s.headBlockId = b.previous ∧ b.transactions.all s.checkTransaction then
    some (s.createBlockSummary b)
  else none

end SummaryState

/-! ## A chain -/

/-- The blocks of a chain, newest first, each with the state after it. -/
abbrev ReferenceNode := List (ReferringBlock × SummaryState)

namespace ReferenceNode

/-- The state after the head block. -/
def current : ReferenceNode → SummaryState
  | [] => {}
  | (_, s) :: _ => s

/-- What happens to a chain. -/
inductive Event where
  /-- A block is applied. -/
  | applyBlock (b : ReferringBlock)
  /-- `pop_block`: what the head block did is undone. -/
  | popBlock

/-- One of these. -/
def step (node : ReferenceNode) : Event → Option ReferenceNode
  | .applyBlock b => ((current node).applyBlock b).map fun s ↦ (b, s) :: node
  | .popBlock =>
    match node with
    | [] => none
    | _ :: node => some node

/-- The ids on the chain. -/
def ids (node : ReferenceNode) : List BlockIdWords := node.map fun e ↦ e.1.id

/-- Every block has been applied to the state after the one before. -/
def Linked : ReferenceNode → Prop
  | [] => True
  | (b, s) :: node => (current node).applyBlock b = some s ∧ Linked node

variable {node node' : ReferenceNode}

theorem Linked.step (h : node.Linked) {e : Event} (hstep : node.step e = some node') :
    node'.Linked := by
  cases e with
  | applyBlock b =>
    obtain ⟨s, hs, rfl⟩ := Option.map_eq_some_iff.1 hstep
    exact ⟨hs, h⟩
  | popBlock =>
    cases node with
    | nil => cases hstep
    | cons e node =>
      obtain rfl := Option.some.inj hstep
      exact h.2

theorem linked_applied {es : List Event} (h : applied ReferenceNode.step [] es = some node) :
    node.Linked := by
  have hstart : Linked [] := trivial
  exact applied_inv (fun _ _ _ hinv hstep ↦ Linked.step hinv hstep) hstart h

theorem cyclic_toUInt16 : Cyclic 65536 fun n ↦ n.toUInt16 := fun i j ↦ by
  rw [← UInt16.toNat_inj]
  exact Iff.rfl

/-- **The table after a chain.** -/
theorem Linked.current_eq (h : node.Linked) :
    (current node).headBlockId.num = node.length.toUInt32 ∧
      (current node).summaries = stored BlockIdWords.low .zero node.ids ∧
      Keyed BlockIdWords.low (fun n ↦ n.toUInt16) node.ids := by
  induction node with
  | nil => exact ⟨rfl, rfl, trivial⟩
  | cons e node ih =>
    obtain ⟨b, s⟩ := e
    obtain ⟨happly, hlinked⟩ := h
    obtain ⟨hnum, hsummaries, hkeyed⟩ := ih hlinked
    rw [SummaryState.applyBlock] at happly
    split_ifs at happly with hchecks
    obtain rfl := Option.some.inj happly
    have hid : b.id.num = (node.length + 1).toUInt32 := by
      rw [ReferringBlock.id, ← hchecks.1, hnum]
      simp
    refine ⟨hid, ?_, ?_, hkeyed⟩
    · rw [ids, List.map_cons, stored, ← ids, ← hsummaries]
      rfl
    · rw [BlockIdWords.low, hid]
      simp

/-- The reference is to one of the last 65536 blocks; or nothing has the low bits of its number, and
it has no word. -/
def RefersTo (ids : List BlockIdWords) (r : BlockReference) : Prop :=
  (∃ id ∈ ids.take 65536, id.low = r.refBlockNum ∧ id.word = r.refBlockPrefix) ∨
    (∀ id ∈ ids.take 65536, id.low ≠ r.refBlockNum) ∧ r.refBlockPrefix = 0

theorem Linked.checkReference_iff (h : node.Linked) (r : BlockReference) :
    (current node).checkReference r = true ↔
      node.length.toUInt32 = 0 ∨ RefersTo node.ids r := by
  obtain ⟨hnum, hsummaries, hkeyed⟩ := h.current_eq
  have hword := hkeyed.holds_iff .zero cyclic_toUInt16 (by decide)
    (fun id ↦ id.word = r.refBlockPrefix) r.refBlockNum
  rw [SummaryState.checkReference, Bool.or_eq_true, decide_eq_true_eq, decide_eq_true_eq, hnum,
    hsummaries, eq_comm (a := r.refBlockPrefix), hword, RefersTo,
    eq_comm (a := BlockIdWords.word .zero)]
  rfl

theorem Linked.checkBlockId_iff (h : node.Linked) {id : BlockIdWords} (hid : id ≠ .zero) :
    (current node).checkBlockId id = true ↔ id ∈ node.ids.take 65536 := by
  obtain ⟨-, hsummaries, hkeyed⟩ := h.current_eq
  rw [SummaryState.checkBlockId, decide_eq_true_eq, hsummaries]
  exact hkeyed.stored_eq_iff cyclic_toUInt16 (by decide) hid

theorem Linked.append {later : ReferenceNode} (h : Linked (later ++ node)) : node.Linked := by
  induction later with
  | nil => exact h
  | cons e later ih => exact ih h.2

end ReferenceNode

open ReferenceNode

/-- **What can be referred to.**  After any sequence of blocks that are applied and taken off again,
a reference can be applied on top of a block exactly if it is to one of the last 65536 blocks of the
chain as it is (before there are as many, also if it has no word and nothing has its number), and a
`block_id_predicate` holds exactly of the ids of these. -/
theorem references_exact (es : List ReferenceNode.Event) (node : ReferenceNode)
    (h : applied ReferenceNode.step [] es = some node) :
    (current node).headBlockId.num = node.length.toUInt32 ∧
    (node.length.toUInt32 ≠ 0 → ∀ r,
      (current node).checkReference r = true ↔ RefersTo node.ids r) ∧
    (∀ id ∈ node.ids.take 65536, (current node).checkReference (setReferenceBlock id) = true) ∧
    ∀ id, id ≠ .zero → ((current node).checkBlockId id = true ↔ id ∈ node.ids.take 65536) := by
  have hlinked := linked_applied h
  refine ⟨hlinked.current_eq.1, fun hhead r ↦ ?_, fun id hid ↦ ?_,
    fun id hid ↦ hlinked.checkBlockId_iff hid⟩
  · rw [hlinked.checkReference_iff]
    exact or_iff_right hhead
  · rw [hlinked.checkReference_iff]
    exact .inr (.inl ⟨id, hid, rfl, rfl⟩)

/-- **Every transaction refers to its own chain.**  After any such run, a transaction in a block
refers to one of the 65536 blocks before it on the chain, unless there is none yet, or it refers to
nothing at all; and so do the operations that ask for a block by its id.  On a chain that does not
have the block a transaction was set to refer to, nor one that looks the same, it is not. -/
theorem references_on_chain (es : List ReferenceNode.Event) (later earlier : ReferenceNode)
    (b : ReferringBlock) (s : SummaryState)
    (h : applied ReferenceNode.step [] es = some (later ++ (b, s) :: earlier))
    (hhead : earlier.length.toUInt32 ≠ 0) (t : ReferringTransaction) (ht : t ∈ b.transactions) :
    RefersTo earlier.ids t.reference ∧
    (∀ id ∈ t.blockIdPredicates, id = .zero ∨ id ∈ earlier.ids.take 65536) ∧
    ∀ id, t.reference = setReferenceBlock id → id.word ≠ 0 →
      ∃ id' ∈ earlier.ids.take 65536, id'.low = id.low ∧ id'.word = id.word := by
  obtain ⟨happly, hlinked⟩ := (linked_applied h).append
  rw [SummaryState.applyBlock] at happly
  split_ifs at happly with hchecks
  have hcheck := List.all_eq_true.1 hchecks.2 t ht
  rw [SummaryState.checkTransaction, Bool.and_eq_true, List.all_eq_true,
    hlinked.checkReference_iff] at hcheck
  obtain ⟨hreference, hpredicates⟩ := hcheck
  have hrefers := hreference.resolve_left hhead
  refine ⟨hrefers, fun id hid ↦ ?_, fun id hset hword ↦ ?_⟩
  · rcases eq_or_ne id .zero with hzero | hne
    · exact .inl hzero
    · exact .inr ((hlinked.checkBlockId_iff hne).1 (hpredicates id hid))
  · rw [hset] at hrefers
    rcases hrefers with hfound | ⟨-, hzero⟩
    · exact hfound
    · exact absurd hzero hword

/-! ## Two forks -/

/-- A block with transactions on top of another. -/
def onTop (previous : BlockIdWords) (word : UInt32) (ts : List ReferringTransaction) :
    ReferringBlock := ⟨previous, word, 0, ts⟩

/-- A transaction that refers to a block. -/
def referringTo (id : BlockIdWords) : ReferringTransaction where
  reference := setReferenceBlock id
  blockIdPredicates := [id]

/-- A second block comes, and another one instead of it, on which a transaction refers to the first.
-/
def switched : List ReferenceNode.Event :=
  let first := onTop .zero 11 []
  [.applyBlock first, .applyBlock (onTop first.id 12 [referringTo first.id]), .popBlock,
    .applyBlock (onTop first.id 22 [referringTo first.id])]

theorem references_exact_switched :
    ∃ node, applied ReferenceNode.step [] switched = some node ∧ node.length = 2 ∧
      ((current node).checkReference (setReferenceBlock ⟨2, 12, 0⟩) = true ↔
        RefersTo node.ids (setReferenceBlock ⟨2, 12, 0⟩)) := by
  have hsome : (applied ReferenceNode.step [] switched).isSome := by decide +kernel
  have hlength : (applied ReferenceNode.step [] switched).map List.length = some 2 := by
    decide +kernel
  obtain ⟨node, hnode⟩ := Option.isSome_iff_exists.1 hsome
  rw [hnode] at hlength
  have htwo : node.length = 2 := Option.some.inj hlength
  exact ⟨node, hnode, htwo, (references_exact switched node hnode).2.1 (by simp [htwo]) _⟩

/-- The transaction of the second block refers to the first. -/
theorem references_on_chain_switched :
    ∃ node, applied ReferenceNode.step [] switched = some node ∧
      RefersTo [⟨1, 11, 0⟩] (setReferenceBlock ⟨1, 11, 0⟩) := by
  refine ⟨_, rfl, ?_⟩
  exact (references_on_chain switched [] [(onTop .zero 11 [], _)]
    (onTop ⟨1, 11, 0⟩ 22 [referringTo ⟨1, 11, 0⟩]) _ rfl (by decide) _
    (List.mem_singleton.2 rfl)).1

/-- The second block of the other fork is not there any more. -/
example : ((applied ReferenceNode.step [] switched).map fun node ↦
    (current node).checkReference (setReferenceBlock ⟨2, 12, 0⟩)) = some false := by
  decide +kernel

end Graphene
