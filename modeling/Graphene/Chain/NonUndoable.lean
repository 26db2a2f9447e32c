import Graphene.Chain.Reorganised
import Graphene.Chain.Testnet

/-!
# The last block that cannot be undone

A node takes the size of its undo stack for the number of blocks that it could pop.  But not every
state on the stack is one that a block has left: the session of the pending transactions has one
too, and so has the stack when a session was undone that had it for itself.  Nor can every block be
popped that has one, if the fork database has let go of the block below.

* `Database.lastNonUndoableBlockNum`.
* `Database.Honest` — what is asked of it; `Database.Unwindable` — when it is so.
* `popBlocks_ok`, `undoable_of_popBlocks` — the blocks that can be popped.
* `lastNonUndoable_honest_iff` — the number is honest exactly on nodes that can be unwound.
* `Testnet.lastNonUndoable_wraps` — a node with a pending transaction on its genesis.
-/

set_option autoImplicit false

namespace Graphene

open Throwing

variable {C : ChainTypes}

namespace Database

/-- `last_non_undoable_block_num`; `head_block_num` is a `uint32_t`. -/
def lastNonUndoableBlockNum (d : Database C) : UInt32 :=
  d.state.headBlockNum.toUInt32 - d.objects.undoDb.stack.length.toUInt32

/-- `pop_block`, `n` times. -/
def popBlocks (P : Protocol C) : ℕ → DatabaseM C Unit
  | 0 => return ()
  | n + 1 => do
    popBlock P
    popBlocks P n

/-- **What is asked of `last_non_undoable_block_num`**: it is not more than the head block number,
and has not wrapped around, and every block above it can be popped. -/
structure Honest (P : Protocol C) (d : Database C) : Prop where
  /-- Not more than the head block number. -/
  le : d.lastNonUndoableBlockNum.toNat ≤ d.state.headBlockNum
  /-- Not wrapped around. -/
  eq : (d.lastNonUndoableBlockNum.toNat : ℤ) =
    d.state.headBlockNum - d.objects.undoDb.stack.length
  /-- As many blocks as there are above it can be popped, one after the other. -/
  poppable : ∀ n, d.lastNonUndoableBlockNum.toNat + n ≤ d.state.headBlockNum →
    ∃ d', popBlocks P n d = .ok () d' ∧ d'.state.headBlockNum + n = d.state.headBlockNum

/-- **The undo stack is that of the newest blocks**, and these are known: no session is open, and
for each state there is a block that left it, which can be fetched and has its parent in the fork
database. -/
structure Unwindable (P : Protocol C) (d : Database C) : Prop where
  /-- No session is open for pending transactions. -/
  idle : d.pendingTxSession = none
  /-- The states are those below the newest blocks. -/
  undoable : d.Undoable d.objects.undoDb.stack.length
  /-- The fork database has the parents. -/
  linked : (d.forkDb.popBlocks d.objects.undoDb.stack.length).isSome
  /-- The blocks are known. -/
  known : ∀ ix ∈ (d.state :: d.copies).take d.objects.undoDb.stack.length,
    d.fetchBlockById P ix.headBlockId ≠ none

end Database

variable {P : Protocol C} {g : ChainState C} {depth n : ℕ} {chain : List (SignedBlock C)}
  {d d' : Database C}

/-! ## Popping -/

theorem popBlocks_succ (h : Database.popBlock P d = .ok () d') (n : ℕ) :
    Database.popBlocks P (n + 1) d = Database.popBlocks P n d' := bind_ok h

theorem popBlocks_congr (h : Database.popBlock P d = Database.popBlock P d') (n : ℕ) :
    Database.popBlocks P (n + 1) d = Database.popBlocks P (n + 1) d' := by
  cases hpop : Database.popBlock P d with
  | ok r d₁ => rw [popBlocks_succ hpop, popBlocks_succ (h.symm.trans hpop)]
  | error e d₁ =>
    exact (bind_error (f := fun _ ↦ Database.popBlocks P n) hpop).trans
      (bind_error (f := fun _ ↦ Database.popBlocks P n) (h.symm.trans hpop)).symm

/-- If so many blocks can be popped from the fork database, then so can fewer. -/
theorem ForkDatabase.popBlocks_isSome_of_le {f : ForkDatabase C} {m : ℕ} (hle : m ≤ n)
    (h : (f.popBlocks n).isSome) : (f.popBlocks m).isSome := by
  induction m generalizing f n with
  | zero => rfl
  | succ m ih =>
    obtain ⟨n, rfl⟩ : ∃ k, n = k + 1 := ⟨n - 1, by omega⟩
    rw [popBlocks] at h ⊢
    cases hpop : f.popBlock with
    | none =>
      rw [hpop] at h
      cases h
    | some f' =>
      rw [hpop] at h
      exact ih (Nat.le_of_succ_le_succ hle) h

/-- **As many blocks can be popped** as the undo stack, the fork database and the log have. -/
theorem popBlocks_ok {f : ForkDatabase C} (h : d.Sound P g depth chain) (hg : Base g)
    (hidle : d.pendingTxSession = none) (hun : d.Undoable n)
    (hfork : d.forkDb.popBlocks n = some f)
    (hfetch : ∀ j < n, d.fetchBlockById P (P.tip g (chain.drop j)) ≠ none) :
    ∃ d', Database.popBlocks P n d = .ok () d' ∧
      d'.state.headBlockNum + n = d.state.headBlockNum := by
  induction n generalizing d chain with
  | zero => exact ⟨d, rfl, rfl⟩
  | succ n ih =>
    obtain ⟨b, bs, d₁, rfl, hpop, hsound₁, -, -, -, hidle₁, hun₁, hfork₁, hfetch₁, -⟩ :=
      popBlock_step h hg hidle hun hfork hfetch
    obtain ⟨d', hrun, hnum⟩ := ih hsound₁ hidle₁ hun₁ hfork₁ hfetch₁
    have hstep := headState_step h hg hsound₁
    rw [← Database.OnChain.state_eq_headState hidle,
      ← Database.OnChain.state_eq_headState hidle₁] at hstep
    exact ⟨d', (popBlocks_succ hpop n).trans hrun, by omega⟩

/-- What there was when `pop_block` has gone down by one block. -/
theorem popBlock_down (h : d.Sound P g depth chain) (hg : Base g)
    (hidle : d.pendingTxSession = none) (hpop : Database.popBlock P d = .ok () d')
    (hnum : d'.state.headBlockNum + 1 = d.state.headBlockNum) :
    d.Undoable 1 ∧ d.forkDb.popBlock = some d'.forkDb ∧
      d.fetchBlockById P d.state.headBlockId ≠ none := by
  obtain ⟨-, -, -, ⟨headBlock, hfetch, -⟩, -⟩ := popBlock_inv h hg hidle hpop
  rw [Database.OnChain.popBlock_eq hidle, hfetch] at hpop
  cases hfork : d.forkDb.popBlock with
  | none =>
    rw [hfork] at hpop
    cases hpop
  | some f =>
    rw [hfork] at hpop
    dsimp only at hpop
    split at hpop
    case h_2 => cases hpop
    case h_1 log hlog =>
      split at hpop
      case h_2 => cases hpop
      case h_1 objects hobjects =>
        obtain ⟨-, rfl⟩ := EStateM.Result.ok.inj hpop
        obtain ⟨s, rest, hh, hix, -⟩ := h.toOnChain.popCommit_inv hidle hg hobjects
        refine ⟨fun j hj ↦ ?_, rfl, by rw [hfetch]; exact Option.some_ne_none _⟩
        obtain rfl : j = 0 := Nat.lt_one_iff.1 hj
        refine ⟨s, ?_, ?_⟩
        · rw [← Database.OnChain.history_eq_copies hidle, hh]
          rfl
        · rw [← Database.OnChain.state_eq_headState hidle, ← hix]
          exact hnum

/-- **Where blocks have been popped**, there were the states, the parents and the blocks. -/
theorem undoable_of_popBlocks (h : d.Sound P g depth chain) (hg : Base g)
    (hidle : d.pendingTxSession = none)
    (hpops : ∀ m ≤ n, ∃ d', Database.popBlocks P m d = .ok () d' ∧
      d'.state.headBlockNum + m = d.state.headBlockNum) :
    d.Undoable n ∧ (d.forkDb.popBlocks n).isSome ∧
      ∀ j < n, d.fetchBlockById P (P.tip g (chain.drop j)) ≠ none := by
  induction n generalizing d chain with
  | zero => exact ⟨fun j hj ↦ absurd hj j.not_lt_zero, rfl, fun j hj ↦ absurd hj j.not_lt_zero⟩
  | succ n ih =>
    obtain ⟨d₁, hpop, hnum⟩ : ∃ d₁, Database.popBlock P d = .ok () d₁ ∧
        d₁.state.headBlockNum + 1 = d.state.headBlockNum := by
      obtain ⟨d₁, hrun, hnum⟩ := hpops 1 (Nat.succ_le_succ n.zero_le)
      cases hpop : Database.popBlock P d with
      | error e d₂ =>
        cases (bind_error (f := fun _ ↦ Database.popBlocks P 0) hpop).symm.trans hrun
      | ok r d₂ =>
        obtain ⟨-, rfl⟩ := EStateM.Result.ok.inj ((popBlocks_succ hpop 0).symm.trans hrun)
        exact ⟨d₂, rfl, hnum⟩
    obtain ⟨hun, hfork, hfetch⟩ := popBlock_down h hg hidle hpop hnum
    obtain ⟨y, hy⟩ := ForkDatabase.popBlock_eq hfork
    obtain ⟨b, bs, d₂, rfl, hpop₂, hsound₁, hlog, hhist, -, heq⟩ :=
      popBlock_ok h hg hidle hun hfork hfetch
    obtain ⟨-, rfl⟩ := EStateM.Result.ok.inj (hpop.symm.trans hpop₂)
    have hidle₁ : d₁.pendingTxSession = none := by rw [heq]; exact hidle
    obtain ⟨-, hid, -⟩ := Protocol.stateAt_spec hg (h.toOnChain.stateAt_eq hidle)
    have hcopies₁ : d₁.copies = d.copies.tail := by
      rw [← Database.OnChain.history_eq_copies hidle₁, hhist,
        Database.OnChain.history_eq_copies hidle]
    have hnum₁ := headState_step h hg hsound₁
    obtain ⟨hun₁, hfork₁, hfetch₁⟩ := ih hsound₁ hidle₁ fun m hm ↦ by
      obtain ⟨d', hrun, hnum'⟩ := hpops (m + 1) (Nat.succ_le_succ hm)
      exact ⟨d', (popBlocks_succ hpop m).symm.trans hrun, by omega⟩
    refine ⟨fun j hj ↦ ?_, ?_, fun j hj ↦ ?_⟩
    · cases j with
      | zero => exact hun 0 Nat.one_pos
      | succ j =>
        obtain ⟨s, hs, hsnum⟩ := hun₁ j (Nat.lt_of_succ_lt_succ hj)
        rw [hcopies₁, List.getElem?_tail] at hs
        exact ⟨s, hs, by omega⟩
    · rw [ForkDatabase.popBlocks, hfork, Option.bind_some]
      exact hfork₁
    · cases j with
      | zero => exact hid ▸ hfetch
      | succ j =>
        rw [hy] at heq
        rw [List.drop_succ_cons,
          ← fetchBlockById_popBlock hsound₁ hg hlog (headState_lt_num h hg hsound₁) heq]
        exact hfetch₁ j (Nat.lt_of_succ_lt_succ hj)

/-! ## The number -/

/-- The blocks on the stack are known by the ids of its states, and of the head block. -/
theorem known_iff (h : d.Sound P g depth chain) (hg : Base g) (hidle : d.pendingTxSession = none)
    (hun : d.Undoable n) :
    (∀ ix ∈ (d.state :: d.copies).take n, d.fetchBlockById P ix.headBlockId ≠ none) ↔
      ∀ j < n, d.fetchBlockById P (P.tip g (chain.drop j)) ≠ none := by
  have hat : ∀ j < n, ∃ ix, (d.state :: d.copies)[j]? = some ix ∧
      ix.headBlockId = P.tip g (chain.drop j) := by
    intro j hj
    cases j with
    | zero =>
      obtain ⟨-, hid, -⟩ := Protocol.stateAt_spec hg (h.toOnChain.stateAt_eq hidle)
      exact ⟨d.state, rfl, hid⟩
    | succ j =>
      obtain ⟨s, hs, hstate⟩ := h.toOnChain.copy hg (hun.mono hj.le)
      obtain ⟨-, hid, -⟩ := Protocol.stateAt_spec hg hstate
      exact ⟨s, hs, hid⟩
  constructor
  · intro hknown j hj
    obtain ⟨ix, hix, hid⟩ := hat j hj
    rw [← hid]
    exact hknown ix (List.mem_of_getElem? ((List.getElem?_take_of_lt hj).trans hix))
  · intro hfetch ix hix
    obtain ⟨j, hj, rfl⟩ := List.mem_iff_getElem.1 hix
    rw [List.length_take] at hj
    obtain ⟨ix', hix', hid⟩ := hat j (by omega)
    rw [List.getElem_take]
    rw [List.getElem?_eq_getElem (by omega)] at hix'
    rw [Option.some_inj.1 hix', hid]
    exact hfetch j (by omega)

/-- The stack of a node with a pending session has more states than can be gone back to. -/
theorem not_honest_of_pending (h : d.AtRest P g depth chain) (hg : Base g)
    (hpending : d.pendingTxSession ≠ none) : ¬d.Honest P := by
  intro hhonest
  obtain ⟨d₁, hreset, hon₁, hidle₁, hstate₁, -, hkept, heq⟩ :=
    h.toOnChain.resetPendingTxSession_spec
  have hsound₁ : d₁.Sound P g depth chain := by
    refine ⟨hon₁, by rw [heq]; exact h.forkDb, ?_⟩
    rw [← Database.OnChain.state_eq_headState hidle₁, hstate₁, heq]
    exact h.stored
  have hpopBlock : Database.popBlock P d = Database.popBlock P d₁ := by
    rw [Database.popBlock, bind_ok hreset,
      bind_ok (Database.OnChain.resetPendingTxSession_idle hidle₁)]
  have hhead : d₁.state.headBlockNum = d.state.headBlockNum := by
    rw [hstate₁, Indexes.headBlockNum, Indexes.headBlockNum, h.toOnChain.dgp?_eq hg]
  have hpops : ∀ m ≤ d.objects.undoDb.stack.length, ∃ d', Database.popBlocks P m d₁ = .ok () d' ∧
      d'.state.headBlockNum + m = d₁.state.headBlockNum := by
    intro m hm
    cases m with
    | zero => exact ⟨d₁, rfl, rfl⟩
    | succ m =>
      obtain ⟨d', hrun, hnum⟩ := hhonest.poppable (m + 1) (by have := hhonest.eq; omega)
      exact ⟨d', (popBlocks_congr hpopBlock m).symm.trans hrun, hhead ▸ hnum⟩
  obtain ⟨hun, -, -⟩ := undoable_of_popBlocks hsound₁ hg hidle₁ hpops
  have hsize : d.copies.length + 1 = d.objects.undoDb.stack.length := by
    rcases h.session with ⟨hidle, -⟩ | ⟨hsome, -, hne⟩
    · exact absurd hidle hpending
    · obtain ⟨ix, rest, hh⟩ := List.exists_cons_of_ne_nil hne
      rw [← ObjectDatabase.length_history, Database.copies, hsome, hh]
      rfl
  have hle := hun.length_le
  rw [← Database.OnChain.history_eq_copies hidle₁] at hle
  obtain ⟨k, hk, hhist | ⟨-, hhist⟩⟩ := hkept
  · -- the state of the session is gone
    rw [hhist, List.length_take] at hle
    omega
  · -- it was the only one, and one of no block has come in its place
    obtain ⟨s, hs, hnum⟩ := hun 0 (by omega)
    rw [← Database.OnChain.history_eq_copies hidle₁, hhist] at hs
    obtain rfl := Option.some_inj.1 hs
    rw [← Database.OnChain.state_eq_headState hidle₁, hstate₁] at hnum
    omega

/-- **The number is honest** exactly on nodes that can be unwound, wherever calls have led. -/
theorem lastNonUndoable_honest_iff {d₀ : Database C} (h : Reachable P d₀ d) (hg : Base g)
    (hP : P.Nests depth) (hlag : P.Lags g depth) (h₀ : d₀.Opened P g depth)
    (hnum : d.state.headBlockNum < 2 ^ 32) : d.Honest P ↔ d.Unwindable P := by
  obtain ⟨chain, hrest⟩ := h.atRest hg hP hlag h₀
  constructor
  · intro hhonest
    have hidle : d.pendingTxSession = none := by
      by_contra hpending
      exact not_honest_of_pending hrest hg hpending hhonest
    obtain ⟨hun, hlinked, hfetch⟩ := undoable_of_popBlocks hrest.toSound hg hidle
      (n := d.objects.undoDb.stack.length)
      fun m hm ↦ hhonest.poppable m (by have := hhonest.eq; omega)
    exact ⟨hidle, hun, hlinked, (known_iff hrest.toSound hg hidle hun).2 hfetch⟩
  · intro hunwindable
    have hidle := hunwindable.idle
    have hun := hunwindable.undoable
    have hfetch := (known_iff hrest.toSound hg hidle hun).1 hunwindable.known
    obtain ⟨-, -, hlen, -⟩ := Protocol.stateAt_spec hg (hrest.toOnChain.stateAt_eq hidle)
    have hsize : d.objects.undoDb.stack.length ≤ d.state.headBlockNum := by
      have := hun.chain_le hg hrest.toOnChain
      omega
    have heq : d.lastNonUndoableBlockNum.toNat =
        d.state.headBlockNum - d.objects.undoDb.stack.length := by
      have hhead : d.state.headBlockNum.toUInt32.toNat = d.state.headBlockNum :=
        UInt32.toNat_ofNat_of_lt' hnum
      have hstack : d.objects.undoDb.stack.length.toUInt32.toNat =
          d.objects.undoDb.stack.length := UInt32.toNat_ofNat_of_lt' (hsize.trans_lt hnum)
      rw [Database.lastNonUndoableBlockNum, UInt32.toNat_sub_of_le, hhead, hstack]
      rw [UInt32.le_iff_toNat_le, hhead, hstack]
      exact hsize
    refine ⟨by omega, by omega, fun n hn ↦ ?_⟩
    have hle : n ≤ d.objects.undoDb.stack.length := by omega
    obtain ⟨f, hf⟩ := Option.isSome_iff_exists.1
      (ForkDatabase.popBlocks_isSome_of_le hle hunwindable.linked)
    exact popBlocks_ok hrest.toSound hg hidle (hun.mono hle) hf fun j hj ↦
      hfetch j (hj.trans_le hle)

namespace Testnet

/-- The node that has been opened again after the first block. -/
def reopened : Database types where
  objects := { indexes := (pushAll [a1]).state, undoDb := { maxSize := minUndoHistory } }
  forkDb := (pushAll [a1]).forkDb
  blockIdToBlock := (pushAll [a1]).blockIdToBlock

theorem pushAll_a1_idle : (pushAll [a1]).pendingTxSession = none := by decide +kernel

theorem reopened_indexes : reopened.objects.indexes = (pushAll [a1]).state := by rw [reopened]

theorem reopened_forkDb : reopened.forkDb = (pushAll [a1]).forkDb := by rw [reopened]

theorem reopened_blockIdToBlock : reopened.blockIdToBlock = (pushAll [a1]).blockIdToBlock := by
  rw [reopened]

theorem reopened_opened :
    Base (pushAll [a1]).state ∧ reopened.Opened protocol (pushAll [a1]).state 1 := by
  have hrun : Reachable protocol node (pushAll [a1]) := @run_pushAll _ [] .refl a1 trivial
  obtain ⟨chain, hrest⟩ := hrun.atRest base nests lags node_opened
  refine ⟨(Protocol.stateAt_spec base (hrest.toOnChain.stateAt_eq pushAll_a1_idle)).1,
    reopened_indexes, hrest.wf.fresh, ⟨rfl, rfl, rfl⟩, by decide, ⟨rfl, rfl⟩, ?_, ?_⟩
  · rw [reopened_forkDb]
    exact ⟨hrest.forkDb, hrest.held_eq⟩
  · rw [reopened_blockIdToBlock, Database.OnChain.state_eq_headState pushAll_a1_idle]
    exact hrest.stored

/-- When the second block is pushed, it can be popped, and the number says so. -/
theorem lastNonUndoable_honest_second :
    ((Call.pushBlock quiet a2).exec protocol reopened).Honest protocol := by
  obtain ⟨hbase, hopened⟩ := reopened_opened
  refine (lastNonUndoable_honest_iff (Run.refl.call (.pushBlock quiet a2) trivial) hbase nests
    (Protocol.lags_one hbase) hopened (by decide +kernel)).2
    ⟨by decide +kernel, fun j hj ↦ ?_, by decide +kernel, by decide +kernel⟩
  have hcopy : (((Call.pushBlock quiet a2).exec protocol reopened).copies[j]?).any (fun s ↦
      s.headBlockNum + (j + 1) =
        ((Call.pushBlock quiet a2).exec protocol reopened).headState.headBlockNum) = true := by
    revert j
    decide +kernel
  obtain ⟨s, hs, hnum⟩ := (Option.any_eq_true _ _).1 hcopy
  exact ⟨s, hs, of_decide_eq_true hnum⟩

/-- **With a transaction pending on genesis** the number is four billion, where there is no block
at all. -/
theorem lastNonUndoable_wraps :
    Reachable protocol node ((Call.pushTransaction quiet .pay).exec protocol node) ∧
      ((Call.pushTransaction quiet .pay).exec protocol node).state.headBlockNum = 0 ∧
      ((Call.pushTransaction quiet .pay).exec protocol node).lastNonUndoableBlockNum =
        4294967295 ∧
      ¬((Call.pushTransaction quiet .pay).exec protocol node).Honest protocol := by
  have hhead : ((Call.pushTransaction quiet .pay).exec protocol node).state.headBlockNum = 0 := by
    decide +kernel
  have hnum : ((Call.pushTransaction quiet .pay).exec protocol node).lastNonUndoableBlockNum =
      4294967295 := by decide +kernel
  refine ⟨Run.refl.call (.pushTransaction quiet .pay) trivial, hhead, hnum, fun hhonest ↦ ?_⟩
  have hle := hhonest.le
  rw [hhead, hnum] at hle
  exact absurd hle (by decide)

end Testnet

end Graphene
