import Graphene.Chain.AppliedOnce
import Graphene.Chain.ForkSwitch
import Graphene.Lib.Transitions

/-!
# What a switch does to the transactions

A switch to a longer fork takes back blocks, and the destructor of `pending_transactions_restorer`
pushes their transactions again, and after them what was pending.

A transaction of a popped block is pushed again only if it has not been applied by the new branch
and still applies to its end, and only if `pop_block` has found the block it was in.  What is pushed
again first may keep what comes after it from being applied, so the result is described as a
selection that goes through all of them in that order.

* `popBlock_inv`, `popUntil_inv`, `applyFork_inv`, `switchFork_inv` — what a successful switch has
  gone through: which blocks were popped, and what was collected of them.
* `restorePending_selects` — what the destructor leaves pending.
* `Repushed` — what should be left; `reorganisation_keeps_transactions` — and when it is.
* `forged_block_loses_transaction` — `pop_block` asks the fork database for the block, which goes
  by the id; and the id does not cover the transactions, but for their Merkle root, which is checked
  when a block is applied and not when it is stored.
-/

set_option autoImplicit false

namespace Graphene

open Throwing

section

variable {C : ChainTypes} {P : Protocol C} {g : ChainState C} {depth : ℕ}
  {chain chain' : List (SignedBlock C)} {d d' : Database C}

/-- **The state tells the chain**: chains as long as each other that end in the same block are the
same. -/
theorem Protocol.stateAt_inj (hg : Base g) {ix : ChainState C} (h : P.stateAt g chain = some ix)
    (h' : P.stateAt g chain' = some ix) : chain = chain' := by
  obtain ⟨-, htip, hnum, -⟩ := Protocol.stateAt_spec hg h
  obtain ⟨-, htip', hnum', -⟩ := Protocol.stateAt_spec hg h'
  have hlen : chain.length = chain'.length := by omega
  have heq : P.tip g chain = P.tip g chain' := htip.symm.trans htip'
  have hsome : ∃ ix', P.stateAt g chain' = some ix' := ⟨ix, h'⟩
  clear h' htip htip' hnum hnum'
  obtain ⟨ix', h'⟩ := hsome
  induction chain generalizing chain' ix ix' with
  | nil => exact (List.length_eq_zero_iff.1 hlen.symm).symm
  | cons c bs ih =>
    cases chain' with
    | nil => cases hlen
    | cons c' bs' =>
      obtain ⟨hprev, hmerkle⟩ := Protocol.previous_eq_tip hg h
      obtain ⟨hprev', hmerkle'⟩ := Protocol.previous_eq_tip hg h'
      obtain rfl : c = c' := Protocol.eq_of_merkleOk heq hmerkle hmerkle'
      obtain ⟨ix₁, h₁, -⟩ := Option.bind_eq_some_iff.1 h
      obtain ⟨ix₂, h₂, -⟩ := Option.bind_eq_some_iff.1 h'
      rw [ih h₁ (Nat.succ.inj hlen) (hprev.symm.trans hprev') ix₂ h₂]

/-! ## Popping -/

/-- Nothing is popped from an empty undo stack. -/
theorem popBlock_error_of_nil (hidle : d.pendingTxSession = none) (hnil : d.objects.history = []) :
    ∃ d', Database.popBlock P d = .error () d' := by
  have hpop : d.objects.popCommit = none := by
    have hstack : d.objects.undoDb.stack = [] :=
      List.length_eq_zero_iff.1 (by rw [← d.objects.length_history, hnil]; rfl)
    rw [ObjectDatabase.popCommit, hstack]
    split_ifs <;> rfl
  rw [Database.OnChain.popBlock_eq hidle, hpop]
  split
  · split
    · exact ⟨_, rfl⟩
    · exact ⟨_, rfl⟩
  · exact ⟨_, rfl⟩

/-- What a `pop_block` that returns has done: it has gone back to the parent of the head block, or,
where the undo stack ends, nowhere. -/
theorem popBlock_inv (h : d.Sound P g depth chain) (hg : Base g) (hidle : d.pendingTxSession = none)
    (hpop : Database.popBlock P d = .ok () d') :
    d'.pendingTxSession = none ∧ d'.pendingTx = d.pendingTx ∧
      d'.forkDb.index = d.forkDb.index ∧
      (∃ headBlock, d.fetchBlockById P d.state.headBlockId = some headBlock ∧
        d'.poppedTx = headBlock.transactions ++ d.poppedTx) ∧
      (d'.state = d.state ∧ d'.objects.history = [] ∨
        ∃ c bs, chain = c :: bs ∧ d'.Sound P g depth bs) := by
  rw [Database.OnChain.popBlock_eq hidle] at hpop
  split at hpop
  case h_2 => cases hpop
  case h_1 headBlock forkDb hfetch hfork =>
    split at hpop
    case h_2 => cases hpop
    case h_1 log hlog =>
      split at hpop
      case h_2 => cases hpop
      case h_1 objects hobjects =>
        obtain ⟨-, rfl⟩ := EStateM.Result.ok.inj hpop
        obtain ⟨y, rfl⟩ := ForkDatabase.popBlock_eq hfork
        refine ⟨hidle, rfl, rfl, ⟨headBlock, hfetch, rfl⟩, ?_⟩
        obtain ⟨s, rest, -, hix, hhist, -, hcases⟩ := h.toOnChain.popCommit_inv hidle hg hobjects
        rcases hcases with ⟨rfl, rfl, -⟩ | ⟨c, bs, rfl, hon, hnum⟩
        · exact Or.inl ⟨hix, hhist⟩
        · refine Or.inr ⟨c, bs, rfl, ⟨hon.wf, hon.session, hon.room, hon.state_eq, hon.copies,
            hon.dgp_eq⟩, (h.forkDb.popBlock hfork).1, ?_⟩
          have hhead : ({ d with objects } : Database C).headState = s := by
            rw [← Database.OnChain.state_eq_headState (d := { d with objects }) hidle]
            exact hix
          have hstored := h.stored
          rw [← Database.OnChain.state_eq_headState hidle] at hstored
          change ({ d with objects } : Database C).headState.headBlockNum = 0 ∨
            ({ d with objects } : Database C).headState.headBlockNum < log.size
          rw [hhead, (BlockDatabase.remove_spec hlog).1]
          omega

/-- The index of the fork database has an item with the id of the block, and its transactions. -/
def ForkDatabase.Holds (P : Protocol C) (f : ForkDatabase C) (c : SignedBlock C) : Prop :=
  ∃ x ∈ f.index, P.itemId x = P.blockId c ∧ x.data.transactions = c.transactions

/-- **What popping down to a block has gone through**, if it gets there: the blocks above it, whose
transactions are collected in the order of the chain as far as the fork database has them right. -/
theorem popUntil_inv {id : BlockId C} {fuel : ℕ} (h : d.Sound P g depth chain) (hg : Base g)
    (hidle : d.pendingTxSession = none) (hrun : Database.popUntil P id fuel d = .ok () d') :
    ∃ n ≤ chain.length, d'.Sound P g depth (chain.drop n) ∧ P.tip g (chain.drop n) = id ∧
      d'.pendingTxSession = none ∧ d'.pendingTx = d.pendingTx ∧
      ((∀ c ∈ chain.take n, d.forkDb.Holds P c) →
        d'.poppedTx = (chain.take n).reverse.flatMap SignedBlock.transactions ++ d.poppedTx) := by
  induction fuel generalizing d chain with
  | zero => cases hrun
  | succ fuel ih =>
    obtain ⟨-, hid, -⟩ := Protocol.stateAt_spec hg (h.toOnChain.stateAt_eq hidle)
    rw [Database.popUntil, bind_ok (get_apply d)] at hrun
    split_ifs at hrun with hne
    · cases hpop : Database.popBlock P d with
      | error e d₁ =>
        rw [bind_error hpop] at hrun
        cases hrun
      | ok a d₁ =>
        rw [bind_ok hpop] at hrun
        obtain ⟨hidle₁, hpending₁, hindex₁, ⟨headBlock, hfetch, hpopped₁⟩, hstays | hgoes⟩ :=
          popBlock_inv h hg hidle hpop
        · -- at the end of the undo stack the next `pop_block` throws
          obtain ⟨hstate, hnil⟩ := hstays
          cases fuel with
          | zero => cases hrun
          | succ fuel =>
            obtain ⟨d₂, herror⟩ := popBlock_error_of_nil (P := P) hidle₁ hnil
            have hne₁ : d₁.state.headBlockId ≠ id := hstate.symm ▸ hne
            rw [Database.popUntil, bind_ok (get_apply d₁), if_pos hne₁, bind_error herror] at hrun
            cases hrun
        · obtain ⟨c, bs, rfl, hsound₁⟩ := hgoes
          obtain ⟨n, hn, hsound', htip, hidle', hpending', hpopped'⟩ := ih hsound₁ hidle₁ hrun
          refine ⟨n + 1, Nat.succ_le_succ hn, hsound', htip, hidle', hpending'.trans hpending₁,
            fun hholds ↦ ?_⟩
          rw [List.take_succ_cons] at hholds
          obtain ⟨⟨x, hx, hxid, htxs⟩, hrest⟩ := List.forall_mem_cons.1 hholds
          have hfound : d.fetchBlockById P d.state.headBlockId = some x.data := by
            have hhead : d.state.headBlockId = P.itemId x := hid.trans hxid.symm
            rw [Database.fetchBlockById, hhead, h.forkDb.fetchBlock_of_mem hx]
          obtain rfl := Option.some_inj.1 (hfetch.symm.trans hfound)
          have hholds₁ : ∀ c ∈ bs.take n, d₁.forkDb.Holds P c := by
            intro c' hc'
            obtain ⟨y, hy, hspec⟩ := hrest c' hc'
            exact ⟨y, hindex₁ ▸ hy, hspec⟩
          rw [hpopped' hholds₁, hpopped₁, htxs, List.take_succ_cons, List.reverse_cons,
            List.flatMap_append, List.flatMap_singleton, List.append_assoc]
    · obtain ⟨-, rfl⟩ := EStateM.Result.ok.inj hrun
      exact ⟨0, Nat.zero_le _, h, hid.symm.trans (not_not.1 hne), hidle, rfl, fun _ ↦ rfl⟩

/-! ## The new branch -/

/-- **What a switch has gone through** once it is down at the block where the branches part. -/
theorem applyFork_inv {newBlock : SignedBlock C} {front : ForkItem C} {base : BlockId C}
    {old new : List (ForkItem C)} (h : d.Sound P g depth chain) (hg : Base g) (hP : P.Nests depth)
    (hlag : P.Lags g depth) (hidle : d.pendingTxSession = none)
    (hrun : Database.applyFork P newBlock front base old new d = .ok () d') :
    d'.Sound P g depth ((new.map ForkItem.data).reverse ++ chain) ∧ d'.pendingTxSession = none ∧
      d'.pendingTx = d.pendingTx ∧ d'.poppedTx = d.poppedTx := by
  induction new generalizing d chain with
  | nil =>
    obtain ⟨-, rfl⟩ := EStateM.Result.ok.inj hrun
    exact ⟨h, hidle, rfl, rfl⟩
  | cons x xs ih =>
    cases happly : P.applyBlock d.state x.data with
    | none =>
      obtain ⟨d₁, herror, -⟩ :=
        h.applyAndStore_error hidle hg hlag (hP.block x.data) happly (P.itemId x)
      rw [applyFork_error herror] at hrun
      cases hrun
    | some ix =>
      obtain ⟨d₁, hok, hsound₁, -, -, -, heq⟩ :=
        h.applyAndStore_ok hidle hg hlag (hP.block x.data) happly
          (Or.inl (le_refl (P.itemId x).num))
      have hidle₁ : d₁.pendingTxSession = none := by rw [heq]; exact hidle
      rw [Database.applyFork, bind_ok (tryCatch_ok hok)] at hrun
      obtain ⟨hsound', hidle', hpending', hpopped'⟩ := ih hsound₁ hidle₁ hrun
      refine ⟨?_, hidle', hpending'.trans (by rw [heq]), hpopped'.trans (by rw [heq])⟩
      rw [List.map_cons, List.reverse_cons, List.append_assoc]
      exact hsound'

/-- **What a successful switch comes to**: the branch the head block was on is popped, and the other
one is on the chain. -/
theorem switchFork_inv (h : d.AtRest P g depth chain) (hg : Base g) (hP : P.Nests depth)
    (hlag : P.Lags g depth) (hidle : d.pendingTxSession = none) {newBlock : SignedBlock C}
    {newHead : ForkItem C} (hhead : d.forkDb.head = some newHead)
    (hlt : d.state.headBlockNum < newHead.num)
    (hrun : Database.switchFork P newBlock newHead d = .ok () d') :
    ∃ first second,
      d.forkDb.fetchBranchFrom P (P.itemId newHead) d.state.headBlockId = some (first, second) ∧
      second.length ≤ chain.length ∧
      d'.Sound P g depth (first.map ForkItem.data ++ chain.drop second.length) ∧
      d'.pendingTxSession = none ∧ d'.pendingTx = d.pendingTx ∧
      ((∀ c ∈ chain.take second.length, ∀ x ∈ d.forkDb.index, P.itemId x = P.blockId c →
          x.data.transactions = c.transactions) →
        d'.poppedTx = (chain.take second.length).reverse.flatMap SignedBlock.transactions ++
          d.poppedTx) := by
  cases hfetch : d.forkDb.fetchBranchFrom P (P.itemId newHead) d.state.headBlockId with
  | none =>
    rw [switchFork_none hfetch] at hrun
    cases hrun
  | some branches =>
    obtain ⟨first, second⟩ := branches
    refine ⟨first, second, rfl, ?_⟩
    obtain ⟨hfirst, hsecond, -⟩ := h.forkDb.fetchBranchFrom_spec hfetch
    obtain ⟨front, back, hfront, hback, hfrontId, -⟩ := hsecond.ends
    have hstate := h.toOnChain.stateAt_eq hidle
    obtain ⟨hbase, hid, hnum, -⟩ := Protocol.stateAt_spec hg hstate
    obtain ⟨-, hmem⟩ := fetchBranchFrom_index h.forkDb h.held_eq hhead hfetch
      (hbase.num_eq.trans_le hlt.le)
    rw [switchFork_some hfetch hfront hback] at hrun
    have hheld : (d.hold (first ++ second)).forkDb.WF P := by
      refine h.forkDb.hold fun x hx ↦ ?_
      exact (List.mem_append.1 hx).elim (hfirst.mem_alive x) (hsecond.mem_alive x)
    have hsound : (d.hold (first ++ second)).Sound P g depth chain :=
      h.toSound.of_forkDb hheld le_rfl
    cases hpop : Database.popTo P back.previousId (d.hold (first ++ second)) with
    | error e d₁ =>
      rw [Database.switchTo, bind_error hpop] at hrun
      cases hrun
    | ok a d₁ =>
      obtain ⟨n, hn, hsound₁, htip, hidle₁, hpending₁, hpopped₁⟩ :=
        popUntil_inv hsound hg hidle ((bind_ok (get_apply _)).symm.trans hpop)
      -- as many blocks have been popped as the branch has
      obtain rfl : n = second.length := by
        obtain ⟨ix, hix⟩ := Protocol.stateAt_drop hstate n
        obtain ⟨hbase₁, hid₁, hnum₁, -⟩ := Protocol.stateAt_spec hg hix
        have hbackNum : back.num = back.previousId.num + 1 := rfl
        have hfrontNum : front.num = d.state.headBlockId.num := congrArg BlockId.num hfrontId
        have hlen := branch_length hsecond.chain hfront hback
        rw [List.length_drop] at hnum₁
        rw [hbackNum, ← htip, ← hid₁, hbase₁.num_eq, hnum₁, hfrontNum, hbase.num_eq, hnum] at hlen
        omega
      rw [Database.switchTo, bind_ok hpop] at hrun
      cases happly : Database.applyFork P newBlock front back.previousId second.reverse
          first.reverse d₁ with
      | error e d₂ =>
        rw [happly] at hrun
        cases hrun
      | ok a d₂ =>
        rw [happly] at hrun
        obtain ⟨-, rfl⟩ := EStateM.Result.ok.inj hrun
        obtain ⟨hsound₂, hidle₂, hpending₂, hpopped₂⟩ :=
          applyFork_inv hsound₁ hg hP hlag hidle₁ happly
        rw [List.map_reverse, List.reverse_reverse] at hsound₂
        refine ⟨hn, hsound₂.of_forkDb hsound₂.forkDb.letGo le_rfl, hidle₂,
          hpending₂.trans hpending₁, fun hown ↦ hpopped₂.trans (hpopped₁ fun c hc ↦ ?_)⟩
        -- the branch is in the index, and it has the ids of the blocks that are popped
        have hids := branch_ids hg hstate (hid ▸ hsecond) hn
        have hcmem : P.blockId c ∈ second.map P.itemId := by
          rw [hids]
          exact List.mem_map_of_mem hc
        obtain ⟨x, hx, hxid⟩ := List.mem_map.1 hcmem
        exact ⟨x, hmem x hx, hxid, hown c hc x (hmem x hx) hxid⟩

/-! ## The destructor -/

/-- The transactions that still apply when they are pushed on the state `ix`, one after the
other. -/
def Protocol.stillApplying (P : Protocol C) : ChainState C → List C.Tx → List C.Tx :=
  Transitions.admitted P.applyTransaction

/-- A transaction that is known is rejected. -/
def Protocol.RejectsKnown (P : Protocol C) : Prop :=
  ∀ ix tx, P.isKnownTransaction ix tx = true → P.applyTransaction ix tx = none

variable {obs : Observers C}

/-- One transaction is pushed again, or passed over. -/
theorem repushTransaction_selects (h : d.OnChain P g depth chain) {tx : C.Tx}
    (hP : P.TxNests depth tx) (hknown : P.RejectsKnown) (hquiet : obs.Quiet) :
    ∃ d', Database.repushTransaction P obs tx d = .ok () d' ∧ d'.OnChain P g depth chain ∧
      (P.applyTransaction d.state tx = some d'.state ∧ d'.pendingTx = d.pendingTx ++ [tx] ∨
        P.applyTransaction d.state tx = none ∧ d'.state = d.state ∧
          d'.pendingTx = d.pendingTx) := by
  rw [Database.repushTransaction, bind_ok (get_apply d)]
  split_ifs with hisKnown
  · exact ⟨d, rfl, h, Or.inr ⟨hknown _ _ hisKnown, rfl, rfl⟩⟩
  · obtain ⟨d', hexit, hkeeps, -, -, hcases⟩ := h._pushTransaction_spec hP obs
    have hrun : tryCatch (Database._pushTransaction P obs tx) (fun _ ↦ return ()) d =
        .ok () d' := by
      cases hpush : Database._pushTransaction P obs tx d with
      | ok a d₁ =>
        rw [hpush] at hexit
        exact hexit ▸ tryCatch_ok hpush
      | error e d₁ =>
        rw [hpush] at hexit
        exact hexit ▸ (tryCatch_error hpush).trans rfl
    refine ⟨d', hrun, hkeeps.onChain, ?_⟩
    rcases hcases with happly | hnone | ⟨⟨d₂, hthrows⟩, -⟩
    · exact Or.inl happly
    · exact Or.inr hnone
    · rw [hquiet d₂] at hthrows
      cases hthrows

/-- The loops of the destructor keep what still applies. -/
theorem repushTransactions_selects {txs : List C.Tx} (h : d.OnChain P g depth chain)
    (hP : ∀ tx ∈ txs, P.TxNests depth tx) (hknown : P.RejectsKnown) (hquiet : obs.Quiet) :
    ∃ d', txs.forM (Database.repushTransaction P obs) d = .ok () d' ∧
      d'.OnChain P g depth chain ∧ d'.pendingTx = d.pendingTx ++ P.stillApplying d.state txs ∧
      ∀ more, P.stillApplying d.state (txs ++ more) =
        P.stillApplying d.state txs ++ P.stillApplying d'.state more := by
  induction txs generalizing d with
  | nil => exact ⟨d, rfl, h, (List.append_nil _).symm, fun _ ↦ rfl⟩
  | cons tx txs ih =>
    obtain ⟨d₁, hrun₁, h₁, hout⟩ :=
      repushTransaction_selects h (hP tx List.mem_cons_self) hknown hquiet
    obtain ⟨d₂, hrun₂, h₂, hpending₂, happend⟩ :=
      ih h₁ fun tx htx ↦ hP tx (List.mem_cons_of_mem _ htx)
    refine ⟨d₂, (bind_ok hrun₁).trans hrun₂, h₂, ?_, fun more ↦ ?_⟩
    · rw [hpending₂, Protocol.stillApplying, Transitions.admitted]
      rcases hout with ⟨happly, hpending⟩ | ⟨hnone, hstate, hpending⟩
      · rw [happly, hpending, List.append_assoc]
        rfl
      · rw [hnone, hpending, hstate]
    · rw [List.cons_append, Protocol.stillApplying, Transitions.admitted, Transitions.admitted]
      rcases hout with ⟨happly, -⟩ | ⟨hnone, hstate, -⟩
      · rw [happly]
        exact congrArg (tx :: ·) (happend more)
      · rw [hnone, ← hstate]
        exact happend more

/-- **What the destructor of `pending_transactions_restorer` leaves pending**: what still applies of
the transactions of the popped blocks, and after them of what was pending. -/
theorem restorePending_selects (h : d.OnChain P g depth chain) (hP : P.Nests depth)
    (hknown : P.RejectsKnown) (hquiet : obs.Quiet) (hnil : d.pendingTx = [])
    (pending : List C.Tx) (hrun : Database.restorePending P obs pending d = .ok () d') :
    d'.pendingTx = P.stillApplying d.state (d.poppedTx ++ pending) := by
  obtain ⟨d₁, hrun₁, h₁, hpending₁, happend⟩ :=
    repushTransactions_selects h (fun tx (_ : tx ∈ d.poppedTx) ↦ hP.tx tx) hknown hquiet
  have hforget : ({ d₁ with poppedTx := [] } : Database C).OnChain P g depth chain :=
    ⟨h₁.wf, h₁.session, h₁.room, h₁.state_eq, h₁.copies, h₁.dgp_eq⟩
  obtain ⟨d₂, hrun₂, -, hpending₂, -⟩ :=
    repushTransactions_selects hforget (fun tx (_ : tx ∈ pending) ↦ hP.tx tx) hknown hquiet
  have hcall : Database.restorePending P obs pending d = .ok () d₂ := by
    rw [Database.restorePending, bind_ok (get_apply d), bind_ok hrun₁,
      bind_ok (modify_apply _ d₁)]
    exact hrun₂
  obtain ⟨-, rfl⟩ := EStateM.Result.ok.inj (hcall.symm.trans hrun)
  rw [hpending₂, happend, ← List.nil_append (P.stillApplying d.state d.poppedTx), ← hnil,
    ← hpending₁]
  rfl

/-! ## `push_block` -/

/-- The branches between which a `push_block` of `b` switches, if it does. -/
def Database.branches (P : Protocol C) (d : Database C) (b : SignedBlock C) :
    Option (List (ForkItem C) × List (ForkItem C)) := do
  let f ← d.forkDb.pushBlock P b
  let newHead ← f.head
  f.fetchBranchFrom P (P.itemId newHead) d.headState.headBlockId

/-- **What a `push_block` that switches forks leaves.** -/
theorem pushBlock_inv (h : d.AtRest P g depth chain) (hg : Base g) (hP : P.Nests depth)
    (hlag : P.Lags g depth) (hknown : P.RejectsKnown) (hquiet : obs.Quiet)
    {b : SignedBlock C} (hrun : Database.pushBlock P obs b d = .ok true d') :
    ∃ first second, d.branches P b = some (first, second) ∧ second.length ≤ chain.length ∧
      P.stateAt g (first.map ForkItem.data ++ chain.drop second.length) = some d'.headState ∧
      ((∀ c ∈ chain.take second.length, ∀ b' ∈ b :: d.forkDb.index.map ForkItem.data,
          P.blockId b' = P.blockId c → b'.transactions = c.transactions) →
        d'.pendingTx = P.stillApplying d'.headState
          ((chain.take second.length).reverse.flatMap SignedBlock.transactions ++
            d.poppedTx ++ d.pendingTx)) := by
  obtain ⟨d₁, d₂, d₃, chain₂, -, hrest₁, hkeeps₁, hidle₁, hpending₁, hpopped₁, hexit, hrest₂,
    hidle₂, hpending₂, hrestore, hkeeps₃, -, -, heq⟩ := h.pushBlock_eq hg hP hlag obs b
  have hfork₁ : d₁.forkDb = d.forkDb := hkeeps₁.forkDb_eq
  have hhead₁ : d₁.state = d.headState :=
    (Database.OnChain.state_eq_headState hidle₁).trans hkeeps₁.headState_eq
  rw [hrun] at heq
  -- only a switch makes `_push_block` return `true`
  obtain ⟨f, newHead, hpush, hhead, hlt, hswitch⟩ : ∃ f newHead,
      d₁.forkDb.pushBlock P b = some f ∧ f.head = some newHead ∧
      d₁.state.headBlockNum < newHead.num ∧
      Database.switchFork P b newHead { d₁ with forkDb := f } = .ok () d₂ := by
    cases hpush : d₁.forkDb.pushBlock P b with
    | none =>
      rw [_pushBlock_error hpush] at heq
      cases heq
    | some f =>
      obtain ⟨newHead, hhead⟩ := ForkDatabase.head_of_pushBlock hpush
      by_cases hprev : newHead.previousId = d₁.state.headBlockId
      · rw [_pushBlock_extend hpush hhead hprev] at heq
        cases happly : Database.applyAndStore P (P.blockId b) b { d₁ with forkDb := f } with
        | ok a d' =>
          rw [happly] at heq
          cases heq
        | error e d' =>
          rw [happly] at heq
          cases heq
      by_cases hlt : d₁.state.headBlockNum < newHead.num
      · rw [_pushBlock_switch hpush hhead hprev hlt] at heq hexit
        refine ⟨f, newHead, rfl, hhead, hlt, ?_⟩
        cases hswitch : Database.switchFork P b newHead { d₁ with forkDb := f } with
        | ok a d' =>
          rw [hswitch] at hexit
          exact congrArg (EStateM.Result.ok ()) hexit
        | error e d' =>
          rw [hswitch] at heq
          cases heq
      · rw [_pushBlock_stay hpush hhead hprev (not_lt.1 hlt)] at heq
        cases heq
  obtain rfl : d' = d₃ := by
    cases hbody : Database._pushBlock P b d₁ with
    | ok r d' =>
      rw [hbody] at heq
      exact (EStateM.Result.ok.inj heq).2
    | error e d' =>
      rw [hbody] at heq
      cases heq
  obtain ⟨item, hlink, hindex, -, hheld, -⟩ := ForkDatabase.pushBlock_spec hpush
  have hrest : ({ d₁ with forkDb := f } : Database C).AtRest P g depth chain :=
    ⟨hrest₁.toSound.of_forkDb (hrest₁.forkDb.pushBlock hpush) le_rfl,
      hheld.trans hrest₁.held_eq⟩
  obtain ⟨first, second, hfetch, hle, hsound₂, -, -, hpopped₂⟩ :=
    switchFork_inv hrest hg hP hlag hidle₁ hhead hlt hswitch
  have hstate₂ : d₂.state = d'.headState :=
    (Database.OnChain.state_eq_headState hidle₂).trans hkeeps₃.headState_eq.symm
  refine ⟨first, second, ?_, hle, hstate₂ ▸ hsound₂.toOnChain.stateAt_eq hidle₂, fun hown ↦ ?_⟩
  · rw [Database.branches, ← hfork₁, hpush, Option.bind_eq_bind, Option.bind_some, hhead,
      Option.bind_eq_bind, Option.bind_some, ← hhead₁]
    exact hfetch
  · have hselect := restorePending_selects hrest₂.toOnChain hP hknown hquiet hpending₂ d.pendingTx
      hrestore
    rw [hselect, hstate₂, hpopped₂ fun c hc x hx hid ↦ ?_]
    · rw [← hpopped₁]
    · refine hown c hc x.data ?_ hid
      rcases ((hindex x).1 hx).1 with hmem | ⟨rfl, -⟩
      · exact List.mem_cons_of_mem _ (List.mem_map_of_mem (hfork₁ ▸ hmem))
      · rw [(ForkDatabase.link_spec hlink).2.1]
        exact List.mem_cons_self

end

/-! ## Transactions with an id -/

variable {T : TransactionTypes} {R : TransactionRules T}

theorem rejectsKnown : R.protocol.RejectsKnown := by
  intro ix tx hisKnown
  have hknows : ix.Knows (T.trxId tx) := of_decide_eq_true hisKnown
  have hremembers : Remembers ix tx := Or.inl hknows
  exact hremembers.rejects rfl

/-- What should be left pending of `candidates`, on the state `ix` at the end of `chain`. -/
structure Repushed (R : TransactionRules T) (chain : List (SignedBlock T.types))
    (ix : ChainState T.types) (candidates kept : List T.Tx) : Prop where
  /-- It is a subsequence. -/
  sublist : kept.Sublist candidates
  /-- A transaction that applies in its turn, when those before it have been pushed, is kept. -/
  complete : ∀ before tx after, candidates = before ++ tx :: after →
    ∀ ix', (R.protocol.stillApplying ix before).foldlM R.protocol.applyTransaction ix = some ix' →
      (R.protocol.applyTransaction ix' tx).isSome →
      ∃ rest, kept = R.protocol.stillApplying ix before ++ tx :: rest
  /-- None of it is on the chain. -/
  fresh : ∀ tx ∈ kept, T.trxId tx ∉ (chainTransactions chain).map T.trxId

/-- What still applies is what should be left. -/
theorem repushed_stillApplying {g ix : ChainState T.types} {chain : List (SignedBlock T.types)}
    (h : R.protocol.stateAt g chain = some ix) (candidates : List T.Tx) :
    Repushed R chain ix candidates (R.protocol.stillApplying ix candidates) where
  sublist := Transitions.admitted_sublist ix candidates
  complete := by
    rintro before tx after rfl ix' hix' happly
    exact Transitions.admitted_of_isSome hix' happly
  fresh := by
    intro tx htx hmem
    obtain ⟨ix', happlied, -⟩ :=
      Transitions.admitted_append ix candidates
    obtain ⟨honce, -⟩ := (stateAt_appliedOnce h).transactions happlied
    have hnodup := honce.nodup
    rw [List.map_append] at hnodup
    exact List.disjoint_of_nodup_append hnodup (List.mem_map_of_mem htx) hmem

/-- **A switch to a longer fork keeps the transactions**, from every reachable node on which no
popped transactions are left over: what is pending afterwards is what should be left of the
transactions of the popped blocks, in the order of the chain, and of what was pending — if no
observer of `changed_objects` throws, and no block that is pushed or known to the fork database has
the id of a popped block and other transactions. -/
theorem reorganisation_keeps_transactions {g : ChainState T.types} (hg : Base g)
    {d₀ d d' : Database T.types} (h₀ : d₀.Opened R.protocol g 1)
    (hreach : Reachable R.protocol d₀ d) (hpopped : d.poppedTx = []) {obs : Observers T.types}
    (hquiet : obs.Quiet) {b : SignedBlock T.types}
    (hpush : Database.pushBlock R.protocol obs b d = .ok true d')
    {chain : List (SignedBlock T.types)} (hchain : R.protocol.stateAt g chain = some d.headState) :
    ∃ first second, d.branches R.protocol b = some (first, second) ∧
      second.length ≤ chain.length ∧
      let newChain := first.map ForkItem.data ++ chain.drop second.length
      let popped := chain.take second.length
      R.protocol.stateAt g newChain = some d'.headState ∧
        ((∀ c ∈ popped, ∀ b' ∈ b :: d.forkDb.index.map ForkItem.data,
            R.protocol.blockId b' = R.protocol.blockId c → b'.transactions = c.transactions) →
          Repushed R newChain d'.headState (chainTransactions popped.reverse ++ d.pendingTx)
            d'.pendingTx) := by
  have hlag := Protocol.lags_one (P := R.protocol) hg
  obtain ⟨chain₀, hrest⟩ := hreach.atRest hg R.nests hlag h₀
  obtain rfl := Protocol.stateAt_inj hg hchain hrest.state_eq
  obtain ⟨first, second, hbranches, hle, hnew, hkept⟩ :=
    pushBlock_inv hrest hg R.nests hlag rejectsKnown hquiet hpush
  refine ⟨first, second, hbranches, hle, hnew, fun hown ↦ ?_⟩
  rw [hkept hown, hpopped, List.append_nil]
  exact repushed_stillApplying hnew _

/-- The blocks of a chain have the Merkle roots of their transactions, so no others are mistaken for
them but such as have not. -/
theorem transactions_eq_of_merkleOk {C : ChainTypes} {P : Protocol C} {g ix : ChainState C}
    (hg : Base g) {chain : List (SignedBlock C)} (h : P.stateAt g chain = some ix)
    {b c : SignedBlock C} (hc : c ∈ chain) (hb : P.MerkleOk b) (hid : P.blockId b = P.blockId c) :
    b.transactions = c.transactions := by
  induction chain generalizing ix with
  | nil => cases hc
  | cons c' bs ih =>
    rcases List.mem_cons.1 hc with rfl | hc
    · rw [Protocol.eq_of_merkleOk hid hb (Protocol.previous_eq_tip hg h).2]
    · obtain ⟨ix₁, h₁, -⟩ := Option.bind_eq_some_iff.1 h
      exact ih h₁ hc

namespace Testnet

/-- The observers of the small chain. -/
def watching : Observers expiring.types := ⟨fun _ ↦ false, fun _ _ ↦ false⟩

/-- A block on top of the block `previous`. -/
def payBlock (previous : BlockId expiring.types) (timestamp : ℕ) (root txs : List Tx) :
    SignedBlock expiring.types :=
  ⟨⟨previous, .root root, ⟨timestamp, ()⟩⟩, txs⟩

/-- The id of the first block. -/
def firstId : BlockId expiring.types :=
  expiringRules.protocol.blockId (payBlock (BlockId.zero _) 5 [] [])

/-- A block with a payment. -/
def paid : SignedBlock expiring.types := payBlock firstId 12 [.pay] [.pay]

/-- Its header, without the payment. -/
def forged : SignedBlock expiring.types := payBlock firstId 12 [.pay] []

/-- The fork: a block next to the payment, and one on top of it. -/
def rivals : SignedBlock expiring.types × SignedBlock expiring.types :=
  let rival := payBlock firstId 14 [] []
  (rival, payBlock (expiringRules.protocol.blockId rival) 20 [] [])

/-- The node after the calls. -/
def afterCalls (calls : List (Call expiring.types)) : Database expiring.types :=
  calls.foldl (fun d c ↦ c.exec expiringRules.protocol d) expiringNode

theorem afterCalls_reachable (calls : List (Call expiring.types)) :
    Reachable expiringRules.protocol expiringNode (afterCalls calls) := by
  have hfrom : ∀ d, Reachable expiringRules.protocol expiringNode d →
      Reachable expiringRules.protocol expiringNode
        (calls.foldl (fun d c ↦ c.exec expiringRules.protocol d) d) := by
    induction calls with
    | nil => exact fun d hd ↦ hd
    | cons c calls ih => exact fun d hd ↦ ih _ (hd.call c trivial)
  exact hfrom expiringNode .refl

/-- The payment is on the chain, the first block of the fork is known, and something is pending. -/
def beforeSwitch : Database expiring.types :=
  afterCalls [.pushBlock watching (payBlock (BlockId.zero _) 5 [] []), .pushBlock watching paid,
    .pushBlock watching rivals.1, .pushTransaction watching .propose]

/-- The node after a block that makes it switch. -/
def afterSwitch (d : Database expiring.types) (b : SignedBlock expiring.types) :
    Option (Database expiring.types) :=
  match Database.pushBlock expiringRules.protocol watching b d with
  | .ok true d' => some d'
  | _ => none

theorem pushBlock_of_afterSwitch {d d' : Database expiring.types} {b : SignedBlock expiring.types}
    (h : afterSwitch d b = some d') :
    Database.pushBlock expiringRules.protocol watching b d = .ok true d' := by
  rw [afterSwitch] at h
  split at h
  · obtain rfl := Option.some_inj.1 h
    assumption
  · cases h

/-- The pending transactions. -/
def pendingOf (d : Database expiring.types) : List Tx := d.pendingTx

/-- The second block of the fork makes the node switch; the payment becomes pending again, before
what was. -/
theorem switch_keeps_payment : ∃ d' first second chain,
    Database.pushBlock expiringRules.protocol watching rivals.2 beforeSwitch = .ok true d' ∧
      expiringRules.protocol.stateAt expiringGenesis chain = some beforeSwitch.headState ∧
      beforeSwitch.branches expiringRules.protocol rivals.2 = some (first, second) ∧
      Repushed expiringRules (first.map ForkItem.data ++ chain.drop second.length) d'.headState
        (chainTransactions (chain.take second.length).reverse ++ beforeSwitch.pendingTx)
        d'.pendingTx ∧
      pendingOf beforeSwitch = [.propose] ∧ pendingOf d' = [.pay, .propose] := by
  have hreach : Reachable expiringRules.protocol expiringNode beforeSwitch :=
    afterCalls_reachable _
  obtain ⟨chain, hrest⟩ := hreach.atRest expiringGenesis_base expiringRules.nests
    (Protocol.lags_one expiringGenesis_base) expiringNode_opened
  have hchain := hrest.state_eq
  have hrun : (afterSwitch beforeSwitch rivals.2).map pendingOf = some [.pay, .propose] := by
    decide +kernel
  obtain ⟨d', hafter, hpending⟩ := Option.map_eq_some_iff.1 hrun
  have hpush := pushBlock_of_afterSwitch hafter
  have hquiet : watching.Quiet := fun _ ↦ rfl
  obtain ⟨first, second, hbranches, -, -, hkept⟩ := reorganisation_keeps_transactions
    expiringGenesis_base expiringNode_opened hreach (by decide +kernel) hquiet hpush hchain
  have hgenuine : ∀ b' ∈ rivals.2 :: beforeSwitch.forkDb.index.map ForkItem.data,
      expiringRules.protocol.MerkleOk b' := by
    decide +kernel
  refine ⟨d', first, second, chain, hpush, hchain, hbranches, ?_, by decide +kernel, hpending⟩
  exact hkept fun c hc b' hb' hid ↦ transactions_eq_of_merkleOk expiringGenesis_base hchain
    (List.mem_of_mem_take hc) (hgenuine b' hb') hid

/-- The fork database has been given the forged block before the node was brought back to the first
block and the payment was made; the first block of the fork is known. -/
def beforeLoss : Database expiring.types :=
  afterCalls [.pushBlock watching (payBlock (BlockId.zero _) 5 [] []),
    .pushBlock watching (payBlock firstId 10 [] []), .pushBlock watching forged, .popBlock,
    .pushBlock watching paid, .pushBlock watching rivals.1]

/-- The chain ends in the payment. -/
theorem beforeLoss_chain {chain : List (SignedBlock expiring.types)}
    (h : expiringRules.protocol.stateAt expiringGenesis chain = some beforeLoss.headState) :
    ∃ bs, chain = paid :: bs := by
  obtain ⟨-, htip, -⟩ := Protocol.stateAt_spec expiringGenesis_base h
  have hhead : beforeLoss.headState.headBlockId = expiringRules.protocol.blockId paid := by
    decide +kernel
  cases chain with
  | nil =>
    have hzero : BlockId.zero expiring.types = expiringRules.protocol.blockId paid :=
      htip.symm.trans hhead
    exact absurd hzero (by decide +kernel)
  | cons c bs =>
    obtain rfl : c = paid := Protocol.eq_of_merkleOk (htip.symm.trans hhead)
      (Protocol.previous_eq_tip expiringGenesis_base h).2 (by decide +kernel)
    exact ⟨bs, rfl⟩

/-- **A forged block makes the switch lose a transaction**, which would apply on the new chain. -/
theorem forged_block_loses_transaction :
    Reachable expiringRules.protocol expiringNode beforeLoss ∧ beforeLoss.poppedTx = [] ∧
    watching.Quiet ∧ ∃ d' first second chain,
      Database.pushBlock expiringRules.protocol watching rivals.2 beforeLoss = .ok true d' ∧
      expiringRules.protocol.stateAt expiringGenesis chain = some beforeLoss.headState ∧
      beforeLoss.branches expiringRules.protocol rivals.2 = some (first, second) ∧
      ¬ Repushed expiringRules (first.map ForkItem.data ++ chain.drop second.length) d'.headState
        (chainTransactions (chain.take second.length).reverse ++ beforeLoss.pendingTx)
        d'.pendingTx := by
  have hreach : Reachable expiringRules.protocol expiringNode beforeLoss := afterCalls_reachable _
  obtain ⟨chain, hrest⟩ := hreach.atRest expiringGenesis_base expiringRules.nests
    (Protocol.lags_one expiringGenesis_base) expiringNode_opened
  have hchain := hrest.state_eq
  have hrun : (afterSwitch beforeLoss rivals.2).map (fun d' ↦
      (pendingOf d', (expiringRules.protocol.applyTransaction d'.headState .pay).isSome)) =
        some ([], true) := by
    decide +kernel
  obtain ⟨d', hafter, heq⟩ := Option.map_eq_some_iff.1 hrun
  obtain ⟨hpending, happly⟩ := Prod.mk.inj heq
  have hbranch : (beforeLoss.branches expiringRules.protocol rivals.2).map (·.2.length) =
      some 1 := by
    decide +kernel
  obtain ⟨⟨first, second⟩, hbranches, hlen⟩ := Option.map_eq_some_iff.1 hbranch
  obtain ⟨bs, rfl⟩ := beforeLoss_chain hchain
  refine ⟨hreach, by decide +kernel, fun _ ↦ rfl, d', first, second, paid :: bs,
    pushBlock_of_afterSwitch hafter, hchain, hbranches, fun h ↦ ?_⟩
  have hnone : pendingOf beforeLoss = [] := by decide +kernel
  have hcandidates : chainTransactions ((paid :: bs).take second.length).reverse ++
      beforeLoss.pendingTx = ([] ++ .pay :: [] : List expiring.Tx) := by
    change second.length = 1 at hlen
    rw [hlen]
    exact congrArg (List.cons Tx.pay) hnone
  obtain ⟨rest, hkept⟩ := h.complete [] .pay [] hcandidates d'.headState rfl happly
  change d'.pendingTx = _ at hpending
  rw [hpending] at hkept
  cases hkept

end Testnet

end Graphene
