import Graphene.Chain.ForkSwitch
import Graphene.Chain.Testnet

/-!
# The head of the fork database

The fork database has a head of its own, which `push_block`, `pop_block` and `set_head` move, and
the chain has its head block.  They should be the same block after every call.

* `Database.Synced` — they are, or both are at genesis.
* `Call.KeepsSync` — the calls that keep them so: no block that is applied to the head block fails,
  and a switch to a longer fork fails at its first block.
* `fork_head_synced` — along every run of such calls the two heads stay the same.
* `rejected_block_stays_head`, `switched_fork_head` — otherwise they part: a rejected block stays
  the head of the fork database, and so does an ancestor of the head block after a switch.
-/

set_option autoImplicit false

namespace Graphene

open Throwing

variable {C : ChainTypes} {P : Protocol C} {g : ChainState C} {depth : ℕ}

/-- The head of the fork database is the head block, or both are at genesis. -/
def Database.Synced (P : Protocol C) (d : Database C) : Prop :=
  (∃ x, d.forkDb.head = some x ∧ P.itemId x = d.state.headBlockId) ∨
    d.forkDb.head = none ∧ d.state.headBlockNum = 0

/-- The switch gets down to where the branches part, and there the first block of the new branch
does not apply; the items of the old branch are the blocks that were applied. -/
structure Database.FailsAtOnce (P : Protocol C) (d : Database C) (newHead : ForkItem C)
    (first second : List (ForkItem C)) : Prop extends d.Reaches P newHead first second where
  /-- The block that does not apply, and the state it does not apply to. -/
  failing : ∃ s x, d.copies[second.length - 1]? = some s ∧ first.getLast? = some x ∧
    P.applyBlock s x.data = none
  /-- The old branch. -/
  genuine : ∀ x ∈ second, P.MerkleOk x.data

/-- What keeps the two heads the same when a block is pushed: if it is tried on the head block, it
applies; if the node switches to a longer fork, the switch fails at its first block. -/
def Database.SyncsPush (P : Protocol C) (d : Database C) (b : SignedBlock C) : Prop :=
  ∀ f newHead, d.forkDb.pushBlock P b = some f → f.head = some newHead →
    (newHead.previousId = d.state.headBlockId → (P.applyBlock d.state b).isSome) ∧
      (newHead.previousId ≠ d.state.headBlockId → d.state.headBlockNum < newHead.num →
        ∃ first second, ({ d with forkDb := f } : Database C).FailsAtOnce P newHead first second)

/-- What keeps them the same when the head block is popped: if the fork database can go back, the
objects can. -/
def Database.SyncsPop (P : Protocol C) (d : Database C) : Prop :=
  d.forkDb.popBlock.isSome → (d.fetchBlockById P d.state.headBlockId).isSome → d.Undoable 1

/-- What keeps them the same when a block is produced: if it is put together in the slot of its
witness, and is not refused for its size, it applies. -/
def Database.SyncsGenerate (P : Protocol C) (d : Database C) (prod : Database.Production C) :
    Prop :=
  let b := prod.block P (prod.maximumBlockSize d.state) d.headState d.pendingTx
  prod.scheduled d.state = true →
    (prod.skipBlockSizeCheck = true ∨ prod.blockSize b ≤ prod.maximumBlockSize d.headState) →
    (P.applyBlock d.headState b).isSome

/-- The calls that keep the two heads the same. -/
def Call.KeepsSync (P : Protocol C) (d : Database C) : Call C → Prop
  | .pushBlock _ b => d.setAside.SyncsPush P b
  | .pushTransaction _ _ => True
  | .generateBlock _ prod => d.SyncsGenerate P prod
  | .popBlock => d.SyncsPop P

namespace Database.Synced

variable {chain : List (SignedBlock C)} {d d' : Database C}

theorem congr (h : d.Synced P) (hhead : d'.forkDb.head = d.forkDb.head)
    (hdgp : d'.state.dgp? = d.state.dgp?) : d'.Synced P := by
  simp only [Database.Synced, hhead, Indexes.headBlockId, Indexes.headBlockNum, hdgp]
  exact h

/-- Pending transactions come and go without moving either head. -/
theorem keeps (h : d.Synced P) (hon : d.OnChain P g depth chain) (hg : Base g)
    (hkeeps : Keeps P g depth chain d d') : d'.Synced P := by
  refine h.congr (by rw [hkeeps.forkDb_eq]) ?_
  rw [hkeeps.onChain.dgp?_eq hg, hon.dgp?_eq hg, hkeeps.headState_eq]

/-- When a block has been linked, it is the head of the fork database, above the head block, or the
head block is. -/
theorem head_of_pushBlock (h : d.Synced P) (hbase : Base d.state) {b : SignedBlock C}
    {f : ForkDatabase C} {newHead : ForkItem C} (hpush : d.forkDb.pushBlock P b = some f)
    (hhead : f.head = some newHead) :
    newHead.data = b ∧ d.state.headBlockNum < newHead.num ∨
      P.itemId newHead = d.state.headBlockId := by
  obtain ⟨item, hlink, -, -, -, -, hcases⟩ := ForkDatabase.pushBlock_spec hpush
  obtain ⟨-, hdata, -⟩ := ForkDatabase.link_spec hlink
  rcases hcases with ⟨hitem, hlt⟩ | ⟨hsame, x, hx, -⟩
  · obtain rfl := Option.some_inj.1 (hhead.symm.trans hitem)
    refine Or.inl ⟨hdata, ?_⟩
    have hnum : newHead.num = b.blockNum := congrArg SignedBlock.blockNum hdata
    rcases h with ⟨x, hx, hid⟩ | ⟨-, hzero⟩
    · have hxnum : x.num = d.state.headBlockId.num := congrArg BlockId.num hid
      have := hlt x hx
      have := hbase.num_eq
      omega
    · rw [hzero]
      exact Nat.succ_pos _
  · obtain rfl := Option.some_inj.1 ((hhead.symm.trans hsame).trans hx)
    rcases h with ⟨y, hy, hid⟩ | ⟨hnone, -⟩
    · obtain rfl := Option.some_inj.1 (hx.symm.trans hy)
      exact Or.inr hid
    · rw [hx] at hnone
      cases hnone

end Database.Synced

/-! ## Calls -/

section

variable {chain : List (SignedBlock C)} {d : Database C} {b : SignedBlock C} {f : ForkDatabase C}
  {newHead : ForkItem C} {first second : List (ForkItem C)}

/-- The state where the branches part. -/
theorem Database.Reaches.stateAt_drop (h : d.Reaches P newHead first second)
    (hon : d.OnChain P g depth chain) (hg : Base g) {back : ForkItem C}
    (hback : second.getLast? = some back) {s : ChainState C}
    (hs : d.copies[second.length - 1]? = some s) :
    P.stateAt g (chain.drop second.length) = some s := by
  obtain ⟨n, hn⟩ : ∃ n, second.length = n + 1 := by
    cases second with
    | nil => cases hback
    | cons x xs => exact ⟨xs.length, rfl⟩
  obtain ⟨s', hs', hstate⟩ := hon.copy hg (hn ▸ h.undoable)
  rw [hn, Nat.add_sub_cancel, hs'] at hs
  rw [hn, hstate, hs]

/-- **A switch that fails at its first block** goes back to the head block it came from. -/
theorem Database.FailsAtOnce.switchFork (h : d.FailsAtOnce P newHead first second)
    (hrest : d.AtRest P g depth chain) (hidle : d.pendingTxSession = none) (hg : Base g)
    (hP : P.Nests depth) (hlag : P.Lags g depth) (hhead : d.forkDb.head = some newHead)
    (hlt : d.state.headBlockNum < newHead.num) (newBlock : SignedBlock C) :
    ∃ d' front, Database.switchFork P newBlock newHead d = .error () d' ∧ d'.state = d.state ∧
      d'.forkDb.head = some front ∧ P.itemId front = d.state.headBlockId := by
  have hsound := hrest.toSound
  obtain ⟨-, hsecond, -⟩ := hsound.forkDb.fetchBranchFrom_spec h.fetch
  obtain ⟨front, back, hfront, hback, hfrontId, hmemFront, -⟩ := hsecond.ends
  obtain ⟨hle, hbaseId, d₁, hpop, hsound₁, hlog₁, -, -, heq₁⟩ :=
    h.toReaches.popTo hsound hg hidle hrest.held_eq hhead hlt hback
  have hidle₁ : d₁.pendingTxSession = none := by rw [heq₁]; exact hidle
  have hstate := hsound.toOnChain.stateAt_eq hidle
  obtain ⟨s, x, hs, hx, happly⟩ := h.failing
  obtain rfl : d₁.state = s := Option.some_inj.1 ((hsound₁.toOnChain.stateAt_eq hidle₁).symm.trans
    (h.toReaches.stateAt_drop hsound.toOnChain hg hback hs))
  obtain ⟨xs, hxs⟩ : ∃ xs, first.reverse = x :: xs := by
    rw [← List.head?_reverse] at hx
    exact List.head?_eq_some_iff.1 hx
  obtain ⟨d₂, hrun₂, hsound₂, -, -, hsizes₂, heq₂⟩ :=
    hsound₁.applyAndStore_error hidle₁ hg hlag (hP.block _) happly (P.itemId x)
  have hidle₂ : d₂.pendingTxSession = none := by rw [heq₂]; exact hidle₁
  have hheld₂ : d₂.forkDb.held = first ++ second := by
    rcases hsizes₂ with ⟨-, hf⟩ | ⟨-, hf⟩ <;> rw [hf, heq₁]
    rw [ForkDatabase.held_setMaxSize]
  -- the old branch once more
  have hblocks : second.map ForkItem.data = chain.take second.length := by
    obtain ⟨-, hid, -⟩ := Protocol.stateAt_spec hg hstate
    exact branch_blocks hg hstate (hid ▸ hsecond) hle h.genuine
  have hfold : P.stateAt g (((second.reverse).map ForkItem.data).reverse ++
      (chain.drop second.length).drop 0) = some d.state := by
    rw [← List.map_reverse, List.reverse_reverse, hblocks, List.drop_zero,
      List.take_append_drop]
    exact hstate
  have hsize₂ : d₂.blockIdToBlock.size = d.blockIdToBlock.size := by
    rw [heq₂]
    exact BlockDatabase.size_removeAll hlog₁
  obtain ⟨d₂', d₃, -, -, -, -, hrestore, -, hstate₃, -, -, -, heq₃⟩ :=
    restoreFork_spec newBlock (x :: xs) 0 hg hP hlag hsound₂ hidle₂
      (hheld₂ ▸ List.mem_append_right _ hmemFront) (fun j hj ↦ absurd hj (Nat.not_lt_zero j)) rfl
      (fun j hj ↦ absurd hj (Nat.not_lt_zero j)) hbaseId hfold fun y hy ↦ by
        rw [hsize₂]
        exact hsound.branch_lt hg hidle hsecond y (List.mem_reverse.1 hy)
  refine ⟨d₃.hold [], front, ?_, hstate₃, ?_, hfrontId⟩
  · rw [switchFork_some h.fetch hfront hback, Database.switchTo, bind_ok hpop, hxs,
      applyFork_error hrun₂, hrestore, exit_error]
  · rw [Database.hold, heq₃]
    exact (ForkDatabase.foldl_setMaxSize _ _).1

/-- **One call of `_push_block`.** -/
theorem Database.Synced._pushBlock (h : d.Synced P) (hrest : d.AtRest P g depth chain)
    (hidle : d.pendingTxSession = none) (hg : Base g) (hP : P.Nests depth) (hlag : P.Lags g depth)
    (hb : d.SyncsPush P b) : (exit (Database._pushBlock P b d)).Synced P := by
  cases hpush : d.forkDb.pushBlock P b with
  | none =>
    rw [_pushBlock_error hpush]
    exact h
  | some f =>
    obtain ⟨newHead, hhead⟩ := ForkDatabase.head_of_pushBlock hpush
    obtain ⟨hbase, -⟩ := Protocol.stateAt_spec hg (hrest.toOnChain.stateAt_eq hidle)
    have hrest' : ({ d with forkDb := f } : Database C).AtRest P g depth chain := by
      obtain ⟨-, -, -, -, hheld, -⟩ := ForkDatabase.pushBlock_spec hpush
      exact ⟨hrest.toSound.of_forkDb (hrest.forkDb.pushBlock hpush) le_rfl,
        hheld.trans hrest.held_eq⟩
    have hcases := h.head_of_pushBlock hbase hpush hhead
    have hb := hb f newHead hpush hhead
    by_cases hprev : newHead.previousId = d.state.headBlockId
    · -- the new block is on the head block, and applies
      obtain ⟨ix, happly⟩ := Option.isSome_iff_exists.1 (hb.1 hprev)
      obtain ⟨d', hrun, -, rfl, -, -, heq⟩ :=
        hrest'.toSound.applyAndStore_ok hidle hg hlag (hP.block b) happly
          (Or.inl (le_refl (P.blockId b).num))
      obtain ⟨-, hid, -⟩ := Protocol.applyBlock_headBlockId hbase happly
      rw [_pushBlock_extend hpush hhead hprev, hrun]
      refine Or.inl ⟨newHead, ?_, ?_⟩
      · show d'.forkDb.head = some newHead
        rw [heq]
        exact ((ForkDatabase.foldl_setMaxSize [_] f).1).trans hhead
      · rcases hcases with ⟨rfl, -⟩ | hsame
        · exact hid.symm
        · have hnum : newHead.previousId.num + 1 = newHead.previousId.num :=
            congrArg BlockId.num (hsame.trans hprev.symm)
          omega
    · by_cases hlt : d.state.headBlockNum < newHead.num
      · obtain ⟨first, second, hfails⟩ := hb.2 hprev hlt
        obtain ⟨d', front, hrun, hstate, hfront, hid⟩ :=
          hfails.switchFork hrest' hidle hg hP hlag hhead hlt b
        rw [_pushBlock_switch hpush hhead hprev hlt, hrun]
        exact Or.inl ⟨front, hfront, by rw [exit_error, hstate]; exact hid⟩
      · rw [_pushBlock_stay hpush hhead hprev (not_lt.1 hlt)]
        rcases hcases with ⟨-, hlt'⟩ | hid
        · exact absurd hlt' hlt
        · exact Or.inl ⟨newHead, hhead, hid⟩

/-- **One call of `push_block`.** -/
theorem Database.Synced.pushBlock (h : d.Synced P) (hrest : d.AtRest P g depth chain) (hg : Base g)
    (hP : P.Nests depth) (hlag : P.Lags g depth) (obs : Observers C)
    (hb : d.setAside.SyncsPush P b) : (exit (Database.pushBlock P obs b d)).Synced P := by
  obtain ⟨hrest₁, hkeeps₁, hidle₁, chain', hrest₂, -, hkeeps₂⟩ :=
    hrest.pushBlock_keeps hg hP hlag obs b
  have h₁ := h.keeps hrest.toOnChain hg hkeeps₁
  exact (h₁._pushBlock hrest₁ hidle₁ hg hP hlag hb).keeps hrest₂.toOnChain hg hkeeps₂

/-- A block that is put together on the head block is tried on the head block. -/
theorem Database.Synced.syncsPush_generated (h : d.Synced P) (hrest : d.AtRest P g depth chain)
    (hg : Base g) (hP : P.Nests depth) (hlag : P.Lags g depth) (obs : Observers C)
    (hprev : b.previous = d.headState.headBlockId) (happly : (P.applyBlock d.headState b).isSome) :
    d.setAside.SyncsPush P b := by
  obtain ⟨hrest₁, hkeeps₁, hidle₁, -⟩ := hrest.pushBlock_keeps hg hP hlag obs b
  have h₁ := h.keeps hrest.toOnChain hg hkeeps₁
  have hstate₁ : d.setAside.state = d.headState :=
    (OnChain.state_eq_headState hidle₁).trans hkeeps₁.headState_eq
  obtain ⟨hbase, -⟩ := Protocol.stateAt_spec hg (hrest₁.toOnChain.stateAt_eq hidle₁)
  intro f newHead hpush hhead
  have hcases := h₁.head_of_pushBlock hbase hpush hhead
  rw [hstate₁] at hcases hbase ⊢
  rcases hcases with ⟨rfl, -⟩ | hid
  · exact ⟨fun _ ↦ happly, fun hne ↦ absurd hprev hne⟩
  · have hnum : newHead.num = d.headState.headBlockNum := by
      rw [← hbase.num_eq, ← hid]
      rfl
    refine ⟨fun _ ↦ happly, fun _ hlt ↦ ?_⟩
    omega

/-- `pop_block` resets the pending session first, which does not change what it comes to. -/
theorem Database.SyncsPop.reset (hpop : d.SyncsPop P) (hon : d.OnChain P g depth chain)
    (hg : Base g) :
    ∃ d₁, Database.popBlock P d = Database.popBlock P d₁ ∧ Keeps P g depth chain d d₁ ∧
      d₁.pendingTxSession = none ∧ d₁.SyncsPop P := by
  obtain ⟨d₁, hreset, hon₁, hidle₁, hstate₁, hmax₁, hkept₁, heq₁⟩ := hon.resetPendingTxSession_spec
  rw [OnChain.history_eq_copies hidle₁] at hkept₁
  have hfork₁ : d₁.forkDb = d.forkDb := by rw [heq₁]
  have hlog₁ : d₁.blockIdToBlock = d.blockIdToBlock := by rw [heq₁]
  have hhead₁ : d₁.headState = d.headState :=
    (OnChain.state_eq_headState hidle₁).symm.trans hstate₁
  have hfetch : d₁.fetchBlockById P d₁.state.headBlockId =
      d.fetchBlockById P d.state.headBlockId := by
    rw [Database.fetchBlockById, Database.fetchBlockById, hfork₁, hlog₁, hstate₁,
      Indexes.headBlockId, Indexes.headBlockId, hon.dgp?_eq hg]
  refine ⟨d₁, ?_, ⟨hon₁, hhead₁, hfork₁, hlog₁, hmax₁, hkept₁.of_length _⟩, hidle₁,
    fun hparent hknown ↦ ?_⟩
  · rw [Database.popBlock, bind_ok hreset, bind_ok (OnChain.resetPendingTxSession_idle hidle₁)]
  · rw [hfork₁] at hparent
    rw [hfetch] at hknown
    have hun := hpop hparent hknown
    exact hun.kept hhead₁ hkept₁ hun.length_le

/-- **One call of `pop_block`.** -/
theorem Database.Synced.popBlock (h : d.Synced P) (hrest : d.AtRest P g depth chain) (hg : Base g)
    (hpop : d.SyncsPop P) : (exit (Database.popBlock P d)).Synced P := by
  obtain ⟨d₁, hcall, hkeeps₁, hidle₁, hpop₁⟩ := hpop.reset hrest.toOnChain hg
  have hsound₁ := (hrest.keeps hkeeps₁).toSound
  have h₁ := h.keeps hrest.toOnChain hg hkeeps₁
  rw [hcall]
  cases hfork : d₁.forkDb.popBlock with
  | none =>
    rw [OnChain.popBlock_eq hidle₁, hfork]
    split
    · rename_i heq
      cases heq
    · exact h₁
  | some f =>
    cases hfetch : d₁.fetchBlockById P d₁.state.headBlockId with
    | none =>
      rw [OnChain.popBlock_eq hidle₁, hfetch]
      exact h₁
    | some headBlock =>
      have hun₁ : d₁.Undoable 1 := hpop₁ (by rw [hfork]; rfl) (by rw [hfetch]; rfl)
      obtain ⟨b, bs, d', rfl, hrun, hsound', -, -, -, heq'⟩ :=
        popBlock_ok hsound₁ hg hidle₁ hun₁ hfork (by rw [hfetch]; exact Option.some_ne_none _)
      obtain ⟨-, x, y, hx, hparent, -, rfl⟩ := hsound₁.forkDb.popBlock hfork
      have hidle' : d'.pendingTxSession = none := by rw [heq']; exact hidle₁
      have hstate := hsound₁.toOnChain.stateAt_eq hidle₁
      obtain ⟨-, hid, -⟩ := Protocol.stateAt_spec hg hstate
      obtain ⟨-, hid', -⟩ := Protocol.stateAt_spec hg (hsound'.toOnChain.stateAt_eq hidle')
      rw [hrun, exit_ok]
      refine Or.inl ⟨y, by rw [heq'], ?_⟩
      rcases h₁ with ⟨z, hz, hzid⟩ | ⟨hnone, -⟩
      · obtain rfl := Option.some_inj.1 (hx.symm.trans hz)
        have hprev : x.previousId = b.previous := Protocol.previous_eq (hzid.trans hid)
        rw [hparent.2, hprev, hid', (Protocol.previous_eq_tip hg hstate).1]
      · rw [hx] at hnone
        cases hnone

end

/-- **The two heads stay the same** along every run of `push_block`, `pop_block` and the other calls
that returns or throws as it may, as long as no block fails on the head block, switches to a longer
fork fail at their first block, and blocks are popped only as far as the undo stack reaches. -/
theorem fork_head_synced (hg : Base g) (hP : P.Nests depth) (hlag : P.Lags g depth)
    {d₀ d : Database C} (h₀ : d₀.Opened P g depth) (hsync : d₀.Synced P)
    (hrun : Run P (fun d c ↦ c.KeepsSync P d) d₀ d) : d.Synced P := by
  refine (hrun.invariant (I := fun d ↦ (∃ chain, d.AtRest P g depth chain) ∧ d.Synced P)
    ⟨⟨[], h₀.atRest⟩, hsync⟩ ?_).2
  rintro d c ⟨⟨chain, hrest⟩, hd⟩ hc
  refine ⟨hrest.call hg hP hlag c, ?_⟩
  cases c with
  | pushBlock obs b => exact hd.pushBlock hrest hg hP hlag obs hc
  | pushTransaction obs tx =>
    exact hd.keeps hrest.toOnChain hg
      (hrest.toOnChain._pushTransaction_repushes (hP.tx tx) obs).toKeeps
  | generateBlock obs prod =>
    by_cases hscheduled : prod.scheduled d.state = true
    · obtain ⟨d₁, hkeeps, -, -, -, ⟨-, -, hexec⟩ | ⟨hsize, hexec⟩⟩ :=
        hrest.toOnChain.generateBlock_scheduled (fun tx _ ↦ hP.tx tx) obs prod hscheduled
      · rw [Call.exec, hexec]
        exact hd.keeps hrest.toOnChain hg hkeeps
      · have hd₁ := hd.keeps hrest.toOnChain hg hkeeps
        rw [Call.exec, hexec]
        refine hd₁.pushBlock (hrest.keeps hkeeps) hg hP hlag obs
          (hd₁.syncsPush_generated (hrest.keeps hkeeps) hg hP hlag obs ?_ ?_)
        · rw [hkeeps.headState_eq]
          rfl
        · rw [hkeeps.headState_eq]
          exact hc hscheduled hsize
    · rw [Call.exec, Database.generateBlock, bind_ok (get_apply d), if_neg hscheduled]
      exact hd
  | popBlock => exact hd.popBlock hrest hg hc

namespace Testnet

/-- The checks of `SyncsPush`, for blocks that do not make the node switch. -/
theorem syncsPush_of_short {d : Database types} {b : SignedBlock types}
    (h : ((d.forkDb.pushBlock protocol b).bind ForkDatabase.head).all (fun newHead ↦
      if newHead.previousId = d.state.headBlockId then (protocol.applyBlock d.state b).isSome
      else decide (newHead.num ≤ d.state.headBlockNum)) = true) : d.SyncsPush protocol b := by
  intro f newHead hpush hhead
  rw [hpush, Option.bind_some, hhead] at h
  rw [Option.all_some] at h
  refine ⟨fun heq ↦ by rwa [if_pos heq] at h, fun hne hlt ↦ ?_⟩
  rw [if_neg hne] at h
  exact absurd (of_decide_eq_true h) (not_le.2 hlt)

/-- A first block that does not apply. -/
def bad1 : SignedBlock types := block (BlockId.zero types) 2 [.fail]

/-- A block on it. -/
def c2 : SignedBlock types := block (protocol.blockId bad1) 0 []

/-- The checks of `SyncsPush`, for a block that makes the node switch to a fork that fails at its
first block. -/
theorem syncsPush_of_failing {d : Database types} {b : SignedBlock types}
    (newHead : ForkItem types) (first second : List (ForkItem types))
    (hhead : (d.forkDb.pushBlock protocol b).bind ForkDatabase.head = some newHead)
    (hprev : newHead.previousId ≠ d.state.headBlockId)
    (hfetch : (d.forkDb.pushBlock protocol b).bind (fun f ↦
      f.fetchBranchFrom protocol (protocol.itemId newHead) d.state.headBlockId) =
        some (first, second))
    (hparent : ((d.forkDb.pushBlock protocol b).bind fun f ↦ f.lockPrev newHead).isSome)
    (hun : ∀ j < second.length,
      (d.copies[j]?).any fun s ↦ s.headBlockNum + (j + 1) = d.headState.headBlockNum)
    (hfail : (d.copies[second.length - 1]?).any fun s ↦ first.getLast?.any fun x ↦
      (protocol.applyBlock s x.data).isNone)
    (hgenuine : ∀ x ∈ second, protocol.MerkleOk x.data) : d.SyncsPush protocol b := by
  intro f newHead' hpush hhead'
  rw [hpush, Option.bind_some] at hhead hfetch hparent
  obtain rfl := Option.some_inj.1 (hhead.symm.trans hhead')
  refine ⟨fun heq ↦ absurd heq hprev, fun _ _ ↦
    ⟨first, second, ⟨hfetch, hparent, fun j hj ↦ ?_⟩, ?_,
    hgenuine⟩⟩
  · obtain ⟨s, hs, hnum⟩ := (Option.any_eq_true _ _).1 (hun j hj)
    exact ⟨s, hs, of_decide_eq_true hnum⟩
  · obtain ⟨s, hs, hx⟩ := (Option.any_eq_true _ _).1 hfail
    obtain ⟨x, hx, hnone⟩ := (Option.any_eq_true _ _).1 hx
    exact ⟨s, x, hs, hx, Option.isNone_iff_eq_none.1 hnone⟩

/-- A fork that fails at its first block, another block of the chain, and a pop. -/
theorem fork_head_synced_run :
    (Call.popBlock.exec protocol (pushAll [a1, b1, bad1, c2, a2])).Synced protocol := by
  have hstart : Run protocol (fun d c ↦ c.KeepsSync protocol d) node (pushAll []) := .refl
  have hshort := run_pushAll (run_pushAll (run_pushAll hstart
    a1 (syncsPush_of_short (by decide +kernel))) b1 (syncsPush_of_short (by decide +kernel)))
    bad1 (syncsPush_of_short (by decide +kernel))
  have hfails := run_pushAll hshort c2 (syncsPush_of_failing
    { addr := 3, prev := some 2, data := c2 }
    [{ addr := 3, prev := some 2, data := c2 }, { addr := 2, data := bad1 }]
    [{ addr := 0, data := a1 }] (by decide +kernel) (by decide +kernel) (by decide +kernel)
    (by decide +kernel) (by decide +kernel) (by decide +kernel) (by decide +kernel))
  have hrun := run_pushAll hfails a2 (syncsPush_of_short (by decide +kernel))
  have hpop : (pushAll [a1, b1, bad1, c2, a2]).SyncsPop protocol := by
    have hcopy : ((pushAll [a1, b1, bad1, c2, a2]).copies[0]?).any (fun s ↦
        s.headBlockNum + 1 = (pushAll [a1, b1, bad1, c2, a2]).headState.headBlockNum) := by
      decide +kernel
    obtain ⟨s, hs, hnum⟩ := (Option.any_eq_true _ _).1 hcopy
    intro _ _ j hj
    obtain rfl : j = 0 := Nat.lt_one_iff.1 hj
    exact ⟨s, hs, of_decide_eq_true hnum⟩
  exact fork_head_synced base nests lags node_opened (Or.inr ⟨rfl, rfl⟩)
    (hrun.call .popBlock hpop)

/-- **A rejected block stays the head** of the fork database. -/
theorem rejected_block_stays_head :
    ¬ (pushAll [a1, bad2]).Synced protocol ∧
      ((pushAll [a1, bad2]).forkDb.head.map ForkItem.data) = some bad2 := by
  refine ⟨?_, by decide +kernel⟩
  rintro (⟨x, hx, hid⟩ | ⟨hnone, -⟩)
  · have hhead : (pushAll [a1, bad2]).forkDb.head =
        some { addr := 1, prev := some 0, data := bad2 } := by
      decide +kernel
    obtain rfl := Option.some_inj.1 (hx.symm.trans hhead)
    revert hid
    decide +kernel
  · revert hnone
    decide +kernel

/-- After a switch the head of the fork database is a block below the head block. -/
theorem switched_fork_head :
    ¬ (pushAll [a1, b1, b2]).Synced protocol ∧
      (pushAll [a1, b1, b2]).state.headBlockId = protocol.blockId b2 ∧
      ((pushAll [a1, b1, b2]).forkDb.head.map ForkItem.data) = some b1 := by
  refine ⟨?_, by decide +kernel, by decide +kernel⟩
  rintro (⟨x, hx, hid⟩ | ⟨hnone, -⟩)
  · have hhead : (pushAll [a1, b1, b2]).forkDb.head = some { addr := 1, data := b1 } := by
      decide +kernel
    obtain rfl := Option.some_inj.1 (hx.symm.trans hhead)
    revert hid
    decide +kernel
  · revert hnone
    decide +kernel

end Testnet

end Graphene
