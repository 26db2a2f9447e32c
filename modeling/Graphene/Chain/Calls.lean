import Graphene.Chain.Pending

/-!
# Calls, and the nodes they lead to

Whatever is called on a node, and however the call ends, the node is left at the end of some chain
of blocks, with nothing wrong in its undo database and its fork database.  Where exactly it is left
is what the claims about the single calls are about; that it is somewhere is what they start from.

* `Database.Sound` — the invariant of a node.
* `Call` — the public calls, with the observers they meet.
* `_pushBlock_preserves` — `_push_block` keeps the invariant at each of its exits, in the middle
  of a fork switch too.
* `Run`, `Reachable` — the nodes calls lead to; `Run.invariant`, `Run.atRest`.
-/

set_option autoImplicit false

namespace Graphene

open Throwing

variable {C : ChainTypes} {P : Protocol C} {g : ChainState C} {depth : ℕ}

/-- The invariant of a node. -/
structure Database.Sound (P : Protocol C) (g : ChainState C) (depth : ℕ)
    (chain : List (SignedBlock C)) (d : Database C) : Prop extends d.OnChain P g depth chain where
  /-- The fork database is in order. -/
  forkDb : d.forkDb.WF P
  /-- The index of the log reaches up to the head block. -/
  stored : d.headState.headBlockNum = 0 ∨ d.headState.headBlockNum < d.blockIdToBlock.size

/-- A node in the middle of a call, with nothing pending: `pendingTx` is set aside, `held` are the
fork items the call holds on to, and the index of the log has `size` entries at least. -/
structure Database.Idle (P : Protocol C) (g : ChainState C) (depth : ℕ) (pendingTx : List C.Tx)
    (held : List (ForkItem C)) (size : ℕ) (d : Database C) : Prop where
  /-- The node is at the end of some chain. -/
  sound : ∃ chain, d.Sound P g depth chain
  /-- No pending session is open. -/
  session : d.pendingTxSession = none
  /-- The pending transactions. -/
  pendingTx_eq : d.pendingTx = pendingTx
  /-- The fork items. -/
  held_eq : d.forkDb.held = held
  /-- The log. -/
  size_le : size ≤ d.blockIdToBlock.size

/-! ## The log -/

theorem BlockDatabase.size_le_store (log : BlockDatabase C) (id : BlockId C) (b : SignedBlock C) :
    log.size ≤ (log.store P id b).size :=
  le_max_left _ _

theorem BlockDatabase.blockNum_lt_store (log : BlockDatabase C) {id : BlockId C}
    {b : SignedBlock C} (h : b.blockNum ≤ id.num) : b.blockNum < (log.store P id b).size := by
  have hid : id ≠ BlockId.zero C := by
    rintro rfl
    exact absurd h (Nat.not_succ_le_zero _)
  simp only [store, if_neg hid]
  omega

theorem BlockDatabase.size_remove {log log' : BlockDatabase C} {id : BlockId C}
    (h : log.remove id = some log') : log'.size = log.size := by
  rw [remove] at h
  split_ifs at h <;> rw [← Option.some_inj.1 h]

/-! ## The steps of `_push_block` -/

section

variable {pendingTx : List C.Tx} {held : List (ForkItem C)} {size : ℕ}
  {chain : List (SignedBlock C)}
  {d d' : Database C}

/-- Nothing but the fork database and the log has changed. -/
theorem Database.Sound.of_forkDb (h : d.Sound P g depth chain) {forkDb : ForkDatabase C}
    (hfork : forkDb.WF P) {log : BlockDatabase C} (hlog : d.blockIdToBlock.size ≤ log.size)
    {poppedTx : List C.Tx} : ({ d with forkDb, blockIdToBlock := log, poppedTx } :
      Database C).Sound P g depth chain :=
  ⟨⟨h.wf, h.session, h.room, h.state_eq, h.copies, h.dgp_eq⟩, hfork,
    h.stored.imp_right fun hlt ↦ hlt.trans_le hlog⟩

theorem onForkDb_preserves {f : ForkDatabase C → Option (ForkDatabase C)}
    (hf : ∀ {forkDb forkDb'}, forkDb.held = held → forkDb.WF P → f forkDb = some forkDb' →
      forkDb'.WF P ∧ forkDb'.held = held) :
    Preserves (Database.Idle P g depth pendingTx held size) (Database.onForkDb f) := by
  intro d hd
  obtain ⟨chain, hsound⟩ := hd.sound
  rw [Database.onForkDb]
  cases hrun : f d.forkDb with
  | none => exact hd
  | some forkDb =>
    obtain ⟨hwf, hheld⟩ := hf hd.held_eq hsound.forkDb hrun
    exact ⟨⟨chain, hsound.of_forkDb hwf le_rfl⟩, hd.session, hd.pendingTx_eq, hheld, hd.size_le⟩

theorem ForkDatabase.held_popBlock {f f' : ForkDatabase C} (h : f.popBlock = some f') :
    f'.held = f.held := by
  obtain ⟨x, -, h⟩ := Option.bind_eq_some_iff.1 h
  obtain ⟨y, -, h⟩ := Option.bind_eq_some_iff.1 h
  rw [← Option.some_inj.1 h]

@[simp] theorem ForkDatabase.held_setMaxSize (f : ForkDatabase C) (s : ℕ) :
    (f.setMaxSize s).held = f.held := by
  rw [setMaxSize]
  split <;> rfl

/-- The head block number of an idle node after a step down the undo stack. -/
theorem Database.Sound.popCommit (h : d.Sound P g depth chain) (hg : Base g)
    (hidle : d.pendingTxSession = none) {objects : ObjectDatabase (ChainObject C)}
    (hpop : d.objects.popCommit = some objects) :
    ∃ chain', ({ d with objects } : Database C).Sound P g depth chain' := by
  obtain ⟨s, rest, -, hix, -, -, hcases⟩ := h.toOnChain.popCommit_inv hidle hg hpop
  have hstate : ({ d with objects } : Database C).headState = s := by
    rw [← Database.OnChain.state_eq_headState (d := { d with objects }) hidle]
    exact hix
  have hstored := h.stored
  rw [← Database.OnChain.state_eq_headState hidle] at hstored
  rcases hcases with ⟨rfl, -, hon⟩ | ⟨b, bs, rfl, hon, hnum⟩
  · exact ⟨chain, hon, h.forkDb, by rw [hstate]; exact hstored⟩
  · refine ⟨bs, hon, h.forkDb, ?_⟩
    rw [hstate]
    change d.state.headBlockNum = 0 ∨ d.state.headBlockNum < d.blockIdToBlock.size at hstored
    change s.headBlockNum = 0 ∨ s.headBlockNum < d.blockIdToBlock.size
    omega

theorem popBlock_preserves (hg : Base g) :
    Preserves (Database.Idle P g depth pendingTx held size) (Database.popBlock P) := by
  intro d hd
  obtain ⟨chain, hsound⟩ := hd.sound
  rw [Database.OnChain.popBlock_eq hd.session]
  split
  · rename_i headBlock forkDb _ hfork
    obtain ⟨hwf, -⟩ := hsound.forkDb.popBlock hfork
    have hheld := (ForkDatabase.held_popBlock hfork).trans hd.held_eq
    split
    · rename_i log hlog
      have hsize := BlockDatabase.size_remove hlog
      have hmid : ∀ poppedTx, ({ d with forkDb, blockIdToBlock := log, poppedTx } :
          Database C).Sound P g depth chain := fun poppedTx ↦ hsound.of_forkDb hwf hsize.ge
      split
      · rename_i objects hpop
        obtain ⟨chain', hsound'⟩ := (hmid (headBlock.transactions ++ d.poppedTx)).popCommit hg
          hd.session hpop
        exact ⟨⟨chain', hsound'⟩, hd.session, hd.pendingTx_eq, hheld, hd.size_le.trans hsize.ge⟩
      · exact ⟨⟨chain, hmid d.poppedTx⟩, hd.session, hd.pendingTx_eq, hheld,
          hd.size_le.trans hsize.ge⟩
    · exact ⟨⟨chain, hsound.of_forkDb hwf le_rfl⟩, hd.session, hd.pendingTx_eq, hheld, hd.size_le⟩
  · exact hd

theorem popUntil_preserves (hg : Base g) (id : BlockId C) (n : ℕ) :
    Preserves (Database.Idle P g depth pendingTx held size) (Database.popUntil P id n) := by
  induction n with
  | zero => exact Preserves.throw _
  | succ n ih =>
    refine Preserves.bind (fun _ hd ↦ hd) fun d ↦ ?_
    split_ifs
    · exact Preserves.bind (popBlock_preserves hg) fun _ ↦ ih
    · exact Preserves.pure _

/-- A block that applies, stored where the log is made to reach up to it, or does already. -/
theorem Database.Sound.applyAndStore_ok (h : d.Sound P g depth chain)
    (hidle : d.pendingTxSession = none) (hg : Base g) (hlag : P.Lags g depth) {b : SignedBlock C}
    (hP : P.BlockNests depth b) {ix : ChainState C} (happly : P.applyBlock d.state b = some ix)
    {id : BlockId C} (hid : b.blockNum ≤ id.num ∨ b.blockNum < d.blockIdToBlock.size) :
    ∃ d', Database.applyAndStore P id b d = .ok () d' ∧ d'.Sound P g depth (b :: chain) ∧
      d'.state = ix ∧ d'.maxSize = nextMaxSize d.state b ∧
      (∃ hist, d'.objects.history = d.state :: hist ∧
        Kept d.state (min d.maxSize d'.maxSize - depth) d.objects.history hist) ∧
      d' = { d with
        objects := d'.objects
        forkDb := d.forkDb.setMaxSize (nextMaxSize d.state b)
        blockIdToBlock := d.blockIdToBlock.store P id b } := by
  have hstate := h.toOnChain.stateAt_eq hidle
  obtain ⟨d', hrun, hon, rfl, hmax, hhist, heq⟩ :=
    h.toOnChain.applyAndStore_ok hidle hg hlag hP happly id
  have hsession : d'.pendingTxSession = none := by rw [heq]; exact hidle
  have hfork : d'.forkDb = d.forkDb.setMaxSize (nextMaxSize d.state b) := by rw [heq]
  have hlog : d'.blockIdToBlock = d.blockIdToBlock.store P id b := by rw [heq]
  refine ⟨d', hrun, ⟨hon, ?_, Or.inr ?_⟩, rfl, hmax, hhist, heq⟩
  · rw [hfork]
    exact h.forkDb.setMaxSize _
  · obtain ⟨-, -, hnum, hnum', -⟩ :=
      Protocol.applyBlock_headBlockId (Protocol.stateAt_spec hg hstate).1 happly
    rw [← Database.OnChain.state_eq_headState hsession, hnum, ← hnum', hlog]
    rcases hid with hid | hid
    · exact BlockDatabase.blockNum_lt_store _ hid
    · exact hid.trans_le (BlockDatabase.size_le_store _ _ _)

/-- A block that does not apply. -/
theorem Database.Sound.applyAndStore_error (h : d.Sound P g depth chain)
    (hidle : d.pendingTxSession = none) (hg : Base g) (hlag : P.Lags g depth) {b : SignedBlock C}
    (hP : P.BlockNests depth b) (happly : P.applyBlock d.state b = none) (id : BlockId C) :
    ∃ d', Database.applyAndStore P id b d = .error () d' ∧ d'.Sound P g depth chain ∧
      d'.state = d.state ∧
      Kept d.state (min d.maxSize d'.maxSize - depth) d.objects.history d'.objects.history ∧
      (d'.maxSize = d.maxSize ∧ d'.forkDb = d.forkDb ∨
        d'.maxSize = nextMaxSize d.state b ∧
          d'.forkDb = d.forkDb.setMaxSize (nextMaxSize d.state b)) ∧
      d' = { d with objects := d'.objects, forkDb := d'.forkDb } := by
  obtain ⟨d', hrun, hon, hstate, hkept, hsizes, heq⟩ :=
    h.toOnChain.applyAndStore_error hidle hg hlag hP happly id
  have hsession : d'.pendingTxSession = none := by rw [heq]; exact hidle
  have hlog : d'.blockIdToBlock = d.blockIdToBlock := by rw [heq]
  refine ⟨d', hrun, ⟨hon, ?_, ?_⟩, hstate, hkept, hsizes, heq⟩
  · rcases hsizes with ⟨-, hf⟩ | ⟨-, hf⟩ <;> rw [hf]
    · exact h.forkDb
    · exact h.forkDb.setMaxSize _
  · rw [← Database.OnChain.state_eq_headState hsession, hstate, hlog,
      Database.OnChain.state_eq_headState hidle]
    exact h.stored

theorem applyAndStore_preserves (hg : Base g) (hlag : P.Lags g depth) {b : SignedBlock C}
    (hP : P.BlockNests depth b) {id : BlockId C} (hid : b.blockNum ≤ id.num ∨ b.blockNum < size) :
    Preserves (Database.Idle P g depth pendingTx held size) (Database.applyAndStore P id b) := by
  intro d hd
  obtain ⟨chain, hsound⟩ := hd.sound
  cases happly : P.applyBlock d.state b with
  | none =>
    obtain ⟨d', hrun, hsound', -, -, hsizes, heq⟩ :=
      hsound.applyAndStore_error hd.session hg hlag hP happly id
    rw [hrun, exit_error]
    have hheld : d'.forkDb.held = held := by
      rcases hsizes with ⟨-, hf⟩ | ⟨-, hf⟩ <;> rw [hf]
      · exact hd.held_eq
      · simp [hd.held_eq]
    exact ⟨⟨chain, hsound'⟩, by rw [heq]; exact hd.session, by rw [heq]; exact hd.pendingTx_eq,
      hheld, by rw [heq]; exact hd.size_le⟩
  | some ix =>
    obtain ⟨d', hrun, hsound', -, -, -, heq⟩ := hsound.applyAndStore_ok hd.session hg hlag hP happly
      (hid.imp_right fun hlt ↦ hlt.trans_le hd.size_le)
    rw [hrun, exit_ok]
    refine ⟨⟨b :: chain, hsound'⟩, by rw [heq]; exact hd.session,
      by rw [heq]; exact hd.pendingTx_eq, ?_, ?_⟩
    · rw [heq]
      simp [hd.held_eq]
    · rw [heq]
      exact hd.size_le.trans (BlockDatabase.size_le_store _ _ _)

/-! ## Fork switches -/

theorem popTo_preserves (hg : Base g) (id : BlockId C) :
    Preserves (Database.Idle P g depth pendingTx held size) (Database.popTo P id) :=
  Preserves.bind (fun _ hd ↦ hd) fun _ ↦ popUntil_preserves hg id _

theorem restoreFork_preserves (hg : Base g) (hP : P.Nests depth) (hlag : P.Lags g depth)
    {newBlock : SignedBlock C} {bad old : List (ForkItem C)} {front : ForkItem C}
    {base : BlockId C} (hfront : front ∈ held) (hold : ∀ x ∈ old, x.num < size) :
    Preserves (Database.Idle P g depth pendingTx held size)
      (Database.restoreFork P newBlock bad front base old) := by
  refine Preserves.bind (Preserves.forM fun x _ ↦ onForkDb_preserves fun hheld hwf hf ↦ ?_) fun _ ↦
    Preserves.bind (onForkDb_preserves fun hheld hwf hf ↦ ?_) fun _ ↦
    Preserves.bind (popTo_preserves hg base) fun _ ↦
    Preserves.bind (Preserves.forM fun x hx ↦ ?_) fun _ ↦ Preserves.throw _
  · obtain rfl := Option.some_inj.1 hf
    exact ⟨hwf.remove _, hheld⟩
  · obtain rfl := Option.some_inj.1 hf
    exact ⟨hwf.setHead (ForkDatabase.mem_alive.2 (Or.inr (Or.inr (hheld ▸ hfront)))), hheld⟩
  · exact applyAndStore_preserves hg hlag (hP.block _) (Or.inr (hold x hx))

theorem applyFork_preserves (hg : Base g) (hP : P.Nests depth) (hlag : P.Lags g depth)
    {newBlock : SignedBlock C} {old new : List (ForkItem C)} {front : ForkItem C}
    {base : BlockId C} (hfront : front ∈ held) (hold : ∀ x ∈ old, x.num < size) :
    Preserves (Database.Idle P g depth pendingTx held size)
      (Database.applyFork P newBlock front base old new) := by
  induction new with
  | nil => exact Preserves.pure _
  | cons x xs ih =>
    exact Preserves.bind (Preserves.tryCatch
      (applyAndStore_preserves hg hlag (hP.block _) (Or.inl le_rfl)) fun _ ↦
      restoreFork_preserves hg hP hlag hfront hold) fun _ ↦ ih

/-- The numbers on a branch go down from its tip. -/
theorem ForkDatabase.IsBranch.num_le {f : ForkDatabase C} {branch : List (ForkItem C)}
    {tip : BlockId C} (h : ForkDatabase.IsBranch P f tip branch) :
    ∀ x ∈ branch, x.num ≤ tip.num := by
  obtain ⟨hhead, hchain, -⟩ := h
  cases branch with
  | nil => simp
  | cons y ys =>
    have hy : y.num = tip.num := congrArg BlockId.num (Option.some_inj.1 hhead)
    rw [← hy]
    clear hhead hy
    induction ys generalizing y with
    | nil => simp
    | cons z zs ih =>
      obtain ⟨hp, hrest⟩ := List.isChain_cons_cons.1 hchain
      refine List.forall_mem_cons.2 ⟨le_rfl, fun x hx ↦ (ih z hrest x hx).trans ?_⟩
      have := hp.num_eq
      omega

/-- Holding on to items that are there. -/
theorem ForkDatabase.WF.hold {f : ForkDatabase C} (h : f.WF P) {held : List (ForkItem C)}
    (hheld : ∀ x ∈ held, x ∈ f.alive) : ({ f with held } : ForkDatabase C).WF P := by
  refine h.mono (fun _ hx ↦ hx) (fun x hx ↦ ?_) rfl
  rcases ForkDatabase.mem_alive.1 hx with hx | hx | hx
  · exact ForkDatabase.mem_alive.2 (Or.inl hx)
  · exact ForkDatabase.mem_alive.2 (Or.inr (Or.inl hx))
  · exact hheld x hx

theorem ForkDatabase.WF.letGo {f : ForkDatabase C} (h : f.WF P) :
    ({ f with held := [] } : ForkDatabase C).WF P :=
  h.hold fun _ hx ↦ absurd hx List.not_mem_nil

/-- The items of the branch the head block is on reach no higher than the log. -/
theorem Database.Sound.branch_lt (h : d.Sound P g depth chain) (hg : Base g)
    (hidle : d.pendingTxSession = none) {second : List (ForkItem C)}
    (hb : ForkDatabase.IsBranch P d.forkDb d.state.headBlockId second) :
    ∀ x ∈ second, x.num < d.blockIdToBlock.size := by
  intro x hx
  have hle := hb.num_le x hx
  obtain ⟨hbase, -⟩ := Protocol.stateAt_spec hg (h.toOnChain.stateAt_eq hidle)
  rw [hbase.num_eq] at hle
  have hpos : 0 < x.num := Nat.succ_pos _
  have hstored := h.stored
  rw [← Database.OnChain.state_eq_headState hidle] at hstored
  omega

/-- Holding on to the items of both branches. -/
def Database.hold (d : Database C) (held : List (ForkItem C)) : Database C :=
  { d with forkDb := { d.forkDb with held } }

/-- The fork switch proper, once both branches are found: `front` and `back` are the two ends of the
branch the head block is on. -/
def Database.switchTo (P : Protocol C) (newBlock : SignedBlock C)
    (first second : List (ForkItem C)) (front back : ForkItem C) : DatabaseM C Unit := do
  Database.popTo P back.previousId
  Database.applyFork P newBlock front back.previousId second.reverse first.reverse

/-- A branch has two ends. -/
theorem ForkDatabase.IsBranch.ends {f : ForkDatabase C} {branch : List (ForkItem C)}
    {tip : BlockId C} (h : ForkDatabase.IsBranch P f tip branch) :
    ∃ front back, branch.head? = some front ∧ branch.getLast? = some back ∧
      P.itemId front = tip ∧ front ∈ branch ∧ back ∈ branch := by
  obtain ⟨hhead, -, -⟩ := h
  obtain ⟨front, hfront, htip⟩ := Option.map_eq_some_iff.1 hhead
  have hne : branch ≠ [] := by
    rintro rfl
    cases hfront
  exact ⟨front, branch.getLast hne, hfront, List.getLast?_eq_some_getLast hne, htip,
    List.mem_of_mem_head? hfront, List.getLast_mem hne⟩

theorem switchFork_none {newBlock : SignedBlock C} {newHead : ForkItem C}
    (h : d.forkDb.fetchBranchFrom P (P.itemId newHead) d.state.headBlockId = none) :
    Database.switchFork P newBlock newHead d = .error () d := by
  rw [Database.switchFork, bind_ok (get_apply d), h]
  rfl

/-- A fork switch lets go of the items of both branches at the end. -/
theorem switchFork_some {newBlock : SignedBlock C} {newHead front back : ForkItem C}
    {first second : List (ForkItem C)}
    (h : d.forkDb.fetchBranchFrom P (P.itemId newHead) d.state.headBlockId = some (first, second))
    (hfront : second.head? = some front) (hback : second.getLast? = some back) :
    Database.switchFork P newBlock newHead d =
      match Database.switchTo P newBlock first second front back (d.hold (first ++ second)) with
      | .ok _ d' => .ok () (d'.hold [])
      | .error _ d' => .error () (d'.hold []) := by
  rw [Database.switchFork, bind_ok (get_apply d), h]
  simp only [hfront, hback]
  rw [bind_ok (modify_apply _ d)]
  cases hrun : Database.switchTo P newBlock first second front back (d.hold (first ++ second)) with
  | ok a d' => exact ensure_ok hrun (modify_apply _ d')
  | error e d' => exact ensure_error hrun (modify_apply _ d')

theorem switchFork_preserves (hg : Base g) (hP : P.Nests depth) (hlag : P.Lags g depth)
    (newBlock : SignedBlock C) (newHead : ForkItem C) :
    Preserves (Database.Idle P g depth pendingTx [] size)
      (Database.switchFork P newBlock newHead) := by
  intro d hd
  obtain ⟨chain, hsound⟩ := hd.sound
  cases hfetch : d.forkDb.fetchBranchFrom P (P.itemId newHead) d.state.headBlockId with
  | none =>
    rw [switchFork_none hfetch]
    exact hd
  | some branches =>
    obtain ⟨first, second⟩ := branches
    obtain ⟨hfirst, hsecond, -⟩ := hsound.forkDb.fetchBranchFrom_spec hfetch
    obtain ⟨front, back, hfront, hback, -, hmem, -⟩ := hsecond.ends
    rw [switchFork_some hfetch hfront hback]
    have hheld : (d.hold (first ++ second)).forkDb.WF P := by
      refine hsound.forkDb.hold fun x hx ↦ ?_
      exact (List.mem_append.1 hx).elim (hfirst.mem_alive x) (hsecond.mem_alive x)
    have hidle : (d.hold (first ++ second)).Idle P g depth pendingTx (first ++ second)
        (max size d.blockIdToBlock.size) :=
      ⟨⟨chain, hsound.of_forkDb hheld le_rfl⟩, hd.session, hd.pendingTx_eq, rfl,
        max_le hd.size_le le_rfl⟩
    have hswitch : Database.Idle P g depth pendingTx (first ++ second)
        (max size d.blockIdToBlock.size)
        (exit (Database.switchTo P newBlock first second front back (d.hold (first ++ second)))) :=
      Preserves.bind (popTo_preserves hg back.previousId) (fun _ ↦
        applyFork_preserves hg hP hlag (List.mem_append_right _ hmem) fun x hx ↦
          lt_max_of_lt_right (hsound.branch_lt hg hd.session hsecond x (List.mem_reverse.1 hx)))
        _ hidle
    have hletGo : ∀ {d' : Database C}, d'.Idle P g depth pendingTx (first ++ second)
        (max size d.blockIdToBlock.size) → (d'.hold []).Idle P g depth pendingTx [] size := by
      rintro d' ⟨⟨chain', hsound'⟩, hsession, hpending, -, hsize⟩
      exact ⟨⟨chain', hsound'.of_forkDb hsound'.forkDb.letGo le_rfl⟩, hsession, hpending, rfl,
        (le_max_left _ _).trans hsize⟩
    cases hrun : Database.switchTo P newBlock first second front back
      (d.hold (first ++ second)) with
    | ok a d' =>
      rw [hrun] at hswitch
      exact hletGo hswitch
    | error e d' =>
      rw [hrun] at hswitch
      exact hletGo hswitch

/-- **At each exit of `_push_block`** the node is at the end of some chain. -/
theorem _pushBlock_preserves (hg : Base g) (hP : P.Nests depth) (hlag : P.Lags g depth)
    (newBlock : SignedBlock C) :
    Preserves (Database.Idle P g depth pendingTx [] size) (Database._pushBlock P newBlock) := by
  refine Preserves.bind (onForkDb_preserves fun hheld hwf hf ↦ ?_) fun _ ↦
    Preserves.bind (fun _ hd ↦ hd) fun d ↦ ?_
  · obtain ⟨-, -, -, -, hheld', -⟩ := ForkDatabase.pushBlock_spec hf
    exact ⟨hwf.pushBlock hf, hheld'.trans hheld⟩
  · split
    · exact Preserves.throw _
    · split_ifs
      · exact Preserves.bind (switchFork_preserves hg hP hlag newBlock _) fun _ ↦ Preserves.pure _
      · exact Preserves.pure _
      · refine Preserves.bind (Preserves.tryCatch (applyAndStore_preserves hg hlag (hP.block _)
          (Or.inl le_rfl)) fun _ ↦ Preserves.bind (onForkDb_preserves fun hheld hwf hf ↦ ?_)
          fun _ ↦ Preserves.throw _) fun _ ↦ Preserves.pure _
        obtain rfl := Option.some_inj.1 hf
        exact ⟨hwf.remove _, hheld⟩

end

/-! ## Calls -/

/-- The node with the pending transactions set aside, as `without_pending_transactions` does. -/
def Database.setAside (d : Database C) : Database C := exit (Database.clearPending d)

/-- A node between two calls. -/
structure Database.AtRest (P : Protocol C) (g : ChainState C) (depth : ℕ)
    (chain : List (SignedBlock C)) (d : Database C) : Prop extends d.Sound P g depth chain where
  /-- No local variable holds a fork item. -/
  held_eq : d.forkDb.held = []

/-- A node as `open` leaves it, with `g` for the state of the objects. -/
structure Database.Opened (P : Protocol C) (g : ChainState C) (depth : ℕ) (d : Database C) :
    Prop where
  /-- The objects. -/
  indexes_eq : d.objects.indexes = g
  /-- No id is ahead of its index. -/
  fresh : g.Fresh
  /-- Nothing can be undone, and nothing is being recorded. -/
  undoDb : d.objects.undoDb.stack = [] ∧ d.objects.undoDb.activeSessions = 0 ∧
    d.objects.undoDb.disabled = false
  /-- There is room for the sessions evaluations nest. -/
  room : depth + 1 ≤ d.maxSize
  /-- Nothing is pending. -/
  pending : d.pendingTx = [] ∧ d.pendingTxSession = none
  /-- The fork database. -/
  forkDb : d.forkDb.WF P ∧ d.forkDb.held = []
  /-- The log. -/
  stored : g.headBlockNum = 0 ∨ g.headBlockNum < d.blockIdToBlock.size

theorem Database.Opened.atRest {d : Database C} (h : d.Opened P g depth) :
    d.AtRest P g depth [] := by
  obtain ⟨hstack, hactive, henabled⟩ := h.undoDb
  have hhist : d.objects.history = [] :=
    List.length_eq_zero_iff.1 (by rw [ObjectDatabase.length_history, hstack]; rfl)
  have hhead : d.headState = g :=
    (OnChain.state_eq_headState h.pending.2).symm.trans h.indexes_eq
  refine ⟨⟨⟨⟨henabled, h.indexes_eq ▸ h.fresh, ?_⟩, Or.inl ⟨h.pending.2, hactive⟩, h.room,
    congrArg some hhead.symm, ?_, OnChain.dgp_eq_of_idle h.pending.2⟩, h.forkDb.1,
    by rw [hhead]; exact h.stored⟩, h.forkDb.2⟩
  · rw [hstack]
    trivial
  · rw [← OnChain.history_eq_copies h.pending.2, hhist]
    exact Recorded.nil _

theorem Database.Opened.pendingOk {d : Database C} (h : d.Opened P g depth) : d.PendingOk P := by
  obtain ⟨hpending, hidle⟩ := h.pending
  refine ⟨?_, fun hne ↦ absurd hpending hne⟩
  rw [hpending, OnChain.state_eq_headState hidle]
  rfl

/-- A call from outside, with the observers it meets. -/
inductive Call (C : ChainTypes) where
  /-- `push_block`. -/
  | pushBlock (obs : Observers C) (b : SignedBlock C)
  /-- `push_transaction`. -/
  | pushTransaction (obs : Observers C) (tx : C.Tx)
  /-- `generate_block`. -/
  | generateBlock (obs : Observers C) (prod : Database.Production C)
  /-- `pop_block`. -/
  | popBlock

/-- The node a call leaves, whether it returns or throws. -/
def Call.exec (P : Protocol C) : Call C → Database C → Database C
  | pushBlock obs b, d => exit (Database.pushBlock P obs b d)
  | pushTransaction obs tx, d => exit (Database.pushTransaction P obs tx d)
  | generateBlock obs prod, d => exit (Database.generateBlock P obs prod d)
  | popBlock, d => exit (Database.popBlock P d)

/-- The nodes a run of calls leads to from `d₀`, each call being one that `Ok` admits on the node it
finds. -/
inductive Run (P : Protocol C) (Ok : Database C → Call C → Prop) (d₀ : Database C) :
    Database C → Prop
  /-- No call. -/
  | refl : Run P Ok d₀ d₀
  /-- One more call. -/
  | call {d : Database C} (h : Run P Ok d₀ d) (c : Call C) (hc : Ok d c) : Run P Ok d₀ (c.exec P d)

/-- The nodes any calls at all lead to. -/
def Reachable (P : Protocol C) : Database C → Database C → Prop := Run P fun _ _ ↦ True

/-- **Invariants** hold along a run. -/
theorem Run.invariant {Ok : Database C → Call C → Prop} {d₀ d : Database C} (h : Run P Ok d₀ d)
    {I : Database C → Prop} (h₀ : I d₀)
    (hstep : ∀ {d : Database C} {c : Call C}, I d → Ok d c → I (c.exec P d)) : I d := by
  induction h with
  | refl => exact h₀
  | call _ _ hc ih => exact hstep ih hc

namespace Database.AtRest

variable {chain : List (SignedBlock C)} {d : Database C}

/-- Pending transactions do not touch the rest of the node. -/
theorem keeps (h : d.AtRest P g depth chain) {d' : Database C}
    (hkeeps : Keeps P g depth chain d d') : d'.AtRest P g depth chain :=
  ⟨⟨hkeeps.onChain, by rw [hkeeps.forkDb_eq]; exact h.forkDb,
    by rw [hkeeps.headState_eq, hkeeps.log_eq]; exact h.stored⟩,
    by rw [hkeeps.forkDb_eq]; exact h.held_eq⟩

/-- **What `push_block` is made of**: the pending transactions are set aside, `_push_block` runs on
the head state, and what was set aside is pushed again, along with what was popped. -/
theorem pushBlock_eq (h : d.AtRest P g depth chain) (hg : Base g) (hP : P.Nests depth)
    (hlag : P.Lags g depth) (obs : Observers C) (b : SignedBlock C) :
    ∃ d₁ d₂ d₃ chain₂, Database.clearPending d = .ok () d₁ ∧ d₁.AtRest P g depth chain ∧
      Keeps P g depth chain d d₁ ∧ d₁.pendingTxSession = none ∧ d₁.pendingTx = [] ∧
      d₁.poppedTx = d.poppedTx ∧
      exit (Database._pushBlock P b d₁) = d₂ ∧ d₂.AtRest P g depth chain₂ ∧
      d₂.pendingTxSession = none ∧ d₂.pendingTx = [] ∧
      Database.restorePending P obs d.pendingTx d₂ = .ok () d₃ ∧ Keeps P g depth chain₂ d₂ d₃ ∧
      d₃.poppedTx = [] ∧ (obs.Quiet → d₃.PendingOk P) ∧
      Database.pushBlock P obs b d =
        match Database._pushBlock P b d₁ with
        | .ok r _ => .ok r d₃
        | .error _ _ => .error () d₃ := by
  obtain ⟨d₁, hclear, hon₁, hidle₁, hstate₁, hmax₁, hkept, heq₁⟩ := h.toOnChain.clearPending_spec
  have hpending₁ : d₁.pendingTx = [] := by rw [heq₁]
  have hpopped₁ : d₁.poppedTx = d.poppedTx := by rw [heq₁]
  have hkeeps₁ : Keeps P g depth chain d d₁ := by
    refine ⟨hon₁, (OnChain.state_eq_headState hidle₁).symm.trans hstate₁, by rw [heq₁],
      by rw [heq₁], hmax₁, ?_⟩
    rw [← OnChain.history_eq_copies hidle₁]
    exact hkept.of_length _
  have hrest₁ := h.keeps hkeeps₁
  have hpush := _pushBlock_preserves hg hP hlag b d₁
    (⟨⟨chain, hrest₁.toSound⟩, hidle₁, hpending₁, hrest₁.held_eq, Nat.zero_le _⟩ :
      d₁.Idle P g depth [] [] 0)
  obtain ⟨⟨chain₂, hsound₂⟩, hidle₂, hpending₂, hheld₂, -⟩ := hpush
  have hpendingOk₂ : (exit (Database._pushBlock P b d₁)).PendingOk P := by
    refine ⟨?_, fun hne ↦ absurd hpending₂ hne⟩
    rw [hpending₂, OnChain.state_eq_headState hidle₂]
    rfl
  obtain ⟨d₃, hrestore, hkeeps₃, hpopped₃, hpendingOk₃⟩ :=
    hsound₂.toOnChain.restorePending_spec obs (fun tx _ ↦ hP.tx tx)
      fun tx (_ : tx ∈ d.pendingTx) ↦ hP.tx tx
  refine ⟨d₁, _, d₃, chain₂, hclear, hrest₁, hkeeps₁, hidle₁, hpending₁, hpopped₁, rfl,
    ⟨hsound₂, hheld₂⟩, hidle₂, hpending₂, hrestore, hkeeps₃, hpopped₃,
    fun hquiet ↦ hpendingOk₃ hquiet hpendingOk₂, ?_⟩
  have hcall : Database.pushBlock P obs b d =
      ensure (Database._pushBlock P b) (Database.restorePending P obs d.pendingTx) d₁ := by
    rw [Database.pushBlock, Database.withoutPendingTransactions, bind_ok (get_apply d),
      bind_ok hclear]
  rw [hcall]
  cases hrun : Database._pushBlock P b d₁ with
  | ok r d₂ =>
    rw [hrun] at hrestore
    exact ensure_ok hrun hrestore
  | error e d₂ =>
    rw [hrun] at hrestore
    exact ensure_error hrun hrestore

/-- **What `push_block` leaves** is what `_push_block` leaves when what is pending is set aside,
with pending transactions on top. -/
theorem pushBlock_keeps (h : d.AtRest P g depth chain) (hg : Base g) (hP : P.Nests depth)
    (hlag : P.Lags g depth) (obs : Observers C) (b : SignedBlock C) :
    d.setAside.AtRest P g depth chain ∧ Keeps P g depth chain d d.setAside ∧
      d.setAside.pendingTxSession = none ∧
      ∃ chain', (exit (Database._pushBlock P b d.setAside)).AtRest P g depth chain' ∧
        (exit (Database._pushBlock P b d.setAside)).pendingTxSession = none ∧
        Keeps P g depth chain' (exit (Database._pushBlock P b d.setAside))
          (exit (Database.pushBlock P obs b d)) := by
  obtain ⟨d₁, d₂, d₃, chain₂, hclear, hrest₁, hkeeps₁, hidle₁, -, -, hexit, hrest₂, hidle₂, -, -,
    hkeeps₃, -, -, heq⟩ := h.pushBlock_eq hg hP hlag obs b
  have haside : d.setAside = d₁ := by rw [Database.setAside, hclear, exit_ok]
  have hexit₃ : exit (Database.pushBlock P obs b d) = d₃ := by
    rw [heq]
    split <;> rfl
  rw [haside, hexit, hexit₃]
  exact ⟨hrest₁, hkeeps₁, hidle₁, chain₂, hrest₂, hidle₂, hkeeps₃⟩

theorem pushBlock (h : d.AtRest P g depth chain) (hg : Base g) (hP : P.Nests depth)
    (hlag : P.Lags g depth) (obs : Observers C) (b : SignedBlock C) :
    ∃ chain', (exit (Database.pushBlock P obs b d)).AtRest P g depth chain' ∧
      (obs.Quiet → (exit (Database.pushBlock P obs b d)).PendingOk P) := by
  obtain ⟨d₁, d₂, d₃, chain₂, -, -, -, -, -, -, -, hrest₂, -, -, -, hkeeps₃, -, hpendingOk, heq⟩ :=
    h.pushBlock_eq hg hP hlag obs b
  have hexit : exit (Database.pushBlock P obs b d) = d₃ := by
    rw [heq]
    split <;> rfl
  rw [hexit]
  exact ⟨chain₂, hrest₂.keeps hkeeps₃, hpendingOk⟩

theorem popBlock (h : d.AtRest P g depth chain) (hg : Base g) :
    ∃ chain', (exit (Database.popBlock P d)).AtRest P g depth chain' := by
  obtain ⟨d₁, hreset, hkeeps, hidle, -⟩ := h.toOnChain.resetPendingTxSession_keeps
  have hrest := h.keeps hkeeps
  have hcall : Database.popBlock P d = Database.popBlock P d₁ := by
    rw [Database.popBlock, bind_ok hreset, bind_ok (OnChain.resetPendingTxSession_idle hidle)]
  have hpop := popBlock_preserves hg d₁ (⟨⟨chain, hrest.toSound⟩, hidle, rfl, hrest.held_eq,
    Nat.zero_le _⟩ : d₁.Idle P g depth d₁.pendingTx [] 0)
  rw [hcall]
  obtain ⟨⟨chain', hsound⟩, -, -, hheld, -⟩ := hpop
  exact ⟨chain', hsound, hheld⟩

/-- **Every call** leaves a sound node. -/
theorem call (h : d.AtRest P g depth chain) (hg : Base g) (hP : P.Nests depth)
    (hlag : P.Lags g depth) (c : Call C) : ∃ chain', (c.exec P d).AtRest P g depth chain' := by
  cases c with
  | pushBlock obs b =>
    obtain ⟨chain', hrest, -⟩ := h.pushBlock hg hP hlag obs b
    exact ⟨chain', hrest⟩
  | pushTransaction obs tx =>
    exact ⟨chain, h.keeps (h.toOnChain._pushTransaction_repushes (hP.tx tx) obs).toKeeps⟩
  | generateBlock obs prod =>
    rcases h.toOnChain.generateBlock_spec (fun tx _ ↦ hP.tx tx) obs prod with
      hrun | ⟨-, d₁, hkeeps, -, -, -, hrun | hrun⟩
    · refine ⟨chain, ?_⟩
      rw [Call.exec, hrun]
      exact h
    · obtain ⟨-, -, hrun⟩ := hrun
      refine ⟨chain, ?_⟩
      rw [Call.exec, hrun]
      exact h.keeps hkeeps
    · obtain ⟨chain', hrest, -⟩ := (h.keeps hkeeps).pushBlock hg hP hlag obs _
      refine ⟨chain', ?_⟩
      rw [Call.exec, hrun]
      exact hrest
  | popBlock => exact h.popBlock hg

end Database.AtRest

/-- **Every reachable node** is at the end of some chain of blocks. -/
theorem Run.atRest {Ok : Database C → Call C → Prop} {d₀ d : Database C} (h : Run P Ok d₀ d)
    (hg : Base g) (hP : P.Nests depth) (hlag : P.Lags g depth) (h₀ : d₀.Opened P g depth) :
    ∃ chain, d.AtRest P g depth chain := by
  refine h.invariant (I := fun d ↦ ∃ chain, d.AtRest P g depth chain) ⟨[], h₀.atRest⟩ ?_
  rintro d c ⟨chain, hrest⟩ -
  exact hrest.call hg hP hlag c

end Graphene
