import Graphene.Chain.PushBlock

/-!
# Popping blocks

`pop_block` moves the head of the fork database to its parent, empties the head block's entry in
the log, and goes back one undo state.  The three go together as long as all three can be done.

* `Database.Undoable` — the undo stack holds the states below the newest blocks.
* `popBlock_ok` — `pop_block` does its three things.
* `popTo_ok` — and so does the loop that pops down to a block.
-/

set_option autoImplicit false

namespace Graphene

open Throwing

variable {C : ChainTypes} {P : Protocol C} {g : ChainState C} {depth : ℕ}

/-! ## The undo stack -/

/-- The undo stack holds the states below the newest `n` blocks. -/
def Database.Undoable (d : Database C) (n : ℕ) : Prop :=
  ∀ j < n, ∃ s, d.copies[j]? = some s ∧ s.headBlockNum + (j + 1) = d.headState.headBlockNum

/-- A copy as far below the head block as it is down the stack is the state of the chain there. -/
theorem Recorded.getElem? (hg : Base g) {chain : List (SignedBlock C)}
    {hist : List (ChainState C)} (h : Recorded P g chain hist) {ix s : ChainState C} {j : ℕ}
    (hix : P.stateAt g chain = some ix) (hj : hist[j]? = some s)
    (hnum : s.headBlockNum + (j + 1) = ix.headBlockNum) :
    j + 1 ≤ chain.length ∧ P.stateAt g (chain.drop (j + 1)) = some s := by
  induction h generalizing ix j with
  | nil => cases hj
  | base h =>
    cases j with
    | zero =>
      obtain rfl := Option.some_inj.1 hj
      obtain rfl := Option.some_inj.1 (h.symm.trans hix)
      omega
    | succ j => cases hj
  | block h hr ih =>
    have h₁ := (Protocol.stateAt_spec hg h).2.2.1
    have h₂ := (Protocol.stateAt_spec hg hix).2.2.1
    rw [List.length_cons] at h₂
    cases j with
    | zero =>
      obtain rfl := Option.some_inj.1 hj
      exact ⟨Nat.succ_le_succ (Nat.zero_le _), h⟩
    | succ j =>
      obtain ⟨hle, hs⟩ := ih h hj (by omega)
      exact ⟨Nat.succ_le_succ hle, hs⟩

namespace Database.Undoable

variable {d d' : Database C} {n n' : ℕ}

theorem mono (h : d.Undoable n) (hn : n' ≤ n) : d.Undoable n' :=
  fun j hj ↦ h j (hj.trans_le hn)

/-- Copies that are kept can still be gone back to. -/
theorem kept (h : d.Undoable n) (hhead : d'.headState = d.headState) {s : ChainState C} {k : ℕ}
    (hkept : Kept s k d.copies d'.copies) (hn : n ≤ k) : d'.Undoable n := by
  intro j hj
  obtain ⟨t, ht, hnum⟩ := h j hj
  exact ⟨t, hkept.getElem? (hj.trans_le hn) ht, hhead ▸ hnum⟩

/-- A block on top: the copy below it, and older ones that are kept. -/
theorem applied (h : d.Undoable (n - 1)) (hidle : d.pendingTxSession = none)
    (hidle' : d'.pendingTxSession = none)
    (hnum : d'.state.headBlockNum = d.state.headBlockNum + 1) {hist : List (ChainState C)}
    (hhist : d'.objects.history = d.state :: hist) {s : ChainState C} {k : ℕ}
    (hkept : Kept s k d.objects.history hist) (hk : n - 1 ≤ k) : d'.Undoable n := by
  intro j hj
  rw [← OnChain.history_eq_copies hidle', ← OnChain.state_eq_headState hidle', hhist]
  cases j with
  | zero => exact ⟨d.state, rfl, hnum.symm⟩
  | succ j =>
    obtain ⟨s, hs, hsnum⟩ := h j (by omega)
    rw [← OnChain.history_eq_copies hidle] at hs
    rw [← OnChain.state_eq_headState hidle] at hsnum
    exact ⟨s, hkept.getElem? (by omega) hs, by omega⟩

theorem length_le (h : d.Undoable n) : n ≤ d.copies.length := by
  cases n with
  | zero => exact Nat.zero_le _
  | succ n =>
    obtain ⟨s, hs, -⟩ := h n (Nat.lt_succ_self n)
    exact (List.getElem?_eq_some_iff.1 hs).1

theorem chain_le {chain : List (SignedBlock C)} (h : d.Undoable n) (hg : Base g)
    (hon : d.OnChain P g depth chain) : n ≤ chain.length := by
  cases n with
  | zero => exact Nat.zero_le _
  | succ n =>
    obtain ⟨s, hs, hnum⟩ := h n (Nat.lt_succ_self n)
    exact (hon.copies.getElem? hg hon.state_eq hs hnum).1

end Database.Undoable

/-- The state a node can be brought back to. -/
theorem Database.OnChain.copy {chain : List (SignedBlock C)} {d : Database C} {n : ℕ}
    (h : d.OnChain P g depth chain) (hg : Base g) (hun : d.Undoable (n + 1)) :
    ∃ s, d.copies[n]? = some s ∧ P.stateAt g (chain.drop (n + 1)) = some s := by
  obtain ⟨s, hs, hnum⟩ := hun n (Nat.lt_succ_self n)
  exact ⟨s, hs, (h.copies.getElem? hg h.state_eq hs hnum).2⟩

/-! ## The fork database and the log -/

/-- `pop_block` of the fork database, `n` times. -/
def ForkDatabase.popBlocks : ℕ → ForkDatabase C → Option (ForkDatabase C)
  | 0, f => some f
  | n + 1, f => f.popBlock.bind (popBlocks n)

/-- `remove`, for one id after the other. -/
def BlockDatabase.removeAll : List (BlockId C) → BlockDatabase C → Option (BlockDatabase C)
  | [], log => some log
  | id :: ids, log => (log.remove id).bind (removeAll ids)

theorem ForkDatabase.popBlock_eq {f f' : ForkDatabase C} (h : f.popBlock = some f') :
    ∃ y, f' = { f with head := some y } := by
  obtain ⟨x, -, h⟩ := Option.bind_eq_some_iff.1 h
  obtain ⟨y, -, h⟩ := Option.bind_eq_some_iff.1 h
  exact ⟨y, (Option.some_inj.1 h).symm⟩

theorem BlockDatabase.remove_spec {log log' : BlockDatabase C} {id : BlockId C}
    (h : log.remove id = some log') :
    log'.size = log.size ∧ (∀ j, j ≠ id.num → log'.entries j = log.entries j) ∧
      ((log.entries id.num).blockId = id → (log'.entries id.num).block = none) := by
  rw [remove] at h
  split_ifs at h with hsize hid
  · obtain rfl := Option.some_inj.1 h
    exact ⟨rfl, fun j hj ↦ Function.update_of_ne hj _ _, fun _ ↦ by simp⟩
  · obtain rfl := Option.some_inj.1 h
    exact ⟨rfl, fun _ _ ↦ rfl, fun h ↦ absurd h hid⟩

theorem BlockDatabase.size_removeAll {ids : List (BlockId C)} {log log' : BlockDatabase C}
    (h : log.removeAll ids = some log') : log'.size = log.size := by
  induction ids generalizing log with
  | nil => rw [Option.some_inj.1 h]
  | cons id ids ih =>
    obtain ⟨log₁, hid, hrest⟩ := Option.bind_eq_some_iff.1 h
    exact (ih hrest).trans (remove_spec hid).1

/-! ## `pop_block` -/

section

variable {chain : List (SignedBlock C)} {d : Database C} {f : ForkDatabase C}

/-- **`pop_block` does its three things** when the fork database knows the parent of its head and
the undo stack holds the state below the head block. -/
theorem popBlock_ok (h : d.Sound P g depth chain) (hg : Base g) (hidle : d.pendingTxSession = none)
    (hun : d.Undoable 1) (hfork : d.forkDb.popBlock = some f)
    (hfetch : d.fetchBlockById P d.state.headBlockId ≠ none) :
    ∃ b bs d', chain = b :: bs ∧ Database.popBlock P d = .ok () d' ∧ d'.Sound P g depth bs ∧
      d.blockIdToBlock.remove (P.blockId b) = some d'.blockIdToBlock ∧
      d'.objects.history = d.objects.history.tail ∧ d'.maxSize = d.maxSize ∧
      d' = { d with
        objects := d'.objects
        forkDb := f
        blockIdToBlock := d'.blockIdToBlock
        poppedTx := d'.poppedTx } := by
  have hhead := Database.OnChain.state_eq_headState hidle
  have hcopies := Database.OnChain.history_eq_copies hidle
  obtain ⟨s, hs, hnum⟩ := hun 0 Nat.one_pos
  rw [← hhead] at hnum
  obtain ⟨s', rest, hh⟩ : ∃ s' rest, d.objects.history = s' :: rest := by
    rw [hcopies]
    cases hc : d.copies with
    | nil =>
      rw [hc] at hs
      cases hs
    | cons s' rest => exact ⟨s', rest, rfl⟩
  obtain rfl : s' = s := by
    rw [← hcopies, hh] at hs
    exact Option.some_inj.1 hs
  obtain ⟨objects, hpop, hix, hhist, hmax, hcases⟩ := h.toOnChain.popCommit_spec hidle hg hh
  rcases hcases with ⟨rfl, -, -⟩ | ⟨b, bs, rfl, hon, -⟩
  · omega
  obtain ⟨hbase, hid, -⟩ := Protocol.stateAt_spec hg (h.toOnChain.stateAt_eq hidle)
  have hstored := h.stored
  rw [← hhead] at hstored
  obtain ⟨log, hlog⟩ : ∃ log, d.blockIdToBlock.remove d.state.headBlockId = some log := by
    have hsize : ¬ d.blockIdToBlock.size ≤ d.state.headBlockId.num := by
      rw [hbase.num_eq]
      omega
    rw [BlockDatabase.remove, if_neg hsize]
    split_ifs <;> exact ⟨_, rfl⟩
  obtain ⟨headBlock, hheadBlock⟩ := Option.ne_none_iff_exists'.1 hfetch
  refine ⟨b, bs, { d with
    objects, forkDb := f, blockIdToBlock := log, poppedTx := headBlock.transactions ++ d.poppedTx },
    rfl, ?_, ⟨⟨hon.wf, hon.session, hon.room, hon.state_eq, hon.copies, hon.dgp_eq⟩,
      (h.forkDb.popBlock hfork).1, ?_⟩, ?_, ?_, hmax, rfl⟩
  · rw [Database.OnChain.popBlock_eq hidle, hheadBlock, hfork]
    simp only [hlog, hpop]
  · have hhead' : ({ d with objects } : Database C).headState = s' := by
      rw [← Database.OnChain.state_eq_headState (d := { d with objects }) hidle]
      exact hix
    change ({ d with objects } : Database C).headState.headBlockNum = 0 ∨
      ({ d with objects } : Database C).headState.headBlockNum < log.size
    rw [hhead', (BlockDatabase.remove_spec hlog).1]
    omega
  · rw [← hlog, hid]
    rfl
  · rw [hhist, hh]
    rfl

/-- What a lower block is fetched from is not touched when the head block is popped. -/
theorem fetchBlockById_remove {log : BlockDatabase C} {id id' : BlockId C} {y : Option (ForkItem C)}
    (hlog : d.blockIdToBlock.remove id = some log) (hne : id'.num ≠ id.num)
    {objects : ObjectDatabase (ChainObject C)} {poppedTx : List C.Tx} :
    ({ d with objects, forkDb := { d.forkDb with head := y }, blockIdToBlock := log, poppedTx } :
      Database C).fetchBlockById P id' = d.fetchBlockById P id' := by
  obtain ⟨hsize, hentries, -⟩ := BlockDatabase.remove_spec hlog
  simp only [Database.fetchBlockById, ForkDatabase.fetchBlock, BlockDatabase.fetchOptional, hsize,
    hentries _ hne]

theorem headState_step {bs : List (SignedBlock C)} {b : SignedBlock C} {d₁ : Database C}
    (h : d.Sound P g depth (b :: bs)) (hg : Base g) (h₁ : d₁.Sound P g depth bs) :
    d₁.headState.headBlockNum + 1 = d.headState.headBlockNum := by
  obtain ⟨-, -, hlen, -⟩ := Protocol.stateAt_spec hg h.state_eq
  obtain ⟨-, -, hlen₁, -⟩ := Protocol.stateAt_spec hg h₁.state_eq
  rw [hlen, hlen₁, List.length_cons, Nat.add_assoc]

/-- The head block is above the state without it. -/
theorem headState_lt_num {bs : List (SignedBlock C)} {b : SignedBlock C} {d₁ : Database C}
    (h : d.Sound P g depth (b :: bs)) (hg : Base g) (h₁ : d₁.Sound P g depth bs) :
    d₁.headState.headBlockNum < (P.blockId b).num := by
  obtain ⟨hbase, hid, -⟩ := Protocol.stateAt_spec hg h.state_eq
  have hnum : (P.blockId b).num = d.headState.headBlockNum := by
    rw [← hbase.num_eq, hid]
    rfl
  have hstep := headState_step h hg h₁
  omega

/-- What was fetched before the head block was popped is fetched still, if it is below. -/
theorem fetchBlockById_popBlock {bs : List (SignedBlock C)} {b : SignedBlock C} {d₁ : Database C}
    {y : Option (ForkItem C)} (h₁ : d₁.Sound P g depth bs) (hg : Base g)
    (hlog : d.blockIdToBlock.remove (P.blockId b) = some d₁.blockIdToBlock)
    (hnum : d₁.headState.headBlockNum < (P.blockId b).num)
    (heq : d₁ = { d with
      objects := d₁.objects
      forkDb := { d.forkDb with head := y }
      blockIdToBlock := d₁.blockIdToBlock
      poppedTx := d₁.poppedTx }) (j : ℕ) :
    d₁.fetchBlockById P (P.tip g (bs.drop j)) = d.fetchBlockById P (P.tip g (bs.drop j)) := by
  rw [heq, fetchBlockById_remove hlog]
  obtain ⟨ix, hix⟩ := Protocol.stateAt_drop h₁.state_eq j
  obtain ⟨hbase', hid', hlen', -⟩ := Protocol.stateAt_spec hg hix
  obtain ⟨-, -, hlen₁, -⟩ := Protocol.stateAt_spec hg h₁.state_eq
  rw [← hid', hbase'.num_eq, hlen', List.length_drop]
  omega

/-- **A block is popped**, and as many can be popped from there as could be before, but for one. -/
theorem popBlock_step {n : ℕ} (h : d.Sound P g depth chain) (hg : Base g)
    (hidle : d.pendingTxSession = none) (hun : d.Undoable (n + 1))
    (hfork : d.forkDb.popBlocks (n + 1) = some f)
    (hfetch : ∀ j < n + 1, d.fetchBlockById P (P.tip g (chain.drop j)) ≠ none) :
    ∃ b bs d₁, chain = b :: bs ∧ Database.popBlock P d = .ok () d₁ ∧ d₁.Sound P g depth bs ∧
      d.blockIdToBlock.remove (P.blockId b) = some d₁.blockIdToBlock ∧
      d₁.objects.history = d.objects.history.tail ∧ d₁.maxSize = d.maxSize ∧
      d₁.pendingTxSession = none ∧ d₁.Undoable n ∧ d₁.forkDb.popBlocks n = some f ∧
      (∀ j < n, d₁.fetchBlockById P (P.tip g (bs.drop j)) ≠ none) ∧
      d₁ = { d with
        objects := d₁.objects
        forkDb := d₁.forkDb
        blockIdToBlock := d₁.blockIdToBlock
        poppedTx := d₁.poppedTx } := by
  obtain ⟨-, hid, -⟩ := Protocol.stateAt_spec hg (h.toOnChain.stateAt_eq hidle)
  obtain ⟨f₁, hfork₁, hfork⟩ := Option.bind_eq_some_iff.1 hfork
  obtain ⟨y, rfl⟩ := ForkDatabase.popBlock_eq hfork₁
  obtain ⟨b, bs, d₁, rfl, hpop, hsound₁, hlog, hhist, hmax, heq⟩ :=
    popBlock_ok h hg hidle (hun.mono (by omega)) hfork₁ (hid ▸ hfetch 0 (Nat.succ_pos n))
  have hidle₁ : d₁.pendingTxSession = none := by rw [heq]; exact hidle
  have hcopies₁ : d₁.copies = d.copies.tail := by
    rw [← Database.OnChain.history_eq_copies hidle₁, hhist,
      Database.OnChain.history_eq_copies hidle]
  have hnum₁ := headState_step h hg hsound₁
  have hun₁ : d₁.Undoable n := by
    intro j hj
    obtain ⟨s, hs, hnum⟩ := hun (j + 1) (Nat.succ_lt_succ hj)
    refine ⟨s, ?_, by omega⟩
    rw [hcopies₁, List.getElem?_tail, hs]
  refine ⟨b, bs, d₁, rfl, hpop, hsound₁, hlog, hhist, hmax, hidle₁, hun₁, by rw [heq]; exact hfork,
    fun j hj ↦ ?_, by rw [heq]⟩
  rw [fetchBlockById_popBlock hsound₁ hg hlog (headState_lt_num h hg hsound₁) heq]
  exact hfetch (j + 1) (Nat.succ_lt_succ hj)

/-- The head block is not one of the blocks below it. -/
theorem Protocol.headBlockId_ne_tip_drop (hg : Base g) {chain : List (SignedBlock C)}
    {ix : ChainState C} (h : P.stateAt g chain = some ix) {n : ℕ} (hn : n + 1 ≤ chain.length) :
    ix.headBlockId ≠ P.tip g (chain.drop (n + 1)) := by
  obtain ⟨ix', hix'⟩ := Protocol.stateAt_drop h (n + 1)
  obtain ⟨hbase, -, hlen, -⟩ := Protocol.stateAt_spec hg h
  obtain ⟨hbase', hid', hlen', -⟩ := Protocol.stateAt_spec hg hix'
  rw [List.length_drop] at hlen'
  rw [← hid']
  intro heq
  have hnum := congrArg BlockId.num heq
  rw [hbase.num_eq, hbase'.num_eq, hlen, hlen'] at hnum
  omega

/-- **Popping `n` blocks** brings the node back to the block below them. -/
theorem popUntil_spec {n fuel : ℕ} (hfuel : n < fuel) (h : d.Sound P g depth chain) (hg : Base g)
    (hidle : d.pendingTxSession = none) (hun : d.Undoable n)
    (hfork : d.forkDb.popBlocks n = some f)
    (hfetch : ∀ j < n, d.fetchBlockById P (P.tip g (chain.drop j)) ≠ none) :
    ∃ d', Database.popUntil P (P.tip g (chain.drop n)) fuel d = .ok () d' ∧
      d'.Sound P g depth (chain.drop n) ∧
      d.blockIdToBlock.removeAll ((chain.take n).map P.blockId) = some d'.blockIdToBlock ∧
      d'.objects.history = d.objects.history.drop n ∧ d'.maxSize = d.maxSize ∧
      d' = { d with
        objects := d'.objects
        forkDb := f
        blockIdToBlock := d'.blockIdToBlock
        poppedTx := d'.poppedTx } := by
  induction n generalizing d chain fuel with
  | zero =>
    obtain ⟨fuel, rfl⟩ : ∃ m, fuel = m + 1 := ⟨fuel - 1, by omega⟩
    obtain ⟨-, hid, -⟩ := Protocol.stateAt_spec hg (h.toOnChain.stateAt_eq hidle)
    obtain rfl := Option.some_inj.1 hfork
    refine ⟨d, ?_, h, rfl, rfl, rfl, rfl⟩
    have hid' : ¬ d.state.headBlockId ≠ P.tip g (chain.drop 0) := not_not.2 hid
    rw [Database.popUntil, bind_ok (get_apply d), if_neg hid']
    rfl
  | succ n ih =>
    obtain ⟨fuel, rfl⟩ : ∃ m, fuel = m + 1 := ⟨fuel - 1, by omega⟩
    have hle := hun.chain_le hg h.toOnChain
    obtain ⟨b, bs, d₁, rfl, hpop, hsound₁, hlog, hhist, hmax, hidle₁, hun₁, hfork₁, hfetch₁, heq⟩ :=
      popBlock_step h hg hidle hun hfork hfetch
    obtain ⟨d₂, hrun, hsound₂, hlog₂, hhist₂, hmax₂, heq₂⟩ := ih (by omega : n < fuel) hsound₁
      hidle₁ hun₁ hfork₁ hfetch₁
    refine ⟨d₂, ?_, hsound₂, ?_, ?_, hmax₂.trans hmax, ?_⟩
    · have hne := Protocol.headBlockId_ne_tip_drop hg (h.toOnChain.stateAt_eq hidle) hle
      rw [Database.popUntil, bind_ok (get_apply d), if_pos hne, bind_ok hpop]
      exact hrun
    · rw [List.take_succ_cons, List.map_cons, BlockDatabase.removeAll, hlog, Option.bind_some]
      exact hlog₂
    · rw [hhist₂, hhist, List.drop_tail]
    · rw [heq₂, heq]

/-- `popUntil` with the fuel `popTo` gives it. -/
theorem popTo_ok {n : ℕ} (h : d.Sound P g depth chain) (hg : Base g)
    (hidle : d.pendingTxSession = none) (hun : d.Undoable n)
    (hfork : d.forkDb.popBlocks n = some f)
    (hfetch : ∀ j < n, d.fetchBlockById P (P.tip g (chain.drop j)) ≠ none) :
    ∃ d', Database.popTo P (P.tip g (chain.drop n)) d = .ok () d' ∧
      d'.Sound P g depth (chain.drop n) ∧
      d.blockIdToBlock.removeAll ((chain.take n).map P.blockId) = some d'.blockIdToBlock ∧
      d'.objects.history = d.objects.history.drop n ∧ d'.maxSize = d.maxSize ∧
      d' = { d with
        objects := d'.objects
        forkDb := f
        blockIdToBlock := d'.blockIdToBlock
        poppedTx := d'.poppedTx } := by
  have hlen := hun.length_le
  rw [← Database.OnChain.history_eq_copies hidle, ObjectDatabase.length_history] at hlen
  rw [Database.popTo, bind_ok (get_apply d)]
  exact popUntil_spec (Nat.lt_succ_of_le hlen) h hg hidle hun hfork hfetch

end

end Graphene
