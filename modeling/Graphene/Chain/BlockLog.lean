import Graphene.Chain.ForkHead
import Graphene.Chain.Reorganised

/-!
# The log and the chain

A block is stored when it is applied and removed when it is popped, so the log should have the
blocks of the chain, each at its height; and where the fork database has a single block of some
height, which is then read in place of the log's, it should be the chain's.

* `ForkDatabase.Covers` — the index has a block, as far down as it goes.
* `Database.Logged` — the invariant: the log has the chain, and the fork database covers it.
* `Call.KeepsLog` — the calls that keep it.
* `block_log_agrees` — along every run of such calls all reads by number give the chain's blocks.
* `restored_block_not_stored` — a switch that fails stores the old branch under the id of the block
  that was pushed.
-/

set_option autoImplicit false

namespace Graphene

open Throwing

variable {C : ChainTypes} {P : Protocol C} {g : ChainState C} {depth : ℕ}

/-! ## What the index covers -/

/-- The index has the block `b`, if it has anything as low as it. -/
def ForkDatabase.Covers (f : ForkDatabase C) (b : SignedBlock C) : Prop :=
  ∀ x ∈ f.index, x.num ≤ b.blockNum → ∃ y ∈ f.index, y.data = b

namespace ForkDatabase.Covers

variable {f f' : ForkDatabase C} {b : SignedBlock C}

theorem of_mem {x : ForkItem C} (hx : x ∈ f.index) : f.Covers x.data :=
  fun _ _ _ ↦ ⟨x, hx, rfl⟩

theorem congr (h : f.Covers b) (hindex : f'.index = f.index) : f'.Covers b := by
  rw [Covers, hindex]
  exact h

theorem prune (h : f.Covers b) (n : ℕ) : (f.prune n).Covers b := by
  intro x hx hle
  obtain ⟨hmem, hn⟩ := mem_prune.1 hx
  obtain ⟨y, hy, rfl⟩ := h x hmem hle
  exact ⟨y, mem_prune.2 ⟨hy, hn.trans hle⟩, rfl⟩

theorem setMaxSize (h : f.Covers b) (s : ℕ) : (f.setMaxSize s).Covers b := by
  rw [ForkDatabase.setMaxSize]
  split
  · exact h.congr rfl
  · have hbound : ({ f with maxSize := s } : ForkDatabase C).Covers b := h.congr rfl
    exact hbound.prune _

theorem remove (h : f.Covers b) {id : BlockId C} (hid : P.blockId b ≠ id) :
    (f.remove P id).Covers b := by
  intro x hx hle
  obtain ⟨y, hy, rfl⟩ := h x (List.mem_filter.1 hx).1 hle
  exact ⟨y, List.mem_filter.2 ⟨hy, decide_eq_true hid⟩, rfl⟩

/-- Linking another block, unless it has no parent and the index goes down to the first block. -/
theorem pushBlock (h : f.Covers b) {newBlock : SignedBlock C}
    (hpush : f.pushBlock P newBlock = some f')
    (hroot : ∀ item, f.link P newBlock = some item → item.prev = none →
      ∃ x ∈ f.index, x.num ≤ b.blockNum) : f'.Covers b := by
  obtain ⟨item, hlink, hindex, -⟩ := pushBlock_spec hpush
  intro x hx hle
  obtain ⟨hfrom, hbound⟩ := (hindex x).1 hx
  have hold : ∃ z ∈ f.index, z.num ≤ b.blockNum := by
    rcases hfrom with hmem | ⟨rfl, -⟩
    · exact ⟨x, hmem, hle⟩
    · obtain ⟨-, -, -, ⟨hnone, -⟩ | ⟨prev, hprev, hp⟩⟩ := link_spec hlink
      · exact hroot x hlink hnone
      · have hnum := hp.num_eq
        exact ⟨prev, hprev, by omega⟩
  obtain ⟨z, hz, hzle⟩ := hold
  obtain ⟨y, hy, rfl⟩ := h z hz hzle
  exact ⟨y, (hindex y).2 ⟨Or.inl hy, hbound.trans hle⟩, rfl⟩

/-- A block that is linked is covered, if the index has no other block under its id. -/
theorem of_pushBlock (hpush : f.pushBlock P b = some f')
    (hown : ∀ x ∈ f.index, P.itemId x = P.blockId b → x.data = b) : f'.Covers b := by
  obtain ⟨item, hlink, hindex, -⟩ := pushBlock_spec hpush
  obtain ⟨-, hdata, -⟩ := link_spec hlink
  have hbound : f.bound b ≤ b.blockNum := by
    rw [bound]
    split
    · exact Nat.zero_le _
    · split_ifs <;> omega
  cases hfetch : f.fetchBlock P (P.blockId b) with
  | none =>
    have hmem : item ∈ f'.index := by
      refine (hindex item).2 ⟨Or.inr ⟨rfl, hfetch⟩, ?_⟩
      rw [ForkItem.num, hdata]
      exact hbound
    exact hdata ▸ of_mem hmem
  | some x =>
    obtain ⟨hx, hid⟩ := fetchBlock_eq_some hfetch
    obtain rfl := hown x hx hid
    exact of_mem ((hindex x).2 ⟨Or.inl hx, hbound⟩)

end ForkDatabase.Covers

/-! ## The invariant -/

/-- The heights of a chain's blocks. -/
theorem Protocol.blockNum_of_getElem? (hg : Base g) {chain : List (SignedBlock C)}
    {ix : ChainState C} (h : P.stateAt g chain = some ix) {i : ℕ} {b : SignedBlock C}
    (hi : chain[i]? = some b) : b.blockNum + i = ix.headBlockNum := by
  induction chain generalizing ix i with
  | nil => cases hi
  | cons c bs ih =>
    obtain ⟨ix₁, h₁, happly⟩ := Option.bind_eq_some_iff.1 h
    obtain ⟨-, -, hnum, hcnum, -⟩ :=
      Protocol.applyBlock_headBlockId (Protocol.stateAt_spec hg h₁).1 happly
    cases i with
    | zero =>
      obtain rfl := Option.some_inj.1 hi
      omega
    | succ i =>
      have := ih h₁ hi
      omega

theorem Protocol.blockNum_le (hg : Base g) {chain : List (SignedBlock C)} {ix : ChainState C}
    (h : P.stateAt g chain = some ix) : ∀ b ∈ chain, b.blockNum ≤ ix.headBlockNum := by
  intro b hb
  obtain ⟨i, hi⟩ := List.mem_iff_getElem?.1 hb
  have := P.blockNum_of_getElem? hg h hi
  omega

/-- The log has the blocks of the chain at their heights, and the fork database covers them. -/
structure Database.Logged (P : Protocol C) (chain : List (SignedBlock C)) (d : Database C) :
    Prop where
  /-- The entries of the log. -/
  entries : ∀ b ∈ chain, b.blockNum < d.blockIdToBlock.size ∧
    d.blockIdToBlock.entries b.blockNum = ⟨some b, P.blockId b⟩
  /-- The index of the fork database. -/
  covers : ∀ b ∈ chain, d.forkDb.Covers b

/-- **What is asked of the reads by number**: at every height above the state the node was opened
with, up to the head block, they give the block of the chain. -/
def Database.LogAgrees (P : Protocol C) (g : ChainState C) (chain : List (SignedBlock C))
    (d : Database C) : Prop :=
  ∀ n, g.headBlockNum < n → n ≤ d.state.headBlockNum →
    ∃ b, chain[d.state.headBlockNum - n]? = some b ∧ b.blockNum = n ∧
      d.blockIdToBlock.fetchByNumber P n = some b ∧ d.fetchBlockByNumber P n = some b ∧
      d.getBlockIdForNum n = some (P.blockId b) ∧ d.blockIdToBlock.contains (P.blockId b) = true

namespace Database.Logged

variable {chain bs : List (SignedBlock C)} {b : SignedBlock C} {d d' : Database C}

theorem nil (d : Database C) : d.Logged P [] := ⟨by simp, by simp⟩

theorem congr (h : d.Logged P chain) (hlog : d'.blockIdToBlock = d.blockIdToBlock)
    (hcovers : ∀ b ∈ chain, d.forkDb.Covers b → d'.forkDb.Covers b) : d'.Logged P chain :=
  ⟨by rw [hlog]; exact h.entries, fun b hb ↦ hcovers b hb (h.covers b hb)⟩

/-- The head block is taken from the log. -/
theorem remove (h : d.Logged P (b :: bs)) (hg : Base g) {ix : ChainState C}
    (hix : P.stateAt g (b :: bs) = some ix)
    (hlog : d.blockIdToBlock.remove (P.blockId b) = some d'.blockIdToBlock)
    (hindex : d'.forkDb.index = d.forkDb.index) : d'.Logged P bs := by
  obtain ⟨hsize, hentries, -⟩ := BlockDatabase.remove_spec hlog
  obtain ⟨ix₁, h₁, happly⟩ := Option.bind_eq_some_iff.1 hix
  obtain ⟨-, -, -, hnum, -⟩ :=
    Protocol.applyBlock_headBlockId (Protocol.stateAt_spec hg h₁).1 happly
  refine ⟨fun c hc ↦ ?_, fun c hc ↦ (h.covers c (List.mem_cons_of_mem _ hc)).congr hindex⟩
  obtain ⟨hlt, hentry⟩ := h.entries c (List.mem_cons_of_mem _ hc)
  have hle := P.blockNum_le hg h₁ c hc
  have hne : c.blockNum ≠ (P.blockId b).num := by
    change c.blockNum ≠ b.blockNum
    omega
  rw [hsize, hentries _ hne]
  exact ⟨hlt, hentry⟩

/-- A block is added to the log, under its own id. -/
theorem store (h : d.Logged P chain) (hg : Base g) {ix : ChainState C}
    (hix : P.stateAt g chain = some ix) (hnum : b.blockNum = ix.headBlockNum + 1)
    (hlog : d'.blockIdToBlock = d.blockIdToBlock.store P (P.blockId b) b)
    (hcovers : ∀ c ∈ b :: chain, d.forkDb.Covers c → d'.forkDb.Covers c)
    (hb : d.forkDb.Covers b) : d'.Logged P (b :: chain) := by
  have hentry : ∀ n, (d.blockIdToBlock.store P (P.blockId b) b).entries n =
      if n = b.blockNum then ⟨some b, P.blockId b⟩ else d.blockIdToBlock.entries n := by
    intro n
    rw [BlockDatabase.store, if_neg (P.blockId_ne_zero b)]
    exact Function.update_apply _ _ _ _
  refine ⟨fun c hc ↦ ?_, fun c hc ↦ hcovers c hc ?_⟩
  · rw [hlog, hentry]
    rcases List.mem_cons.1 hc with rfl | hc
    · exact ⟨BlockDatabase.blockNum_lt_store _ le_rfl, if_pos rfl⟩
    · obtain ⟨hlt, hold⟩ := h.entries c hc
      have hle := P.blockNum_le hg hix c hc
      exact ⟨hlt.trans_le (BlockDatabase.size_le_store _ _ _), by rw [if_neg (by omega), hold]⟩
  · rcases List.mem_cons.1 hc with rfl | hc
    · exact hb
    · exact h.covers c hc

/-- **The reads** of a node that has its chain logged. -/
theorem agrees (h : d.Logged P chain) (hg : Base g) (hix : P.stateAt g chain = some d.headState)
    (hdgp : d.state.dgp? = d.headState.dgp?) : d.LogAgrees P g chain := by
  intro n hlt hle
  have hnum : d.state.headBlockNum = d.headState.headBlockNum := by
    rw [Indexes.headBlockNum, Indexes.headBlockNum, hdgp]
  obtain ⟨-, -, hlen, -⟩ := Protocol.stateAt_spec hg hix
  rw [hnum] at hle ⊢
  have hi : d.headState.headBlockNum - n < chain.length := by omega
  obtain ⟨b, hb⟩ : ∃ b, chain[d.headState.headBlockNum - n]? = some b :=
    ⟨_, List.getElem?_eq_getElem hi⟩
  have hmem := List.mem_of_getElem? hb
  have hbnum := P.blockNum_of_getElem? hg hix hb
  obtain rfl : b.blockNum = n := by omega
  obtain ⟨hsize, hentry⟩ := h.entries b hmem
  have hread : d.blockIdToBlock.fetchByNumber P b.blockNum = some b := by
    rw [BlockDatabase.fetchByNumber, if_neg (not_le.2 hsize), hentry]
    simp [BlockDatabase.read]
  refine ⟨b, hb, rfl, hread, ?_, ?_, ?_⟩
  · rw [Database.fetchBlockByNumber]
    split
    · -- the only item of that height is the chain's
      rename_i item hitem
      have hfilter : item ∈ d.forkDb.index ∧ item.num = b.blockNum := by
        have hin : item ∈ d.forkDb.fetchBlockByNumber b.blockNum := by simp [hitem]
        simpa [ForkDatabase.fetchBlockByNumber] using hin
      obtain ⟨y, hy, hdata⟩ := h.covers b hmem item hfilter.1 hfilter.2.le
      have hyin : y ∈ d.forkDb.fetchBlockByNumber b.blockNum :=
        List.mem_filter.2 ⟨hy, decide_eq_true (congrArg SignedBlock.blockNum hdata)⟩
      rw [hitem, List.mem_singleton] at hyin
      rw [← hyin, hdata]
    · exact hread
  · rw [Database.getBlockIdForNum, BlockDatabase.fetchBlockId, if_neg (not_le.2 hsize), hentry,
      if_neg (P.blockId_ne_zero b)]
  · have hsize' : ¬ d.blockIdToBlock.size ≤ (P.blockId b).num := not_le.2 hsize
    have hentry' : d.blockIdToBlock.entries (P.blockId b).num = ⟨some b, P.blockId b⟩ := hentry
    rw [BlockDatabase.contains, if_neg (P.blockId_ne_zero b), if_neg hsize', hentry']
    simp

end Database.Logged

/-! ## The steps of `_push_block` -/

/-- The new branch applies from where the two branches part, and the undo stack reaches back that
far. -/
structure Database.SwitchApplies (P : Protocol C) (d : Database C)
    (first second : List (ForkItem C)) : Prop where
  /-- The undo stack. -/
  undoable : d.Undoable second.length
  /-- The blocks of the new branch, on the state where the branches part. -/
  applies : ∃ s ix, d.copies[second.length - 1]? = some s ∧
    (first.reverse.map ForkItem.data).foldlM P.applyBlock s = some ix

/-- What keeps the log and the chain together when a block is pushed: a block without a parent in
the fork database comes while this has the first block of the chain, or there is no chain yet; a
block that is tried on the head block has no double with other transactions in the fork database if
it applies, and is not itself one of the chain if it does not; and a branch that is switched to
applies. -/
structure Database.LogsPush (P : Protocol C) (d : Database C) (b : SignedBlock C) : Prop where
  /-- A block that is let in without a parent. -/
  root : ∀ item, d.forkDb.link P b = some item → item.prev = none →
    d.state.headBlockNum = 0 ∨ ∃ x ∈ d.forkDb.index, x.num = 1
  /-- A block that is tried on the head block and applies. -/
  applies : ∀ f newHead, d.forkDb.pushBlock P b = some f → f.head = some newHead →
    newHead.previousId = d.state.headBlockId → (P.applyBlock d.state b).isSome →
      ∀ x ∈ d.forkDb.index, P.itemId x = P.blockId b → x.data = b
  /-- A block that is tried on the head block and does not apply. -/
  fails : ∀ f newHead, d.forkDb.pushBlock P b = some f → f.head = some newHead →
    newHead.previousId = d.state.headBlockId → P.applyBlock d.state b = none →
      b.blockNum ≤ d.state.headBlockNum → d.getBlockIdForNum b.blockNum ≠ some (P.blockId b)
  /-- A switch. -/
  switches : ∀ f newHead first second, d.forkDb.pushBlock P b = some f → f.head = some newHead →
    newHead.previousId ≠ d.state.headBlockId → d.state.headBlockNum < newHead.num →
      f.fetchBranchFrom P (P.itemId newHead) d.state.headBlockId = some (first, second) →
      d.SwitchApplies P first second

/-- A node in the middle of a call, with nothing pending, on a chain that is logged. -/
def Database.LoggedIdle (P : Protocol C) (g : ChainState C) (depth : ℕ)
    (chain : List (SignedBlock C)) (d : Database C) : Prop :=
  d.Sound P g depth chain ∧ d.pendingTxSession = none ∧ d.Logged P chain

section

variable {chain : List (SignedBlock C)} {d : Database C} {newBlock : SignedBlock C}

/-- **One block is popped**, or nothing happens. -/
theorem Database.LoggedIdle.popBlock (h : d.LoggedIdle P g depth chain) (hg : Base g)
    (hpop : d.SyncsPop P) :
    Database.popBlock P d = .error () d ∨
      ∃ b bs d', chain = b :: bs ∧ Database.popBlock P d = .ok () d' ∧
        d'.LoggedIdle P g depth bs ∧ d'.forkDb.index = d.forkDb.index ∧
        d'.copies = d.copies.tail ∧ d'.headState.headBlockNum + 1 = d.headState.headBlockNum := by
  obtain ⟨hsound, hidle, hlogged⟩ := h
  cases hfork : d.forkDb.popBlock with
  | none =>
    left
    rw [OnChain.popBlock_eq hidle, hfork]
    split
    · rename_i heq
      cases heq
    · rfl
  | some f =>
    cases hfetch : d.fetchBlockById P d.state.headBlockId with
    | none =>
      left
      rw [OnChain.popBlock_eq hidle, hfetch]
    | some headBlock =>
      right
      have hun : d.Undoable 1 := hpop (by rw [hfork]; rfl) (by rw [hfetch]; rfl)
      obtain ⟨b, bs, d', rfl, hrun, hsound', hlog, hhist, -, heq⟩ :=
        popBlock_ok hsound hg hidle hun hfork (by rw [hfetch]; exact Option.some_ne_none _)
      obtain ⟨y, rfl⟩ := ForkDatabase.popBlock_eq hfork
      have hidle' : d'.pendingTxSession = none := by rw [heq]; exact hidle
      have hindex : d'.forkDb.index = d.forkDb.index := by rw [heq]
      refine ⟨b, bs, d', rfl, hrun, ⟨hsound', hidle',
        hlogged.remove hg (hsound.toOnChain.stateAt_eq hidle) hlog hindex⟩, hindex, ?_,
        headState_step hsound hg hsound'⟩
      rw [← OnChain.history_eq_copies hidle', hhist, OnChain.history_eq_copies hidle]

/-- **Popping down to a block** that the undo stack reaches back to. -/
theorem Database.LoggedIdle.popUntil {n fuel : ℕ} (hfuel : n < fuel)
    (h : d.LoggedIdle P g depth chain) (hg : Base g) (hun : d.Undoable n) :
    (∃ d' chain', Database.popUntil P (P.tip g (chain.drop n)) fuel d = .error () d' ∧
      d'.LoggedIdle P g depth chain') ∨
    ∃ d', Database.popUntil P (P.tip g (chain.drop n)) fuel d = .ok () d' ∧
      d'.LoggedIdle P g depth (chain.drop n) ∧ d'.forkDb.index = d.forkDb.index := by
  induction n generalizing d chain fuel with
  | zero =>
    obtain ⟨fuel, rfl⟩ : ∃ m, fuel = m + 1 := ⟨fuel - 1, by omega⟩
    obtain ⟨-, hid, -⟩ := Protocol.stateAt_spec hg (h.1.toOnChain.stateAt_eq h.2.1)
    have hid' : ¬ d.state.headBlockId ≠ P.tip g (chain.drop 0) := not_not.2 hid
    refine Or.inr ⟨d, ?_, h, rfl⟩
    rw [Database.popUntil, bind_ok (get_apply d), if_neg hid']
    rfl
  | succ n ih =>
    obtain ⟨fuel, rfl⟩ : ∃ m, fuel = m + 1 := ⟨fuel - 1, by omega⟩
    have hne := Protocol.headBlockId_ne_tip_drop hg (h.1.toOnChain.stateAt_eq h.2.1)
      (hun.chain_le hg h.1.toOnChain)
    rw [Database.popUntil, bind_ok (get_apply d), if_pos hne]
    rcases h.popBlock hg (fun _ _ ↦ hun.mono (by omega)) with
      herror | ⟨b, bs, d₁, rfl, hrun, h₁, hindex, hcopies, hnum⟩
    · exact Or.inl ⟨d, chain, bind_error herror, h⟩
    · rw [bind_ok hrun, List.drop_succ_cons]
      have hun₁ : d₁.Undoable n := by
        intro j hj
        obtain ⟨s, hs, hsnum⟩ := hun (j + 1) (Nat.succ_lt_succ hj)
        exact ⟨s, by rw [hcopies, List.getElem?_tail, hs], by omega⟩
      refine (ih (by omega) h₁ hun₁).imp_right ?_
      rintro ⟨d', hrun', h', hindex'⟩
      exact ⟨d', hrun', h', hindex'.trans hindex⟩

/-- **The new branch is applied**, block by block. -/
theorem Database.LoggedIdle.applyFork (h : d.LoggedIdle P g depth chain)
    (newBlock : SignedBlock C) (front : ForkItem C) (base : BlockId C) (old : List (ForkItem C))
    (hg : Base g) (hP : P.Nests depth) (hlag : P.Lags g depth) {new : List (ForkItem C)}
    {ix : ChainState C}
    (hcovers : ∀ x ∈ new, d.forkDb.Covers x.data)
    (hfold : (new.map ForkItem.data).foldlM P.applyBlock d.state = some ix) :
    ∃ d', Database.applyFork P newBlock front base old new d = .ok () d' ∧
      d'.LoggedIdle P g depth ((new.map ForkItem.data).reverse ++ chain) := by
  induction new generalizing d chain with
  | nil => exact ⟨d, rfl, h⟩
  | cons x xs ih =>
    obtain ⟨hsound, hidle, hlogged⟩ := h
    have hstate := hsound.toOnChain.stateAt_eq hidle
    rw [List.map_cons, List.foldlM_cons] at hfold
    obtain ⟨ix₁, happly, hfold⟩ := Option.bind_eq_some_iff.1 hfold
    obtain ⟨hx, hxs⟩ := List.forall_mem_cons.1 hcovers
    obtain ⟨d₁, hrun, hsound₁, rfl, -, -, heq⟩ :=
      hsound.applyAndStore_ok hidle hg hlag (hP.block _) happly (Or.inl (le_refl (P.itemId x).num))
    have hfork : d₁.forkDb = d.forkDb.setMaxSize (nextMaxSize d.state x.data) := by rw [heq]
    obtain ⟨-, -, -, hnum, -⟩ :=
      Protocol.applyBlock_headBlockId (Protocol.stateAt_spec hg hstate).1 happly
    have h₁ : d₁.LoggedIdle P g depth (x.data :: chain) := by
      refine ⟨hsound₁, by rw [heq]; exact hidle,
        hlogged.store hg hstate hnum (by rw [heq]; rfl) (fun c _ hc ↦ ?_) hx⟩
      rw [hfork]
      exact hc.setMaxSize _
    obtain ⟨d', hrun', h'⟩ := ih h₁ (fun y hy ↦ hfork ▸ (hxs y hy).setMaxSize _) hfold
    refine ⟨d', ?_, ?_⟩
    · rw [Database.applyFork, bind_ok (tryCatch_ok hrun)]
      exact hrun'
    · rw [List.map_cons, List.reverse_cons, List.append_assoc]
      exact h'

/-- **A switch** to a branch that applies. -/
theorem Database.LoggedIdle.switchFork (h : d.LoggedIdle P g depth chain)
    (newBlock : SignedBlock C) (hg : Base g) (hP : P.Nests depth) (hlag : P.Lags g depth)
    (hheld : d.forkDb.held = []) {newHead : ForkItem C}
    (hhead : d.forkDb.head = some newHead) (hlt : d.state.headBlockNum < newHead.num)
    (happlies : ∀ first second,
      d.forkDb.fetchBranchFrom P (P.itemId newHead) d.state.headBlockId = some (first, second) →
        d.SwitchApplies P first second) :
    ∃ chain', (exit (Database.switchFork P newBlock newHead d)).LoggedIdle P g depth chain' := by
  have hletGo : ∀ {d' : Database C} {chain' : List (SignedBlock C)},
      d'.LoggedIdle P g depth chain' → (d'.hold []).LoggedIdle P g depth chain' :=
    fun ⟨hsound, hidle, hlogged⟩ ↦ ⟨hsound.of_forkDb hsound.forkDb.letGo le_rfl, hidle,
      hlogged.congr rfl fun _ _ hc ↦ hc⟩
  cases hfetch : d.forkDb.fetchBranchFrom P (P.itemId newHead) d.state.headBlockId with
  | none =>
    rw [switchFork_none hfetch]
    exact ⟨chain, h⟩
  | some branches =>
    obtain ⟨first, second⟩ := branches
    obtain ⟨hun, s, ix, hs, hfold⟩ := happlies first second hfetch
    obtain ⟨hsound, hidle, hlogged⟩ := h
    obtain ⟨hfirst, hsecond, -⟩ := hsound.forkDb.fetchBranchFrom_spec hfetch
    obtain ⟨front, back, hfront, hback, -⟩ := hsecond.ends
    have hstate := hsound.toOnChain.stateAt_eq hidle
    obtain ⟨hbase, hid, -⟩ := Protocol.stateAt_spec hg hstate
    obtain ⟨hmem, -⟩ := fetchBranchFrom_index hsound.forkDb hheld hhead hfetch
      (hbase.num_eq.trans_le hlt.le)
    have hwf : (d.hold (first ++ second)).forkDb.WF P := by
      refine hsound.forkDb.hold fun x hx ↦ ?_
      exact (List.mem_append.1 hx).elim (hfirst.mem_alive x) (hsecond.mem_alive x)
    have h₀ : (d.hold (first ++ second)).LoggedIdle P g depth chain :=
      ⟨hsound.of_forkDb hwf le_rfl, hidle, hlogged.congr rfl fun _ _ hc ↦ hc⟩
    have hlen := hun.length_le
    rw [← OnChain.history_eq_copies hidle, ObjectDatabase.length_history] at hlen
    have hbaseId := branch_base hg hstate (hid ▸ hsecond) (hun.chain_le hg hsound.toOnChain) hback
    have hpop := h₀.popUntil (Nat.lt_succ_of_le hlen) hg hun
    rw [← hbaseId] at hpop
    have hcall : Database.popTo P back.previousId (d.hold (first ++ second)) =
        Database.popUntil P back.previousId (d.objects.undoDb.stack.length + 1)
          (d.hold (first ++ second)) := by
      rw [Database.popTo, bind_ok (get_apply _)]
      rfl
    rw [switchFork_some hfetch hfront hback, Database.switchTo]
    rcases hpop with ⟨d₁, chain₁, herror, h₁⟩ | ⟨d₁, hrun, h₁, hindex⟩
    · rw [bind_error (hcall.trans herror)]
      exact ⟨chain₁, hletGo h₁⟩
    · rw [bind_ok (hcall.trans hrun)]
      -- the state where the branches part
      obtain rfl : d₁.state = s := by
        obtain ⟨n, hn⟩ : ∃ n, second.length = n + 1 := by
          cases second with
          | nil => cases hback
          | cons x xs => exact ⟨xs.length, rfl⟩
        obtain ⟨s', hs', hstate'⟩ := hsound.toOnChain.copy hg (hn ▸ hun)
        rw [hn, Nat.add_sub_cancel, hs'] at hs
        have hat := h₁.1.toOnChain.stateAt_eq h₁.2.1
        rw [hn, hstate'] at hat
        exact (Option.some_inj.1 hat).symm.trans (Option.some_inj.1 hs)
      obtain ⟨d₂, hrun₂, h₂⟩ := h₁.applyFork newBlock front back.previousId second.reverse hg hP
        hlag (fun x hx ↦ (ForkDatabase.Covers.of_mem (hmem x (List.mem_reverse.1 hx))).congr hindex)
        hfold
      rw [hrun₂]
      exact ⟨_, hletGo h₂⟩

/-- **One call of `_push_block`.** -/
theorem Database.LoggedIdle._pushBlock (h : d.LoggedIdle P g depth chain) (hg : Base g)
    (hP : P.Nests depth) (hlag : P.Lags g depth) (hheld : d.forkDb.held = [])
    (hb : d.LogsPush P newBlock) :
    ∃ chain', (exit (Database._pushBlock P newBlock d)).LoggedIdle P g depth chain' := by
  cases hpush : d.forkDb.pushBlock P newBlock with
  | none =>
    rw [_pushBlock_error hpush]
    exact ⟨chain, h⟩
  | some f =>
    obtain ⟨hsound, hidle, hlogged⟩ := h
    obtain ⟨newHead, hhead⟩ := ForkDatabase.head_of_pushBlock hpush
    have hstate := hsound.toOnChain.stateAt_eq hidle
    obtain ⟨hbase, -, hlen, -⟩ := Protocol.stateAt_spec hg hstate
    have hlinked : ({ d with forkDb := f } : Database C).LoggedIdle P g depth chain := by
      refine ⟨hsound.of_forkDb (hsound.forkDb.pushBlock hpush) le_rfl, hidle,
        hlogged.congr rfl fun c hc hcovers ↦ hcovers.pushBlock hpush fun item hlink hnone ↦ ?_⟩
      rcases hb.root item hlink hnone with hzero | ⟨x, hx, hone⟩
      · have hpos := List.length_pos_of_mem hc
        omega
      · exact ⟨x, hx, hone.trans_le (Nat.le_add_left 1 _)⟩
    by_cases hprev : newHead.previousId = d.state.headBlockId
    · rw [_pushBlock_extend hpush hhead hprev]
      cases happly : P.applyBlock d.state newBlock with
      | some ix =>
        obtain ⟨d', hrun, hsound', rfl, -, -, heq⟩ := hlinked.1.applyAndStore_ok hidle hg hlag
          (hP.block newBlock) happly (Or.inl (le_refl (P.blockId newBlock).num))
        obtain ⟨-, -, -, hnum, -⟩ := Protocol.applyBlock_headBlockId hbase happly
        rw [hrun]
        refine ⟨newBlock :: chain, hsound', by rw [exit_ok, heq]; exact hidle,
          hlinked.2.2.store hg hstate hnum (by rw [exit_ok, heq]) (fun c _ hc ↦ ?_) ?_⟩
        · rw [exit_ok, heq]
          exact hc.setMaxSize _
        · exact .of_pushBlock hpush
            (hb.applies f newHead hpush hhead hprev (by rw [happly]; rfl))
      | none =>
        obtain ⟨d', hrun, hsound', -, -, hsizes, heq⟩ := hlinked.1.applyAndStore_error hidle hg hlag
          (hP.block newBlock) happly (P.blockId newBlock)
        have hfork : ∀ c, f.Covers c → d'.forkDb.Covers c := by
          intro c hc
          rcases hsizes with ⟨-, hf⟩ | ⟨-, hf⟩ <;> rw [hf]
          · exact hc
          · exact hc.setMaxSize _
        rw [hrun]
        refine ⟨chain, hsound'.of_forkDb (hsound'.forkDb.remove _) le_rfl,
          by rw [exit_error, heq]; exact hidle,
          hlinked.2.2.congr (by rw [exit_error, heq]) fun c hc hcovers ↦ ?_⟩
        refine (hfork c hcovers).remove fun hid ↦ ?_
        have hnum : c.blockNum = newBlock.blockNum := congrArg BlockId.num hid
        obtain ⟨hlt, hentry⟩ := hlogged.entries c hc
        have hle := P.blockNum_le hg hstate c hc
        refine hb.fails f newHead hpush hhead hprev happly (hnum ▸ hle) ?_
        rw [← hid, ← hnum, Database.getBlockIdForNum, BlockDatabase.fetchBlockId,
          if_neg (not_le.2 hlt), hentry, if_neg (P.blockId_ne_zero c)]
    · by_cases hlt : d.state.headBlockNum < newHead.num
      · obtain ⟨-, -, -, -, hheld', -⟩ := ForkDatabase.pushBlock_spec hpush
        obtain ⟨chain', h'⟩ := hlinked.switchFork newBlock hg hP hlag (hheld'.trans hheld) hhead hlt
          fun first second hfetch ↦
            have happlies := hb.switches f newHead first second hpush hhead hprev hlt hfetch
            ⟨happlies.undoable, happlies.applies⟩
        rw [_pushBlock_switch hpush hhead hprev hlt]
        refine ⟨chain', ?_⟩
        cases hrun : Database.switchFork P newBlock newHead { d with forkDb := f } <;>
          (rw [hrun] at h'; exact h')
      · rw [_pushBlock_stay hpush hhead hprev (not_lt.1 hlt)]
        exact ⟨chain, hlinked⟩

end

/-! ## Runs -/

/-- The calls that keep the log and the chain together: of the calls that change blocks,
`push_block` and `pop_block`, and what pushes transactions. -/
def Call.KeepsLog (P : Protocol C) (d : Database C) : Call C → Prop
  | .pushBlock _ b => d.setAside.LogsPush P b
  | .pushTransaction _ _ => True
  | .generateBlock _ _ => False
  | .popBlock => d.SyncsPop P

section

variable {chain : List (SignedBlock C)} {d : Database C}

/-- Pending transactions come and go. -/
theorem Database.Logged.keeps {d' : Database C} (h : d.Logged P chain)
    (hkeeps : Keeps P g depth chain d d') : d'.Logged P chain :=
  h.congr hkeeps.log_eq fun _ _ hc ↦ by rw [hkeeps.forkDb_eq]; exact hc

/-- **One call of `push_block`.** -/
theorem Database.Logged.pushBlock (h : d.Logged P chain) (hrest : d.AtRest P g depth chain)
    (hg : Base g) (hP : P.Nests depth) (hlag : P.Lags g depth) (obs : Observers C)
    {b : SignedBlock C} (hb : d.setAside.LogsPush P b) :
    ∃ chain', (exit (Database.pushBlock P obs b d)).AtRest P g depth chain' ∧
      (exit (Database.pushBlock P obs b d)).Logged P chain' := by
  obtain ⟨hrest₁, hkeeps₁, hidle₁, chain₂, hrest₂, hidle₂, hkeeps₂⟩ :=
    hrest.pushBlock_keeps hg hP hlag obs b
  obtain ⟨chain', hsound', -, hlogged'⟩ := Database.LoggedIdle._pushBlock
    ⟨hrest₁.toSound, hidle₁, h.keeps hkeeps₁⟩ hg hP hlag hrest₁.held_eq hb
  obtain rfl := Protocol.stateAt_inj hg hsound'.state_eq hrest₂.state_eq
  exact ⟨chain', hrest₂.keeps hkeeps₂, hlogged'.keeps hkeeps₂⟩

/-- **One call of `pop_block`.** -/
theorem Database.Logged.popBlock (h : d.Logged P chain) (hrest : d.AtRest P g depth chain)
    (hg : Base g) (hpop : d.SyncsPop P) :
    ∃ chain', (exit (Database.popBlock P d)).AtRest P g depth chain' ∧
      (exit (Database.popBlock P d)).Logged P chain' := by
  obtain ⟨d₁, hcall, hkeeps, hidle, hpop₁⟩ := hpop.reset hrest.toOnChain hg
  have hrest₁ := hrest.keeps hkeeps
  obtain ⟨chain₂, hrest₂⟩ := hrest.popBlock hg
  have h₁ : d₁.LoggedIdle P g depth chain := ⟨hrest₁.toSound, hidle, h.keeps hkeeps⟩
  rw [hcall] at hrest₂ ⊢
  rcases h₁.popBlock hg hpop₁ with herror | ⟨b, bs, d', rfl, hrun, h', -⟩
  · rw [herror, exit_error]
    exact ⟨chain, hrest₁, h₁.2.2⟩
  · rw [hrun, exit_ok] at hrest₂ ⊢
    obtain rfl := Protocol.stateAt_inj hg h'.1.state_eq hrest₂.state_eq
    exact ⟨bs, hrest₂, h'.2.2⟩

end

/-- At every point of a run whose calls keep the log, what it holds is the chain. -/
theorem Run.logged (hg : Base g) (hP : P.Nests depth) (hlag : P.Lags g depth)
    {d₀ d : Database C} (h₀ : d₀.Opened P g depth)
    (hrun : Run P (fun d c ↦ c.KeepsLog P d) d₀ d) :
    ∃ chain, d.AtRest P g depth chain ∧ d.Logged P chain := by
  refine hrun.invariant (I := fun d ↦ ∃ chain, d.AtRest P g depth chain ∧ d.Logged P chain)
    ⟨[], h₀.atRest, .nil d₀⟩ ?_
  rintro d c ⟨chain, hrest, hlogged⟩ hc
  cases c with
  | pushBlock obs b => exact hlogged.pushBlock hrest hg hP hlag obs hc
  | pushTransaction obs tx =>
    have hkeeps := (hrest.toOnChain._pushTransaction_repushes (hP.tx tx) obs).toKeeps
    exact ⟨chain, hrest.keeps hkeeps, hlogged.keeps hkeeps⟩
  | generateBlock obs prod => exact hc.elim
  | popBlock => exact hlogged.popBlock hrest hg hc

/-- The log of a node at rest agrees with the chain. -/
theorem Database.Logged.logAgrees {d : Database C} {chain : List (SignedBlock C)}
    (hlogged : d.Logged P chain) (hg : Base g) (hrest : d.AtRest P g depth chain) :
    d.LogAgrees P g chain :=
  hlogged.agrees hg hrest.state_eq (hrest.toOnChain.dgp?_eq hg)

/-- **The log agrees with the chain** along every run of `push_block` and `pop_block`, returning or
throwing, all of whose calls keep it. -/
theorem block_log_agrees (hg : Base g) (hP : P.Nests depth) (hlag : P.Lags g depth)
    {d₀ d : Database C} (h₀ : d₀.Opened P g depth)
    (hrun : Run P (fun d c ↦ c.KeepsLog P d) d₀ d) :
    ∃ chain, P.stateAt g chain = some d.headState ∧ d.LogAgrees P g chain := by
  obtain ⟨chain, hrest, hlogged⟩ := hrun.logged hg hP hlag h₀
  exact ⟨chain, hrest.state_eq, hlogged.logAgrees hg hrest⟩

namespace Testnet

/-- The checks of `LogsPush`, one after the other. -/
theorem logsPush_of {d : Database types} {b : SignedBlock types}
    (hroot : (d.forkDb.link protocol b).all (fun item ↦ decide (item.prev = none →
      d.state.headBlockNum = 0 ∨ ∃ x ∈ d.forkDb.index, x.num = 1)) = true)
    (hextend : ((d.forkDb.pushBlock protocol b).bind ForkDatabase.head).all (fun newHead ↦
      decide (newHead.previousId = d.state.headBlockId →
        (protocol.applyBlock d.state b).isSome ∧
          ∀ x ∈ d.forkDb.index, protocol.itemId x = protocol.blockId b → x.data = b)) = true)
    (hswitch : (d.forkDb.pushBlock protocol b).all (fun f ↦ f.head.all fun newHead ↦
      (f.fetchBranchFrom protocol (protocol.itemId newHead) d.state.headBlockId).all
        fun (first, second) ↦ decide (newHead.previousId ≠ d.state.headBlockId →
          d.state.headBlockNum < newHead.num →
            (∀ j < second.length, (d.copies[j]?).any fun s ↦
              s.headBlockNum + (j + 1) = d.headState.headBlockNum) ∧
            ((d.copies[second.length - 1]?).bind fun s ↦
              (first.reverse.map ForkItem.data).foldlM protocol.applyBlock s).isSome)) = true) :
    d.LogsPush protocol b := by
  refine ⟨fun item hlink hnone ↦ ?_, fun f newHead hpush hhead hprev _ ↦ ?_,
    fun f newHead hpush hhead hprev hnone ↦ ?_,
    fun f newHead first second hpush hhead hne hlt hfetch ↦ ?_⟩
  · rw [hlink] at hroot
    exact of_decide_eq_true hroot hnone
  · rw [hpush, Option.bind_some, hhead] at hextend
    exact (of_decide_eq_true hextend hprev).2
  · rw [hpush, Option.bind_some, hhead] at hextend
    have hsome := (of_decide_eq_true hextend hprev).1
    rw [hnone] at hsome
    cases hsome
  · rw [hpush, Option.all_some, hhead, Option.all_some, hfetch] at hswitch
    obtain ⟨hun, happlies⟩ := of_decide_eq_true hswitch hne hlt
    refine ⟨fun j hj ↦ ?_, ?_⟩
    · obtain ⟨s, hs, hnum⟩ := (Option.any_eq_true _ _).1 (hun j hj)
      exact ⟨s, hs, of_decide_eq_true hnum⟩
    · obtain ⟨ix, hix⟩ := Option.isSome_iff_exists.1 happlies
      obtain ⟨s, hs, hfold⟩ := Option.bind_eq_some_iff.1 hix
      exact ⟨s, ix, hs, hfold⟩

/-- A block, a fork, the switch to it, and another block. -/
theorem block_log_agrees_run :
    ∃ chain, protocol.stateAt genesis chain = some (pushAll [a1, b1, b2]).headState ∧
      (pushAll [a1, b1, b2]).LogAgrees protocol genesis chain := by
  have hstart : Run protocol (fun d c ↦ c.KeepsLog protocol d) node (pushAll []) := .refl
  have hrun := run_pushAll (run_pushAll (run_pushAll hstart
    a1 (logsPush_of (by decide +kernel) (by decide +kernel) (by decide +kernel)))
    b1 (logsPush_of (by decide +kernel) (by decide +kernel) (by decide +kernel)))
    b2 (logsPush_of (by decide +kernel) (by decide +kernel) (by decide +kernel))
  exact block_log_agrees base nests lags node_opened hrun

/-- **The block that is applied again is not stored** where it was: a fork that fails at its first
block leaves the old head block in the log under the id of the block that was pushed. -/
theorem restored_block_not_stored :
    Reachable protocol node (pushAll [a1, bad1, c2]) ∧
      (pushAll [a1, bad1, c2]).state.headBlockId = protocol.blockId a1 ∧
      (pushAll [a1, bad1, c2]).blockIdToBlock.fetchByNumber protocol 1 = none ∧
      ((pushAll [a1, bad1, c2]).blockIdToBlock.entries 2).block = some a1 ∧
      ((pushAll [a1, bad1, c2]).blockIdToBlock.entries 2).blockId = protocol.blockId c2 ∧
      ∀ chain, ¬ (pushAll [a1, bad1, c2]).LogAgrees protocol genesis chain := by
  have hnone : (pushAll [a1, bad1, c2]).blockIdToBlock.fetchByNumber protocol 1 = none := by
    decide +kernel
  have hstart : Reachable protocol node (pushAll []) := .refl
  refine ⟨run_pushAll (run_pushAll (run_pushAll hstart a1 trivial) bad1 trivial) c2 trivial,
    by decide +kernel, hnone, by decide +kernel, by decide +kernel, fun chain hagrees ↦ ?_⟩
  obtain ⟨b, -, -, hread, -⟩ := hagrees 1 (by decide) (by decide +kernel)
  rw [hnone] at hread
  cases hread

end Testnet

end Graphene
