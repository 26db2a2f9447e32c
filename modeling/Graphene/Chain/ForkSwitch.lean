import Graphene.Chain.Popping

/-!
# Fork switches

A switch pops the head block's branch down to where the two branches part, applies the blocks of the
new branch, and, if one of them does not apply, pops those that did and applies the old branch
again.

* `Protocol.stateAt_append`, `branch_ids`, `branch_blocks` — branches of items and chains of blocks.
* `ForkDatabase.WF.popBlocks` — where the fork database's head is after popping.
* `applyAll_ok` — blocks that apply one after the other, and what becomes of the bounds, the log and
  the copies meanwhile.
* `Database.Reaches`, `Database.Reaches.popTo` — a switch that gets down to where the branches part.
* `applyFork_error`, `restoreFork_spec` — the handler of the loop over the new branch.
-/

set_option autoImplicit false

namespace Graphene

open Throwing

variable {C : ChainTypes} {P : Protocol C} {g : ChainState C} {depth : ℕ}

/-! ## Branches and chains -/

theorem Protocol.stateAt_append (blocks chain : List (SignedBlock C)) :
    P.stateAt g (blocks.reverse ++ chain) =
      (P.stateAt g chain).bind fun ix ↦ blocks.foldlM P.applyBlock ix := by
  induction blocks generalizing chain with
  | nil =>
    exact (Option.bind_fun_some _).symm
  | cons b bs ih =>
    rw [List.reverse_cons, List.append_assoc]
    change P.stateAt g (bs.reverse ++ (b :: chain)) = _
    rw [ih, Protocol.stateAt, Option.bind_assoc]
    rfl

/-- The first item of the branch the head block is on is the head block. -/
theorem branch_head (hg : Base g) {chain : List (SignedBlock C)} {ix : ChainState C}
    (hix : P.stateAt g chain = some ix) {x : ForkItem C} {xs : List (ForkItem C)}
    (hhead : (x :: xs).head?.map P.itemId = some (P.tip g chain))
    (hle : (x :: xs).length ≤ chain.length) :
    ∃ b bs ix₁, chain = b :: bs ∧ P.stateAt g bs = some ix₁ ∧ P.itemId x = P.blockId b ∧
      x.previousId = P.tip g bs := by
  obtain ⟨b, bs, rfl⟩ := List.exists_cons_of_length_pos ((Nat.succ_pos _).trans_le hle)
  obtain ⟨ix₁, hix₁, -⟩ := Option.bind_eq_some_iff.1 hix
  have hx : P.itemId x = P.blockId b := Option.some_inj.1 hhead
  exact ⟨b, bs, ix₁, rfl, hix₁, hx,
    (Protocol.previous_eq hx).trans (Protocol.previous_eq_tip hg hix).1⟩

/-- The items of the branch the head block is on have the ids of the chain's blocks. -/
theorem branch_ids (hg : Base g) {f : ForkDatabase C} {chain : List (SignedBlock C)}
    {ix : ChainState C} (hix : P.stateAt g chain = some ix) {branch : List (ForkItem C)}
    (hb : ForkDatabase.IsBranch P f (P.tip g chain) branch) (hle : branch.length ≤ chain.length) :
    branch.map P.itemId = (chain.take branch.length).map P.blockId := by
  obtain ⟨hhead, hchain, -⟩ := hb
  induction branch generalizing chain ix with
  | nil => rfl
  | cons x xs ih =>
    obtain ⟨b, bs, ix₁, rfl, hix₁, hx, hprev⟩ := branch_head hg hix hhead hle
    rw [List.length_cons] at hle
    rw [List.map_cons, List.length_cons, List.take_succ_cons, List.map_cons, hx]
    congr 1
    cases xs with
    | nil => rfl
    | cons y ys =>
      obtain ⟨hp, hrest⟩ := List.isChain_cons_cons.1 hchain
      exact ih hix₁ (Nat.le_of_succ_le_succ hle) (congrArg some (hp.2.trans hprev)) hrest

/-- They are the chain's blocks, if their transactions are the ones their headers commit to. -/
theorem branch_blocks (hg : Base g) {f : ForkDatabase C} {chain : List (SignedBlock C)}
    {ix : ChainState C} (hix : P.stateAt g chain = some ix) {branch : List (ForkItem C)}
    (hb : ForkDatabase.IsBranch P f (P.tip g chain) branch) (hle : branch.length ≤ chain.length)
    (hgenuine : ∀ x ∈ branch, P.MerkleOk x.data) :
    branch.map ForkItem.data = chain.take branch.length := by
  have hids := branch_ids hg hix hb hle
  clear hb
  induction branch generalizing chain ix with
  | nil => rfl
  | cons x xs ih =>
    obtain ⟨b, bs, rfl⟩ := List.exists_cons_of_length_pos ((Nat.succ_pos _).trans_le hle)
    obtain ⟨ix₁, hix₁, -⟩ := Option.bind_eq_some_iff.1 hix
    rw [List.map_cons, List.length_cons, List.take_succ_cons, List.map_cons] at hids
    obtain ⟨hid, hids⟩ := List.cons.inj hids
    rw [List.length_cons] at hle
    rw [List.map_cons, List.length_cons, List.take_succ_cons]
    obtain ⟨hx, hxs⟩ := List.forall_mem_cons.1 hgenuine
    rw [ih hix₁ (Nat.le_of_succ_le_succ hle) hxs hids,
      Protocol.eq_of_merkleOk hid hx (Protocol.previous_eq_tip hg hix).2]

/-- What the branch the head block is on stands on. -/
theorem branch_base (hg : Base g) {f : ForkDatabase C} {chain : List (SignedBlock C)}
    {ix : ChainState C} (hix : P.stateAt g chain = some ix) {branch : List (ForkItem C)}
    (hb : ForkDatabase.IsBranch P f (P.tip g chain) branch) (hle : branch.length ≤ chain.length)
    {back : ForkItem C} (hback : branch.getLast? = some back) :
    back.previousId = P.tip g (chain.drop branch.length) := by
  obtain ⟨hhead, hchain, -⟩ := hb
  induction branch generalizing chain ix with
  | nil => cases hback
  | cons x xs ih =>
    obtain ⟨b, bs, ix₁, rfl, hix₁, hx, hprev⟩ := branch_head hg hix hhead hle
    cases xs with
    | nil =>
      obtain rfl := Option.some_inj.1 hback
      exact hprev
    | cons y ys =>
      obtain ⟨hp, hrest⟩ := List.isChain_cons_cons.1 hchain
      rw [List.length_cons, List.drop_succ_cons]
      exact ih hix₁ (Nat.le_of_succ_le_succ hle) (by rwa [List.getLast?_cons_cons] at hback)
        (congrArg some (hp.2.trans hprev)) hrest

/-- The numbers on a branch go down one by one. -/
theorem branch_length {x y : ForkItem C} {branch : List (ForkItem C)}
    (hchain : branch.IsChain (ForkDatabase.IsParent P)) (hx : branch.head? = some x)
    (hy : branch.getLast? = some y) : x.num + 1 = y.num + branch.length := by
  induction branch generalizing x with
  | nil => cases hx
  | cons z zs ih =>
    obtain rfl := Option.some_inj.1 hx
    cases zs with
    | nil =>
      obtain rfl := Option.some_inj.1 hy
      rfl
    | cons w ws =>
      obtain ⟨hp, hrest⟩ := List.isChain_cons_cons.1 hchain
      have hlen := ih hrest rfl (by rwa [List.getLast?_cons_cons] at hy)
      have hnum := hp.num_eq
      rw [List.length_cons]
      omega

/-- Popping moves the head of the fork database along the parents that are held on to. -/
theorem ForkDatabase.WF.popBlocks {f : ForkDatabase C} (h : f.WF P) {x : ForkItem C}
    {ys : List (ForkItem C)} (hhead : f.head = some x) (hchain : (x :: ys).IsChain (IsParent P))
    (hmem : ∀ y ∈ ys, y ∈ f.index ∨ y ∈ f.held) {n : ℕ} (hn : n ≤ ys.length) :
    f.popBlocks n = some { f with head := (x :: ys)[n]? } := by
  induction n generalizing f x ys with
  | zero =>
    rw [List.getElem?_cons_zero, ← hhead]
    rfl
  | succ n ih =>
    obtain ⟨y, ys, rfl⟩ : ∃ z zs, ys = z :: zs := by
      cases ys with
      | nil => cases hn
      | cons z zs => exact ⟨z, zs, rfl⟩
    obtain ⟨hp, hrest⟩ := List.isChain_cons_cons.1 hchain
    have hy : y ∈ f.alive :=
      mem_alive.2 ((hmem y List.mem_cons_self).imp_right Or.inr)
    have hpop : f.popBlock = some (f.setHead y) := by
      rw [ForkDatabase.popBlock, hhead, Option.bind_eq_bind, Option.bind_some,
        h.lockPrev_of_isParent hy hp]
      rfl
    rw [ForkDatabase.popBlocks, hpop, Option.bind_some, List.getElem?_cons_succ]
    exact ih (h.setHead hy) rfl hrest (fun z hz ↦ hmem z (List.mem_cons_of_mem _ hz))
      (Nat.le_of_succ_le_succ hn)

/-! ## Applying blocks one after the other -/

/-- The bounds the blocks set, applied one after the other to the state `ix`. -/
def Protocol.sizes (P : Protocol C) : ChainState C → List (SignedBlock C) → List ℕ
  | _, [] => []
  | ix, b :: bs =>
    nextMaxSize ix b ::
      match P.applyBlock ix b with
      | some ix' => P.sizes ix' bs
      | none => []

/-- While the blocks are applied to the state `ix`, one after the other, from the bound `m` on, the
newest `r` copies there are in the end are not pushed out. -/
def Protocol.RoomFor (P : Protocol C) (depth r : ℕ) :
    ℕ → ChainState C → List (SignedBlock C) → Prop
  | _, _, [] => True
  | m, ix, b :: bs =>
    r - (bs.length + 1) + depth ≤ min m (nextMaxSize ix b) ∧
      ∀ ix', P.applyBlock ix b = some ix' → P.RoomFor depth r (nextMaxSize ix b) ix' bs

section

variable {chain : List (SignedBlock C)} {d : Database C}

/-- **Blocks that apply, one after the other**, each stored where `id` says. -/
theorem applyAll_ok (hg : Base g) (hP : P.Nests depth) (hlag : P.Lags g depth)
    {items : List (ForkItem C)} (id : ForkItem C → BlockId C) (h : d.Sound P g depth chain)
    (hidle : d.pendingTxSession = none) {ix : ChainState C}
    (hfold : (items.map ForkItem.data).foldlM P.applyBlock d.state = some ix)
    (hid : ∀ x ∈ items, x.num ≤ (id x).num ∨ x.num < d.blockIdToBlock.size) :
    ∃ d', items.forM (fun x ↦ Database.applyAndStore P (id x) x.data) d = .ok () d' ∧
      d'.Sound P g depth ((items.map ForkItem.data).reverse ++ chain) ∧ d'.state = ix ∧
      (∀ r, d.Undoable (r - items.length) →
        P.RoomFor depth r d.maxSize d.state (items.map ForkItem.data) → d'.Undoable r) ∧
      d'.maxSize = (P.sizes d.state (items.map ForkItem.data)).getLastD d.maxSize ∧
      d' = { d with
        objects := d'.objects
        forkDb := (P.sizes d.state (items.map ForkItem.data)).foldl ForkDatabase.setMaxSize d.forkDb
        blockIdToBlock :=
          items.foldl (fun log x ↦ log.store P (id x) x.data) d.blockIdToBlock } := by
  induction items generalizing d chain with
  | nil =>
    obtain rfl := Option.some_inj.1 hfold
    exact ⟨d, rfl, h, rfl, fun r hun _ ↦ hun, rfl, rfl⟩
  | cons x xs ih =>
    rw [List.map_cons, List.foldlM_cons] at hfold
    obtain ⟨ix₁, happly, hfold⟩ := Option.bind_eq_some_iff.1 hfold
    obtain ⟨hx, hxs⟩ := List.forall_mem_cons.1 hid
    obtain ⟨d₁, hrun, hsound, rfl, hmax, ⟨hist, hhist, hkept⟩, heq⟩ :=
      h.applyAndStore_ok hidle hg hlag (hP.block _) happly hx
    have hidle₁ : d₁.pendingTxSession = none := by rw [heq]; exact hidle
    have hlog : d₁.blockIdToBlock = d.blockIdToBlock.store P (id x) x.data := by rw [heq]
    have hfork : d₁.forkDb = d.forkDb.setMaxSize (nextMaxSize d.state x.data) := by rw [heq]
    obtain ⟨d₂, hrun₂, hsound₂, hstate₂, hun₂, hmax₂, heq₂⟩ := ih hsound hidle₁ hfold
      fun y hy ↦ (hxs y hy).imp_right fun hlt ↦ by
        rw [hlog]
        exact hlt.trans_le (BlockDatabase.size_le_store _ _ _)
    refine ⟨d₂, (bind_ok hrun).trans hrun₂, ?_, hstate₂, fun r hun hroom ↦ ?_, ?_, ?_⟩
    · rw [List.map_cons, List.reverse_cons, List.append_assoc]
      exact hsound₂
    · rw [List.map_cons, Protocol.RoomFor, List.length_map] at hroom
      obtain ⟨hle, hroom⟩ := hroom
      rw [List.length_cons] at hun
      have hstate := h.toOnChain.stateAt_eq hidle
      obtain ⟨-, -, hnum, -⟩ :=
        Protocol.applyBlock_headBlockId (Protocol.stateAt_spec hg hstate).1 happly
      have hn : r - (xs.length + 1) = r - xs.length - 1 := by omega
      rw [hn] at hun
      exact hun₂ r (hun.applied hidle hidle₁ hnum hhist hkept (by rw [hmax]; omega))
        (hmax ▸ hroom _ happly)
    · rw [hmax₂, List.map_cons, Protocol.sizes, happly, hmax]
      dsimp only
      cases P.sizes d₁.state (xs.map ForkItem.data) with
      | nil => rfl
      | cons s ss => rfl
    · rw [heq₂, List.map_cons, Protocol.sizes, happly, List.foldl_cons, List.foldl_cons,
        hfork, hlog,
        heq]

/-- The head of the fork database is not moved by a change of its bound. -/
theorem ForkDatabase.foldl_setMaxSize (sizes : List ℕ) (f : ForkDatabase C) :
    (sizes.foldl ForkDatabase.setMaxSize f).head = f.head ∧
      (sizes.foldl ForkDatabase.setMaxSize f).held = f.held ∧
      ∀ x ∈ (sizes.foldl ForkDatabase.setMaxSize f).index, x ∈ f.index := by
  induction sizes generalizing f with
  | nil => exact ⟨rfl, rfl, fun _ hx ↦ hx⟩
  | cons s ss ih =>
    have hs : (f.setMaxSize s).head = f.head ∧ (f.setMaxSize s).held = f.held ∧
        ∀ x ∈ (f.setMaxSize s).index, x ∈ f.index := by
      rw [ForkDatabase.setMaxSize]
      split
      · exact ⟨rfl, rfl, fun _ hx ↦ hx⟩
      · exact ⟨rfl, rfl, fun _ hx ↦ (ForkDatabase.mem_prune.1 hx).1⟩
    obtain ⟨hhead, hheld, hindex⟩ := ih (f.setMaxSize s)
    exact ⟨hhead.trans hs.1, hheld.trans hs.2.1, fun x hx ↦ hs.2.2 x (hindex x hx)⟩

/-! ## The loop over the new branch -/

variable {newBlock : SignedBlock C} {front : ForkItem C} {base : BlockId C}
  {old : List (ForkItem C)}

/-- A block of the new branch that does not apply ends the loop with its handler. -/
theorem applyFork_error {x : ForkItem C} {xs : List (ForkItem C)} {d₁ : Database C}
    (hrun : Database.applyAndStore P (P.itemId x) x.data d = .error () d₁) :
    Database.applyFork P newBlock front base old (x :: xs) d =
      .error () (exit (Database.restoreFork P newBlock (x :: xs) front base old d₁)) := by
  obtain ⟨d₂, hrestore⟩ := restoreFork_error (P := P) newBlock (x :: xs) old front base d₁
  rw [Database.applyFork, bind_error ((tryCatch_error hrun).trans hrestore), hrestore, exit_error]

/-! ## The handler -/

/-- `remove`, for one item after the other. -/
def ForkDatabase.removeItems (P : Protocol C) (bad : List (ForkItem C)) (f : ForkDatabase C) :
    ForkDatabase C :=
  bad.foldl (fun f x ↦ f.remove P (P.itemId x)) f

theorem ForkDatabase.removeItems_spec (bad : List (ForkItem C)) (f : ForkDatabase C) :
    (∀ x, x ∈ (f.removeItems P bad).index ↔ x ∈ f.index ∧ ∀ y ∈ bad, P.itemId x ≠ P.itemId y) ∧
      f.removeItems P bad = { f with index := (f.removeItems P bad).index } := by
  induction bad generalizing f with
  | nil => exact ⟨by simp [removeItems], rfl⟩
  | cons y ys ih =>
    obtain ⟨hindex, heq⟩ := ih (f.remove P (P.itemId y))
    refine ⟨fun x ↦ ?_, heq⟩
    have hmem : x ∈ (f.remove P (P.itemId y)).index ↔ x ∈ f.index ∧ P.itemId x ≠ P.itemId y := by
      simp [remove]
    change x ∈ ((f.remove P (P.itemId y)).removeItems P ys).index ↔ _
    rw [hindex, hmem, List.forall_mem_cons, and_assoc]

theorem ForkDatabase.WF.removeItems {f : ForkDatabase C} (h : f.WF P) (bad : List (ForkItem C)) :
    (f.removeItems P bad).WF P := by
  induction bad generalizing f with
  | nil => exact h
  | cons y ys ih => exact ih (h.remove _)

theorem removeItems_run (bad : List (ForkItem C)) (d : Database C) :
    bad.forM (fun x ↦ Database.onForkDb fun f ↦ some (f.remove P (P.itemId x))) d =
      .ok () { d with forkDb := d.forkDb.removeItems P bad } := by
  induction bad generalizing d with
  | nil => rfl
  | cons y ys ih =>
    have hy : Database.onForkDb (fun f ↦ some (f.remove P (P.itemId y))) d =
        .ok () { d with forkDb := d.forkDb.remove P (P.itemId y) } := rfl
    exact (bind_ok hy).trans (ih _)

/-- **The handler** pops the blocks of the new branch and applies the old branch again, if the fork
database and the undo stack reach back to where the branches part. -/
theorem restoreFork_spec (newBlock : SignedBlock C) (bad : List (ForkItem C)) (n : ℕ)
    (hg : Base g) (hP : P.Nests depth) (hlag : P.Lags g depth) {f : ForkDatabase C}
    {ix : ChainState C}
    (h : d.Sound P g depth chain) (hidle : d.pendingTxSession = none)
    (hfront : front ∈ d.forkDb.held) (hun : d.Undoable n)
    (hfork : ((d.forkDb.removeItems P bad).setHead front).popBlocks n = some f)
    (hfetch : ∀ j < n, ({ d with forkDb := (d.forkDb.removeItems P bad).setHead front } :
      Database C).fetchBlockById P (P.tip g (chain.drop j)) ≠ none)
    (hbase : base = P.tip g (chain.drop n))
    (hfold : P.stateAt g ((old.map ForkItem.data).reverse ++ chain.drop n) = some ix)
    (hold : ∀ x ∈ old, x.num < d.blockIdToBlock.size) :
    ∃ d₁ d' : Database C, d₁.Sound P g depth (chain.drop n) ∧ d₁.maxSize = d.maxSize ∧
      d₁.objects.history = d.objects.history.drop n ∧ d₁.pendingTxSession = none ∧
      Database.restoreFork P newBlock bad front base old d = .error () d' ∧
      d'.Sound P g depth ((old.map ForkItem.data).reverse ++ chain.drop n) ∧ d'.state = ix ∧
      (∀ r, d₁.Undoable (r - old.length) →
        P.RoomFor depth r d₁.maxSize d₁.state (old.map ForkItem.data) → d'.Undoable r) ∧
      d'.maxSize = (P.sizes d₁.state (old.map ForkItem.data)).getLastD d.maxSize ∧
      (∃ log, d.blockIdToBlock.removeAll ((chain.take n).map P.blockId) = some log ∧
        d'.blockIdToBlock = old.foldl (fun log x ↦ log.store P (P.blockId newBlock) x.data) log) ∧
      d' = { d with
        objects := d'.objects
        forkDb := (P.sizes d₁.state (old.map ForkItem.data)).foldl ForkDatabase.setMaxSize f
        blockIdToBlock := d'.blockIdToBlock
        poppedTx := d'.poppedTx } := by
  obtain ⟨-, hremove⟩ := ForkDatabase.removeItems_spec (P := P) bad d.forkDb
  set f₀ := (d.forkDb.removeItems P bad).setHead front with hf₀
  have hheld : f₀.held = d.forkDb.held := by
    rw [hf₀, hremove]
    rfl
  have hwf₀ : f₀.WF P := by
    refine (h.forkDb.removeItems bad).setHead (ForkDatabase.mem_alive.2 (Or.inr (Or.inr ?_)))
    rw [hremove]
    exact hfront
  have hsound₀ : ({ d with forkDb := f₀ } : Database C).Sound P g depth chain :=
    h.of_forkDb hwf₀ le_rfl
  obtain ⟨d₁, hpop, hsound₁, hlog₁, hhist₁, hmax₁, heq₁⟩ :=
    popTo_ok (n := n) hsound₀ hg hidle hun hfork hfetch
  have hidle₁ : d₁.pendingTxSession = none := by rw [heq₁]; exact hidle
  rw [Protocol.stateAt_append, hsound₁.toOnChain.stateAt_eq hidle₁, Option.bind_some] at hfold
  obtain ⟨d', hrun, hsound', hstate', hun', hmax', heq'⟩ := applyAll_ok hg hP hlag
    (fun _ ↦ P.blockId newBlock) hsound₁ hidle₁ hfold fun x hx ↦
      Or.inr ((hold x hx).trans_eq (BlockDatabase.size_removeAll hlog₁).symm)
  refine ⟨d₁, d', hsound₁, hmax₁, hhist₁, hidle₁, ?_, hsound', hstate', hun', ?_,
    ⟨d₁.blockIdToBlock, hlog₁, by rw [heq']⟩, ?_⟩
  · have hset : Database.onForkDb (fun f ↦ some (f.setHead front))
        { d with forkDb := d.forkDb.removeItems P bad } = .ok () { d with forkDb := f₀ } := rfl
    rw [Database.restoreFork, bind_ok (removeItems_run bad d), bind_ok hset, hbase, bind_ok hpop,
      bind_ok hrun]
    rfl
  · rw [hmax', hmax₁]
    rfl
  · rw [heq', heq₁]

/-! ## Down to where the branches part -/

/-- A switch from the head block to `newHead` gets down to where their branches part: both branches
are known, `newHead` finds its parent, and the undo stack reaches back that far. -/
structure Database.Reaches (P : Protocol C) (d : Database C) (newHead : ForkItem C)
    (first second : List (ForkItem C)) : Prop where
  /-- The branches. -/
  fetch : d.forkDb.fetchBranchFrom P (P.itemId newHead) d.state.headBlockId = some (first, second)
  /-- The parent. -/
  parent : (d.forkDb.lockPrev newHead).isSome
  /-- The undo stack. -/
  undoable : d.Undoable second.length

variable {newHead : ForkItem C} {first second : List (ForkItem C)}

/-- The new branch is longer than the old one. -/
theorem Database.Reaches.length_lt (h : d.Reaches P newHead first second)
    (hsound : d.Sound P g depth chain) (hg : Base g) (hidle : d.pendingTxSession = none)
    (hlt : d.state.headBlockNum < newHead.num) : second.length < first.length := by
  obtain ⟨hfirst, hsecond, hlast⟩ := hsound.forkDb.fetchBranchFrom_spec h.fetch
  obtain ⟨x, last, hx, hlast₁, hxid, -⟩ := hfirst.ends
  obtain ⟨front, back, hfront, hback, hid, -⟩ := hsecond.ends
  obtain ⟨hbase, -⟩ := Protocol.stateAt_spec hg (hsound.toOnChain.stateAt_eq hidle)
  have h₁ := branch_length hfirst.chain hx hlast₁
  have h₂ := branch_length hsecond.chain hfront hback
  rw [hlast₁, hback] at hlast
  have hprev : last.num = back.num := congrArg (fun id ↦ id.num + 1) (Option.some_inj.1 hlast)
  have hxnum : x.num = newHead.num := congrArg BlockId.num hxid
  have hfnum : front.num = d.state.headBlockNum := by
    rw [← hbase.num_eq, ← hid]
    rfl
  omega

/-- The fork database's head finds its way down the new branch. -/
theorem Database.Reaches.path (h : d.Reaches P newHead first second)
    (hsound : d.Sound P g depth chain) (hheld : d.forkDb.held = [])
    (hhead : d.forkDb.head = some newHead) (hmem : ∀ x ∈ first, x ∈ d.forkDb.index) :
    (newHead :: first.tail).IsChain (ForkDatabase.IsParent P) := by
  obtain ⟨hfirst, -, -⟩ := hsound.forkDb.fetchBranchFrom_spec h.fetch
  obtain ⟨p, hp⟩ := Option.isSome_iff_exists.1 h.parent
  obtain ⟨hpmem, hparent⟩ :=
    hsound.forkDb.lockPrev_spec (ForkDatabase.mem_alive.2 (Or.inr (Or.inl hhead))) hp
  have hpindex : p ∈ d.forkDb.index := by
    rcases ForkDatabase.mem_alive.1 hpmem with hmem | hmem | hmem
    · exact hmem
    · obtain rfl := Option.some_inj.1 (hhead.symm.trans hmem)
      have := hparent.num_eq
      omega
    · rw [hheld] at hmem
      cases hmem
  obtain ⟨hfront, hchain, -⟩ := hfirst
  cases first with
  | nil => exact List.isChain_singleton _
  | cons x xs =>
    cases xs with
    | nil => exact List.isChain_singleton _
    | cons y ys =>
      obtain ⟨hxy, hrest⟩ := List.isChain_cons_cons.1 hchain
      have hx : P.itemId x = P.itemId newHead := Option.some_inj.1 hfront
      have hy : y = p := hsound.forkDb.index_inj y (hmem y (by simp)) p hpindex
        ((hxy.2.trans (Protocol.previous_eq hx)).trans hparent.2.symm)
      exact List.isChain_cons_cons.2 ⟨hy ▸ hparent, hrest⟩

/-- **A switch gets down to where the branches part.** -/
theorem Database.Reaches.popTo (h : d.Reaches P newHead first second)
    (hsound : d.Sound P g depth chain) (hg : Base g) (hidle : d.pendingTxSession = none)
    (hheld : d.forkDb.held = []) (hhead : d.forkDb.head = some newHead)
    (hlt : d.state.headBlockNum < newHead.num) {back : ForkItem C}
    (hback : second.getLast? = some back) :
    second.length ≤ chain.length ∧ back.previousId = P.tip g (chain.drop second.length) ∧
      ∃ d₁, Database.popTo P back.previousId (d.hold (first ++ second)) = .ok () d₁ ∧
        d₁.Sound P g depth (chain.drop second.length) ∧
        d.blockIdToBlock.removeAll ((chain.take second.length).map P.blockId) =
          some d₁.blockIdToBlock ∧
        d₁.objects.history = d.objects.history.drop second.length ∧ d₁.maxSize = d.maxSize ∧
        d₁ = { d with
          objects := d₁.objects
          forkDb := { d.forkDb with
            held := first ++ second
            head := (newHead :: first.tail)[second.length]? }
          blockIdToBlock := d₁.blockIdToBlock
          poppedTx := d₁.poppedTx } := by
  obtain ⟨hfirst, hsecond, -⟩ := hsound.forkDb.fetchBranchFrom_spec h.fetch
  have hstate := hsound.toOnChain.stateAt_eq hidle
  obtain ⟨hbase, hid, -⟩ := Protocol.stateAt_spec hg hstate
  obtain ⟨hmem₁, hmem₂⟩ := fetchBranchFrom_index hsound.forkDb hheld hhead h.fetch
    (hbase.num_eq.trans_le hlt.le)
  have hlength := h.length_lt hsound hg hidle hlt
  have hle := h.undoable.chain_le hg hsound.toOnChain
  rw [hid] at hsecond
  have hbaseId := branch_base hg hstate hsecond hle hback
  refine ⟨hle, hbaseId, ?_⟩
  have hwf : (d.hold (first ++ second)).forkDb.WF P := by
    refine hsound.forkDb.hold fun x hx ↦ ?_
    exact (List.mem_append.1 hx).elim (hfirst.mem_alive x) (hsecond.mem_alive x)
  have hpops : (d.hold (first ++ second)).forkDb.popBlocks second.length =
      some { d.forkDb with
        held := first ++ second
        head := (newHead :: first.tail)[second.length]? } :=
    ForkDatabase.WF.popBlocks hwf hhead (h.path hsound hheld hhead hmem₁)
    (fun y hy ↦ Or.inl (hmem₁ y (List.mem_of_mem_tail hy))) (by rw [List.length_tail]; omega)
  have hids := branch_ids hg hstate hsecond hle
  have hfetch : ∀ j < second.length,
      (d.hold (first ++ second)).fetchBlockById P (P.tip g (chain.drop j)) ≠ none := by
    intro j hj
    have hx : P.itemId second[j] = P.tip g (chain.drop j) := by
      have hj' : j < chain.length := hj.trans_le hle
      have := congrArg (·[j]?) hids
      simp only [List.getElem?_map, List.getElem?_take_of_lt hj, List.getElem?_eq_getElem hj,
        List.getElem?_eq_getElem hj', Option.map_some] at this
      rw [List.drop_eq_getElem_cons hj']
      exact Option.some_inj.1 this
    rw [← hx, Database.fetchBlockById]
    have hfound : (d.hold (first ++ second)).forkDb.fetchBlock P (P.itemId second[j]) =
        some second[j] := hsound.forkDb.fetchBlock_of_mem (hmem₂ _ (List.getElem_mem hj))
    rw [hfound]
    exact Option.some_ne_none _
  obtain ⟨d₁, hrun, hsound₁, hlog, hhist, hmax, heq⟩ := popTo_ok (d := d.hold (first ++ second))
    (hsound.of_forkDb hwf le_rfl) hg hidle h.undoable hpops hfetch
  rw [hbaseId]
  exact ⟨d₁, hrun, hsound₁, hlog, hhist, hmax, heq⟩

end

end Graphene
