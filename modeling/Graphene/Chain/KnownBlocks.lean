import Graphene.Chain.PushBlock
import Graphene.Chain.Testnet

/-!
# Which blocks the fork database forgets

A block that has been linked into the fork database should stay there until it is too old, or until
it, or a block below it, has turned out not to apply.

`_push_block` has the block linked before it tries it, and takes it out of the fork database again
if that fails.  But it takes it out by its id while the head of the fork database stays where it is,
so that the next block meets a head that the chain does not have.

* `Protocol.firstFailing`, `Database.failing` — the block that turns out not to apply to the state
  of its own parent in a call of `_push_block`, if one does.
* `Doomed` — the blocks that failed and those above them.
* `known_block_kept` — along every sequence of `push_block` in which no block is tried on a head
  block that is not its parent, the fork database forgets no other block.
* `linked_block_lost` — otherwise it does: a rejected block stays the head of the fork database,
  and the next block that is not higher is tried on the rejected block's parent.
-/

set_option autoImplicit false

namespace Graphene

open Throwing

variable {C : ChainTypes} {P : Protocol C} {g : ChainState C} {depth : ℕ}

/-! ## Blocks that fail -/

/-- Of the blocks of a branch, applied one after the other to the state `ix`, the first that does
not apply, if it is tried on the state of its parent. -/
def Protocol.firstFailing (P : Protocol C) :
    ChainState C → List (SignedBlock C) → Option (SignedBlock C)
  | _, [] => none
  | ix, b :: bs =>
    match P.applyBlock ix b with
    | some ix' => P.firstFailing ix' bs
    | none => if ix.headBlockId = b.previous then some b else none

/-- The block that fails on the state of its own parent when `_push_block` is called with `b`. -/
def Database.failing (P : Protocol C) (d : Database C) (b : SignedBlock C) :
    Option (SignedBlock C) := do
  let f ← d.forkDb.pushBlock P b
  let newHead ← f.head
  if newHead.previousId = d.state.headBlockId then P.firstFailing d.state [b]
  else if d.state.headBlockNum < newHead.num then
    let (first, second) ← f.fetchBranchFrom P (P.itemId newHead) d.state.headBlockId
    let back ← second.getLast?
    match Database.popTo P back.previousId (({ d with forkDb := f }).hold (first ++ second)) with
    | .ok _ d₁ => P.firstFailing d₁.state (first.reverse.map ForkItem.data)
    | .error _ _ => none
  else none

/-- The blocks that failed, and those that build on one of them. -/
inductive Doomed (P : Protocol C) (failed : List (SignedBlock C)) : SignedBlock C → Prop
  /-- It failed itself. -/
  | failed {b : SignedBlock C} (h : b ∈ failed) : Doomed P failed b
  /-- It builds on a doomed block. -/
  | child {a b : SignedBlock C} (h : Doomed P failed a) (hb : b.previous = P.blockId a) :
    Doomed P failed b

theorem Doomed.mono {failed failed' : List (SignedBlock C)} (hsub : ∀ b ∈ failed, b ∈ failed')
    {b : SignedBlock C} (h : Doomed P failed b) : Doomed P failed' b := by
  induction h with
  | failed h => exact .failed (hsub _ h)
  | child _ hb ih => exact .child ih hb

/-- What is above a doomed item of a branch is doomed. -/
theorem Doomed.branch {failed : List (SignedBlock C)} {x : ForkItem C} {xs : List (ForkItem C)}
    (hx : Doomed P failed x.data)
    (hchain : (x :: xs).IsChain fun x y ↦ ForkDatabase.IsParent P y x) :
    ∀ y ∈ x :: xs, Doomed P failed y.data := by
  induction xs generalizing x with
  | nil => simpa using hx
  | cons y ys ih =>
    obtain ⟨hp, hrest⟩ := List.isChain_cons_cons.1 hchain
    exact List.forall_mem_cons.2 ⟨hx, ih (.child hx hp.2.symm) hrest⟩

/-! ## What is still known -/

/-- All that was known in `f` is known in `f'`, but for what is too old by now or doomed. -/
structure Knows (P : Protocol C) (failed : List (SignedBlock C)) (f f' : ForkDatabase C) :
    Prop where
  /-- The items. -/
  mem : ∀ x ∈ f.index, x ∈ f'.index ∨ x.num < f'.floor ∨ Doomed P failed x.data
  /-- What is too old stays so. -/
  floor_le : f.floor ≤ f'.floor

namespace Knows

variable {failed : List (SignedBlock C)} {f f' f'' : ForkDatabase C}

theorem refl (f : ForkDatabase C) : Knows P failed f f := ⟨fun _ hx ↦ Or.inl hx, le_rfl⟩

theorem trans (h : Knows P failed f f') (h' : Knows P failed f' f'') : Knows P failed f f'' := by
  refine ⟨fun x hx ↦ ?_, h.floor_le.trans h'.floor_le⟩
  rcases h.mem x hx with hmem | hlt | hdoomed
  · exact h'.mem x hmem
  · exact Or.inr (Or.inl (hlt.trans_le h'.floor_le))
  · exact Or.inr (Or.inr hdoomed)

theorem mono {failed' : List (SignedBlock C)} (h : Knows P failed f f')
    (hsub : ∀ b ∈ failed, b ∈ failed') : Knows P failed' f f' :=
  ⟨fun x hx ↦ (h.mem x hx).imp_right fun h ↦ h.imp_right (Doomed.mono hsub), h.floor_le⟩

theorem prune (f : ForkDatabase C) (n : ℕ) : Knows P failed f (f.prune n) := by
  refine ⟨fun x hx ↦ ?_, le_max_left _ _⟩
  rcases lt_or_ge x.num n with hlt | hle
  · exact Or.inr (Or.inl (lt_max_of_lt_right hlt))
  · exact Or.inl (ForkDatabase.mem_prune.2 ⟨hx, hle⟩)

theorem setMaxSize (f : ForkDatabase C) (s : ℕ) : Knows P failed f (f.setMaxSize s) := by
  rw [ForkDatabase.setMaxSize]
  split
  · exact ⟨fun _ hx ↦ Or.inl hx, le_rfl⟩
  · have hbound : Knows P failed f { f with maxSize := s } := ⟨fun _ hx ↦ Or.inl hx, le_rfl⟩
    exact hbound.trans (prune _ _)

theorem pushBlock {b : SignedBlock C} (h : f.pushBlock P b = some f') : Knows P failed f f' := by
  obtain ⟨item, -, rfl⟩ := Option.map_eq_some_iff.1 h
  have hinsert : Knows P failed f (f.insert P item) := by
    refine ⟨fun x hx ↦ Or.inl ?_, le_rfl⟩
    simp only [ForkDatabase.insert]
    split_ifs
    · exact hx
    · exact List.mem_append_left _ hx
  refine hinsert.trans ?_
  rw [ForkDatabase.advance]
  split
  · exact ⟨fun _ hx ↦ Or.inl hx, le_rfl⟩
  · split_ifs
    · have hmove : Knows P failed (f.insert P item) { f.insert P item with head := some item } :=
        ⟨fun _ hx ↦ Or.inl hx, le_rfl⟩
      exact hmove.trans (prune _ _)
    · exact refl _

end Knows

/-! ## The steps of `_push_block` -/

section

variable {failed : List (SignedBlock C)} {f : ForkDatabase C}

/-- The node still knows what `f` knows. -/
def KnowsSince (P : Protocol C) (failed : List (SignedBlock C)) (f : ForkDatabase C)
    (d : Database C) : Prop := Knows P failed f d.forkDb

theorem onObjects_knows (op : ObjectDatabase (ChainObject C) →
    Option (ObjectDatabase (ChainObject C))) :
    Preserves (KnowsSince P failed f) (Database.onObjects op) := by
  intro d hd
  rw [Database.onObjects]
  split <;> exact hd

theorem run_knows (script : ChainState C → Script (ChainObject C)) :
    Preserves (KnowsSince P failed f) (Database.run script) := by
  intro d hd
  rw [Database.run]
  split <;> exact hd

theorem onLog_knows (op : BlockDatabase C → Option (BlockDatabase C)) :
    Preserves (KnowsSince P failed f) (Database.onLog op) := by
  intro d hd
  rw [Database.onLog]
  split <;> exact hd

theorem applyBlock_knows (b : SignedBlock C) :
    Preserves (KnowsSince P failed f) (Database.applyBlock P b) := by
  refine Preserves.bind (Preserves.bind (fun _ hd ↦ hd) fun d ↦ ?_) fun _ ↦
    Preserves.bind (fun _ hd ↦ hd) fun d ↦ ?_
  · split_ifs
    · exact Preserves.bind (Preserves.forM fun _ _ ↦ run_knows _) fun _ ↦
        Preserves.bind (run_knows _) fun _ ↦ run_knows _
    · exact Preserves.throw _
  · split_ifs
    · exact Preserves.bind (fun d hd ↦ hd.trans (Knows.setMaxSize _ _)) fun _ ↦
        Preserves.bind (run_knows _) fun _ ↦ Preserves.bind (run_knows _) fun _ ↦ run_knows _
    · exact Preserves.throw _

theorem applyAndStore_knows (id : BlockId C) (b : SignedBlock C) :
    Preserves (KnowsSince P failed f) (Database.applyAndStore P id b) := by
  refine Preserves.bind (fun _ hd ↦ hd) fun s ↦ Preserves.tryCatch ?_ fun _ ↦
    Preserves.bind (onObjects_knows _) fun _ ↦ Preserves.throw _
  exact Preserves.bind (Preserves.bind (applyBlock_knows b) fun _ ↦ onLog_knows _) fun _ ↦
    Preserves.bind (onObjects_knows _) fun _ ↦ Preserves.pure _

theorem popBlock_knows : Preserves (KnowsSince P failed f) (Database.popBlock P) := by
  refine Preserves.bind (Preserves.bind (fun _ hd ↦ hd) fun d ↦ ?_) fun _ ↦
    Preserves.bind (fun _ hd ↦ hd) fun d ↦ ?_
  · split
    · exact Preserves.pure _
    · exact Preserves.bind (onObjects_knows _) fun _ ↦ Preserves.modify fun _ hd ↦ hd
  · dsimp only
    split
    · exact Preserves.throw _
    · refine Preserves.bind (fun d hd ↦ ?_) fun _ ↦ Preserves.bind (onLog_knows _) fun _ ↦
        Preserves.bind (onObjects_knows _) fun _ ↦ Preserves.modify fun _ hd ↦ hd
      rw [Database.onForkDb]
      split
      · rename_i forkDb hpop
        obtain ⟨x, -, hpop⟩ := Option.bind_eq_some_iff.1 hpop
        obtain ⟨y, -, hpop⟩ := Option.bind_eq_some_iff.1 hpop
        obtain rfl := Option.some_inj.1 hpop
        exact ⟨hd.mem, hd.floor_le⟩
      · exact hd

theorem popTo_knows (id : BlockId C) :
    Preserves (KnowsSince P failed f) (Database.popTo P id) := by
  refine Preserves.bind (fun _ hd ↦ hd) fun d ↦ ?_
  generalize d.objects.undoDb.stack.length + 1 = n
  induction n with
  | zero => exact Preserves.throw _
  | succ n ih =>
    refine Preserves.bind (fun _ hd ↦ hd) fun d ↦ ?_
    split_ifs
    · exact Preserves.bind popBlock_knows fun _ ↦ ih
    · exact Preserves.pure _

theorem remove_knows {id : BlockId C}
    (h : ∀ x ∈ f.index, P.itemId x = id → Doomed P failed x.data) {d : Database C}
    (hd : KnowsSince P failed f d) :
    KnowsSince P failed f { d with forkDb := d.forkDb.remove P id } := by
  refine ⟨fun x hx ↦ ?_, hd.floor_le⟩
  rcases hd.mem x hx with hmem | hrest
  · by_cases hid : P.itemId x = id
    · exact Or.inr (Or.inr (h x hx hid))
    · exact Or.inl (List.mem_filter.2 ⟨hmem, decide_eq_true hid⟩)
  · exact Or.inr hrest

/-- The handler for a block that fails removes doomed blocks only. -/
theorem restoreFork_knows (hwf : f.WF P) {newBlock : SignedBlock C} {bad old : List (ForkItem C)}
    {front : ForkItem C} {base : BlockId C} (hmem : ∀ x ∈ bad, x ∈ f.index)
    (hbad : ∀ x ∈ bad, Doomed P failed x.data) :
    Preserves (KnowsSince P failed f) (Database.restoreFork P newBlock bad front base old) := by
  refine Preserves.bind (Preserves.forM fun x hx d hd ↦ ?_) fun _ ↦
    Preserves.bind (fun _ hd ↦ ⟨hd.mem, hd.floor_le⟩) fun _ ↦
    Preserves.bind (popTo_knows base) fun _ ↦
    Preserves.bind (Preserves.forM fun x _ ↦ applyAndStore_knows _ _) fun _ ↦ Preserves.throw _
  refine remove_knows (fun y hy hid ↦ ?_) hd
  rw [hwf.index_inj y hy x (hmem x hx) hid]
  exact hbad x hx

/-- **The loop over the new branch** makes the fork database forget the blocks from the one that
failed on, and no others. -/
theorem applyFork_knows (hg : Base g) (hP : P.Nests depth) (hlag : P.Lags g depth) (hwf : f.WF P)
    {pendingTx : List C.Tx} {held : List (ForkItem C)} {size : ℕ} {newBlock : SignedBlock C}
    {front : ForkItem C} {base : BlockId C} {old new : List (ForkItem C)}
    (hmem : ∀ x ∈ new, x ∈ f.index)
    (hchain : new.IsChain fun x y ↦ ForkDatabase.IsParent P y x) {d : Database C}
    (hd : d.Idle P g depth pendingTx held size)
    (hstart : ∀ x, new.head? = some x → d.state.headBlockId = x.previousId)
    (hfailed : ∀ b, P.firstFailing d.state (new.map ForkItem.data) = some b → b ∈ failed)
    (hknows : KnowsSince P failed f d) :
    KnowsSince P failed f (exit (Database.applyFork P newBlock front base old new d)) := by
  induction new generalizing d with
  | nil => exact hknows
  | cons x xs ih =>
    obtain ⟨chain, hsound⟩ := hd.sound
    have hstate := hsound.toOnChain.stateAt_eq hd.session
    have hafter := applyAndStore_knows (P.itemId x) x.data d hknows
    rw [List.map_cons, Protocol.firstFailing] at hfailed
    cases happly : P.applyBlock d.state x.data with
    | none =>
      obtain ⟨d₁, hrun, -⟩ :=
        hsound.toOnChain.applyAndStore_error hd.session hg hlag (hP.block _) happly (P.itemId x)
      rw [happly] at hfailed
      have hbad := Doomed.branch (P := P) (.failed (hfailed x.data (if_pos (hstart x rfl)))) hchain
      rw [hrun] at hafter
      have hrestore : KnowsSince P failed f
          (exit (Database.restoreFork P newBlock (x :: xs) front base old d₁)) :=
        restoreFork_knows hwf hmem hbad d₁ hafter
      obtain ⟨d₂, hrestored⟩ := restoreFork_error (P := P) newBlock (x :: xs) old front base d₁
      rw [hrestored] at hrestore
      rw [Database.applyFork, bind_error ((tryCatch_error hrun).trans hrestored)]
      exact hrestore
    | some ix =>
      obtain ⟨d₁, hrun, hon, rfl, -⟩ :=
        hsound.toOnChain.applyAndStore_ok hd.session hg hlag (hP.block _) happly (P.itemId x)
      have hidle : Database.Idle P g depth pendingTx held size
          (exit (Database.applyAndStore P (P.itemId x) x.data d)) :=
        applyAndStore_preserves hg hlag (hP.block _) (Or.inl le_rfl) d hd
      rw [hrun] at hafter hidle
      rw [happly] at hfailed
      rw [Database.applyFork, bind_ok (tryCatch_ok hrun)]
      refine ih (fun y hy ↦ hmem y (List.mem_cons_of_mem _ hy)) hchain.tail hidle ?_ hfailed hafter
      intro y hy
      obtain ⟨-, hid, -⟩ :=
        Protocol.applyBlock_headBlockId (Protocol.stateAt_spec hg hstate).1 happly
      cases xs with
      | nil => cases hy
      | cons z zs =>
        obtain rfl := Option.some_inj.1 hy
        exact hid.trans (List.isChain_cons_cons.1 hchain).1.2
end

/-! ## Calls of `push_block` -/

/-- What the fork database knows once the block is linked. -/
def ForkDatabase.accepted (P : Protocol C) (f : ForkDatabase C) (b : SignedBlock C) :
    List (ForkItem C) :=
  match f.pushBlock P b with
  | some f' => f'.index
  | none => []

/-- Where the block is tried on the head block, it builds on the head block, and the fork database
does not know another block with its header. -/
def Database.TriesOwn (P : Protocol C) (d : Database C) (b : SignedBlock C) : Prop :=
  ∀ f newHead, d.forkDb.pushBlock P b = some f → f.head = some newHead →
    newHead.previousId = d.state.headBlockId →
      b.previous = d.state.headBlockId ∧ ∀ x ∈ d.forkDb.index, P.itemId x = P.blockId b → x.data = b

section

variable {chain : List (SignedBlock C)} {d : Database C} {b : SignedBlock C} {f : ForkDatabase C}

theorem failing_extend {newHead : ForkItem C} (hpush : d.forkDb.pushBlock P b = some f)
    (hhead : f.head = some newHead) (hprev : newHead.previousId = d.state.headBlockId) :
    d.failing P b = P.firstFailing d.state [b] := by
  rw [Database.failing, hpush, Option.bind_eq_bind, Option.bind_some, hhead, Option.bind_eq_bind,
    Option.bind_some, if_pos hprev]

theorem failing_switch {newHead back : ForkItem C} {first second : List (ForkItem C)}
    {d₁ : Database C} (hpush : d.forkDb.pushBlock P b = some f) (hhead : f.head = some newHead)
    (hprev : newHead.previousId ≠ d.state.headBlockId) (hlt : d.state.headBlockNum < newHead.num)
    (hfetch : f.fetchBranchFrom P (P.itemId newHead) d.state.headBlockId = some (first, second))
    (hback : second.getLast? = some back)
    (hrun : Database.popTo P back.previousId
      (({ d with forkDb := f } : Database C).hold (first ++ second)) = .ok () d₁) :
    d.failing P b = P.firstFailing d₁.state (first.reverse.map ForkItem.data) := by
  rw [Database.failing, hpush, Option.bind_eq_bind, Option.bind_some, hhead, Option.bind_eq_bind,
    Option.bind_some, if_neg hprev, if_pos hlt, hfetch, Option.bind_eq_bind, Option.bind_some]
  simp only [hback, hrun, Option.bind_some]

/-- A switch to another fork makes the fork database forget doomed blocks only. -/
theorem switchFork_knows (hg : Base g) (hP : P.Nests depth) (hlag : P.Lags g depth)
    (h : d.AtRest P g depth chain) (hidle : d.pendingTxSession = none) {newHead : ForkItem C}
    (hhead : d.forkDb.head = some newHead) (hlt : d.state.headBlockNum < newHead.num)
    {failed : List (SignedBlock C)}
    (hfailed : ∀ first second back b d₁,
      d.forkDb.fetchBranchFrom P (P.itemId newHead) d.state.headBlockId = some (first, second) →
      second.getLast? = some back →
      Database.popTo P back.previousId (d.hold (first ++ second)) = .ok () d₁ →
      P.firstFailing d₁.state (first.reverse.map ForkItem.data) = some b → b ∈ failed) :
    KnowsSince P failed d.forkDb (exit (Database.switchFork P b newHead d)) := by
  cases hfetch : d.forkDb.fetchBranchFrom P (P.itemId newHead) d.state.headBlockId with
  | none =>
    rw [switchFork_none hfetch]
    exact Knows.refl _
  | some branches =>
    obtain ⟨first, second⟩ := branches
    obtain ⟨hfirst, hsecond, hlast⟩ := h.forkDb.fetchBranchFrom_spec hfetch
    obtain ⟨front, back, hfront, hback, -, hmemFront, -⟩ := hsecond.ends
    obtain ⟨-, back', -, hback', -⟩ := hfirst.ends
    obtain ⟨hbase, -⟩ := Protocol.stateAt_spec hg (h.toOnChain.stateAt_eq hidle)
    obtain ⟨hmem, -⟩ := fetchBranchFrom_index h.forkDb h.held_eq hhead hfetch
      (hbase.num_eq.trans_le hlt.le)
    have hheld : (d.hold (first ++ second)).forkDb.WF P := by
      refine h.forkDb.hold fun x hx ↦ ?_
      exact (List.mem_append.1 hx).elim (hfirst.mem_alive x) (hsecond.mem_alive x)
    have hidle' : (d.hold (first ++ second)).Idle P g depth d.pendingTx (first ++ second) 0 :=
      ⟨⟨chain, h.toSound.of_forkDb hheld le_rfl⟩, hidle, rfl, rfl, Nat.zero_le _⟩
    have hknows : KnowsSince P failed d.forkDb (d.hold (first ++ second)) :=
      ⟨fun _ hx ↦ Or.inl hx, le_rfl⟩
    have hswitch : KnowsSince P failed d.forkDb
        (exit (Database.switchTo P b first second front back (d.hold (first ++ second)))) := by
      have hpop := popTo_knows back.previousId _ hknows
      cases hrun : Database.popTo P back.previousId (d.hold (first ++ second)) with
      | error e d₁ =>
        rw [hrun] at hpop
        rw [Database.switchTo, bind_error hrun]
        exact hpop
      | ok a d₁ =>
        have hidle₁ := popTo_preserves hg back.previousId _ hidle'
        rw [hrun] at hpop hidle₁
        rw [Database.switchTo, bind_ok hrun]
        refine applyFork_knows hg hP hlag h.forkDb (fun x hx ↦ hmem x (List.mem_reverse.1 hx))
          (List.isChain_reverse.2 hfirst.chain) hidle₁ (fun x hx ↦ ?_)
          (fun b' hb' ↦ hfailed first second back b' d₁ hfetch hback hrun hb') hpop
        -- both branches end above the same block
        rw [List.head?_reverse, hback'] at hx
        obtain rfl := Option.some_inj.1 hx
        rw [hback', hback] at hlast
        exact (popUntil_ok hrun).trans (Option.some_inj.1 hlast).symm
    rw [switchFork_some hfetch hfront hback]
    cases hrun : Database.switchTo P b first second front back (d.hold (first ++ second)) with
    | ok a d' =>
      rw [hrun] at hswitch
      exact ⟨hswitch.mem, hswitch.floor_le⟩
    | error e d' =>
      rw [hrun] at hswitch
      exact ⟨hswitch.mem, hswitch.floor_le⟩

/-- **One call of `_push_block`** makes the fork database forget what is too old, the block that
fails and those above it, and nothing else. -/
theorem _pushBlock_knows (hg : Base g) (hP : P.Nests depth) (hlag : P.Lags g depth)
    (h : d.AtRest P g depth chain) (hidle : d.pendingTxSession = none)
    (hpush : d.forkDb.pushBlock P b = some f) (hb : d.TriesOwn P b) :
    KnowsSince P (d.failing P b).toList f (exit (Database._pushBlock P b d)) := by
  obtain ⟨newHead, hhead⟩ := ForkDatabase.head_of_pushBlock hpush
  have hrest : ({ d with forkDb := f } : Database C).AtRest P g depth chain := by
    obtain ⟨-, -, -, -, hheld, -⟩ := ForkDatabase.pushBlock_spec hpush
    exact ⟨h.toSound.of_forkDb (h.forkDb.pushBlock hpush) le_rfl, hheld.trans h.held_eq⟩
  by_cases hprev : newHead.previousId = d.state.headBlockId
  · -- the block is tried on the head block
    obtain ⟨hown, hother⟩ := hb f newHead hpush hhead hprev
    have hafter : KnowsSince P (d.failing P b).toList f
        (exit (Database.applyAndStore P (P.blockId b) b { d with forkDb := f })) :=
      applyAndStore_knows (P.blockId b) b { d with forkDb := f } (Knows.refl f)
    rw [_pushBlock_extend hpush hhead hprev]
    cases hrun : Database.applyAndStore P (P.blockId b) b { d with forkDb := f } with
    | ok a d' =>
      rw [hrun] at hafter
      exact hafter
    | error e d' =>
      rw [hrun] at hafter
      refine remove_knows (fun x hx hid ↦ .failed ?_) hafter
      have hx : x.data = b := by
        obtain ⟨item, hlink, hindex, -⟩ := ForkDatabase.pushBlock_spec hpush
        rcases ((hindex x).1 hx).1 with hmem | ⟨rfl, -⟩
        · exact hother x hmem hid
        · exact (ForkDatabase.link_spec hlink).2.1
      rw [Option.mem_toList, failing_extend hpush hhead hprev, Protocol.firstFailing, hx]
      cases happly : P.applyBlock d.state b with
      | none => exact if_pos hown.symm
      | some ix =>
        obtain ⟨d₁, hrun₁, -⟩ := hrest.toOnChain.applyAndStore_ok hidle hg hlag (hP.block b) happly
          (P.blockId b)
        rw [hrun] at hrun₁
        cases hrun₁
  · by_cases hlt : d.state.headBlockNum < newHead.num
    · have hswitch : KnowsSince P (d.failing P b).toList f
          (exit (Database.switchFork P b newHead { d with forkDb := f })) :=
        switchFork_knows hg hP hlag hrest hidle hhead hlt
          fun first second back b' d₁ hfetch hback hrun hb' ↦ by
            rw [Option.mem_toList, failing_switch hpush hhead hprev hlt hfetch hback hrun]
            exact hb'
      rw [_pushBlock_switch hpush hhead hprev hlt]
      cases hrun : Database.switchFork P b newHead { d with forkDb := f } with
      | ok a d' =>
        rw [hrun] at hswitch
        exact hswitch
      | error e d' =>
        rw [hrun] at hswitch
        exact hswitch
    · rw [_pushBlock_stay hpush hhead hprev (not_lt.1 hlt)]
      exact Knows.refl f

/-- **One call of `push_block`**, from what was known before it and from what was known once the
block was linked. -/
theorem pushBlock_knows (hg : Base g) (hP : P.Nests depth) (hlag : P.Lags g depth)
    (h : d.AtRest P g depth chain) (obs : Observers C) (hb : d.setAside.TriesOwn P b) :
    let d' := exit (Database.pushBlock P obs b d)
    Knows P (d.setAside.failing P b).toList d.forkDb d'.forkDb ∧
      ∀ f, d.forkDb.pushBlock P b = some f →
        Knows P (d.setAside.failing P b).toList f d'.forkDb := by
  obtain ⟨d₁, d₂, d₃, chain₂, hclear, hrest₁, hkeeps₁, hidle₁, -, -, hexit, -, -, -, -, hkeeps₃, -,
    -, heq⟩ := h.pushBlock_eq hg hP hlag obs b
  have haside : d.setAside = d₁ := by rw [Database.setAside, hclear, exit_ok]
  have hexit₃ : exit (Database.pushBlock P obs b d) = d₃ := by
    rw [heq]
    split <;> rfl
  rw [haside] at hb ⊢
  dsimp only
  rw [hexit₃, hkeeps₃.forkDb_eq, ← hkeeps₁.forkDb_eq, ← hexit]
  have hlinked : ∀ f, d₁.forkDb.pushBlock P b = some f →
      Knows P (d₁.failing P b).toList f (exit (Database._pushBlock P b d₁)).forkDb :=
    fun f hpush ↦ _pushBlock_knows hg hP hlag hrest₁ hidle₁ hpush hb
  refine ⟨?_, hlinked⟩
  cases hpush : d₁.forkDb.pushBlock P b with
  | none =>
    rw [_pushBlock_error hpush]
    exact Knows.refl _
  | some f => exact (Knows.pushBlock hpush).trans (hlinked f hpush)

end

/-- Runs of `push_block` from `d₀`, with the items the fork database knew at some time and the
blocks that failed. -/
inductive PushRun (P : Protocol C) (d₀ : Database C) :
    List (ForkItem C) → List (SignedBlock C) → Database C → Prop
  /-- No call. -/
  | refl : PushRun P d₀ d₀.forkDb.index [] d₀
  /-- One more call. -/
  | push {known : List (ForkItem C)} {failed : List (SignedBlock C)} {d : Database C}
    (h : PushRun P d₀ known failed d) (obs : Observers C) (b : SignedBlock C)
    (hb : d.setAside.TriesOwn P b) :
    PushRun P d₀ (known ++ (d.forkDb.accepted P b)) (failed ++ (d.setAside.failing P b).toList)
      (exit (Database.pushBlock P obs b d))

/-- **No known block is lost.**  From any reachable node, along every sequence of `push_block` in
which blocks are tried on the state of their own parents only: a block that was linked into the
fork database can be fetched from it until it is too old for it, unless it or a block below it has
failed. -/
theorem known_block_kept (hg : Base g) (hP : P.Nests depth) (hlag : P.Lags g depth)
    {d₀ d d' : Database C} (h₀ : d₀.Opened P g depth) (hreach : Reachable P d₀ d)
    {known : List (ForkItem C)} {failed : List (SignedBlock C)} (hrun : PushRun P d known failed d')
    {x : ForkItem C} (hx : x ∈ known) :
    d'.forkDb.fetchBlock P (P.itemId x) = some x ∨ x.num < d'.forkDb.floor ∨
      Doomed P failed x.data := by
  obtain ⟨⟨chain, hrest⟩, hknown⟩ : (∃ chain, d'.AtRest P g depth chain) ∧ ∀ x ∈ known,
      x ∈ d'.forkDb.index ∨ x.num < d'.forkDb.floor ∨ Doomed P failed x.data := by
    clear hx
    induction hrun with
    | refl => exact ⟨hreach.atRest hg hP hlag h₀, fun x hx ↦ Or.inl hx⟩
    | @push known failed d h obs b hb ih =>
      obtain ⟨⟨chain, hrest⟩, hknown⟩ := ih
      obtain ⟨hbefore, hlinked⟩ := pushBlock_knows hg hP hlag hrest obs hb
      have hleft : ∀ b' ∈ failed, b' ∈ failed ++ (d.setAside.failing P b).toList :=
        fun b' hb' ↦ List.mem_append_left _ hb'
      have hright : ∀ b' ∈ (d.setAside.failing P b).toList,
          b' ∈ failed ++ (d.setAside.failing P b).toList :=
        fun b' hb' ↦ List.mem_append_right _ hb'
      obtain ⟨chain', hrest', -⟩ := hrest.pushBlock hg hP hlag obs b
      refine ⟨⟨chain', hrest'⟩, fun x hx ↦ ?_⟩
      rcases List.mem_append.1 hx with hx | hx
      · rcases hknown x hx with hmem | hlt | hdoomed
        · exact (hbefore.mono hright).mem x hmem
        · exact Or.inr (Or.inl (hlt.trans_le hbefore.floor_le))
        · exact Or.inr (Or.inr (hdoomed.mono hleft))
      · rw [ForkDatabase.accepted] at hx
        cases hpush : d.forkDb.pushBlock P b with
        | none =>
          rw [hpush] at hx
          cases hx
        | some f =>
          rw [hpush] at hx
          exact ((hlinked f hpush).mono hright).mem x hx
  exact (hknown x hx).imp_left hrest.forkDb.fetchBlock_of_mem

namespace Testnet

/-- The fork database does not know the block, and the block is not tried on a block it does not
build on. -/
theorem triesOwn_of_unknown {d : Database types} {b : SignedBlock types}
    (hnew : ∀ x ∈ d.forkDb.index, protocol.itemId x ≠ protocol.blockId b)
    (hown : ((d.forkDb.pushBlock protocol b).bind ForkDatabase.head).all (fun newHead ↦
      decide (newHead.previousId = d.state.headBlockId →
        b.previous = d.state.headBlockId)) = true) :
    d.TriesOwn protocol b := by
  intro f newHead hpush hhead hprev
  rw [hpush, Option.bind_some, hhead] at hown
  exact ⟨of_decide_eq_true hown hprev, fun x hx hid ↦ absurd hid (hnew x hx)⟩

/-- A fork is known next to the chain, and stays known when a block of the chain does not apply. -/
theorem known_block_kept_fork :
    let x : ForkItem types := { addr := 1, data := b1 }
    let d := pushAll [a1, b1, bad2]
    d.forkDb.fetchBlock protocol (protocol.itemId x) = some x ∨ x.num < d.forkDb.floor ∨
      Doomed protocol ((([] ++ (node.setAside.failing protocol a1).toList) ++
        ((pushAll [a1]).setAside.failing protocol b1).toList) ++
        ((pushAll [a1, b1]).setAside.failing protocol bad2).toList) x.data := by
  have hstart : PushRun protocol node node.forkDb.index [] node := .refl
  have hrun := PushRun.push (PushRun.push (PushRun.push hstart quiet a1
    (triesOwn_of_unknown (by decide +kernel) (by decide +kernel))) quiet b1
    (triesOwn_of_unknown (by decide +kernel) (by decide +kernel))) quiet bad2
    (triesOwn_of_unknown (by decide +kernel) (by decide +kernel))
  have hx : ({ addr := 1, data := b1 } : ForkItem types) ∈
      (exit (Database.pushBlock protocol quiet a1 node)).forkDb.accepted protocol b1 := by
    decide +kernel
  have hkept := known_block_kept base nests lags node_opened .refl hrun
    (List.mem_append_left _ (List.mem_append_right _ hx))
  simp only [pushAll, List.foldl_cons, List.foldl_nil, Call.exec]
  exact hkept

/-- A block that was linked to its parent is lost without having been applied to its state. -/
theorem linked_block_lost :
    (((pushAll [a1, b1, bad2]).forkDb.link protocol b2).bind ForkItem.prev).isSome ∧
      (pushAll [a1, b1, bad2, b2]).forkDb.fetchBlock protocol (protocol.blockId b2) = none ∧
      (pushAll [a1, b1, bad2, b2]).forkDb.floor ≤ b2.blockNum ∧
      node.setAside.failing protocol a1 = none ∧
      (pushAll [a1]).setAside.failing protocol b1 = none ∧
      (pushAll [a1, b1]).setAside.failing protocol bad2 = some bad2 ∧
      (pushAll [a1, b1, bad2]).setAside.failing protocol b2 = none ∧
      ¬ Doomed protocol [bad2] b2 := by
  have hdoomed : ∀ b, Doomed protocol [bad2] b → 2 ≤ b.blockNum ∧ (b.blockNum = 2 → b = bad2) := by
    intro b hb
    induction hb with
    | failed h =>
      rw [List.mem_singleton.1 h]
      exact ⟨by decide, fun _ ↦ rfl⟩
    | @child a b _ hprev ih =>
      have hnum : b.blockNum = a.blockNum + 1 := congrArg (fun id ↦ id.num + 1) hprev
      omega
  refine ⟨by decide +kernel, by decide +kernel, by decide +kernel, by decide +kernel,
    by decide +kernel, by decide +kernel, by decide +kernel, fun h ↦ ?_⟩
  have heq := (hdoomed b2 h).2 (by decide)
  exact absurd (congrArg protocol.blockId heq) (by decide)

end Testnet

end Graphene
