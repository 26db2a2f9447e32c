import Graphene.Chain.Calls

/-!
# The branches of `_push_block`

`_push_block` first pushes the block onto the fork database and then looks at the fork database's
head, which need not be the block that was pushed.

* `_pushBlock_error`, `_pushBlock_stay`, `_pushBlock_extend`, `_pushBlock_switch` — its four ways to
  go on.
* `fetchBranchFrom_index` — both branches of a fork switch are in the index.
* `popUntil_ok` — where the loops that pop blocks end, when they do.
-/

set_option autoImplicit false

namespace Graphene

open Throwing

variable {C : ChainTypes} {P : Protocol C} {g : ChainState C} {depth : ℕ}

/-! ## The four branches -/

section

variable {d : Database C} {b : SignedBlock C} {f : ForkDatabase C} {newHead : ForkItem C}

/-- The fork database has a head once a block has been pushed. -/
theorem ForkDatabase.head_of_pushBlock {f f' : ForkDatabase C} (h : f.pushBlock P b = some f') :
    ∃ x, f'.head = some x := by
  obtain ⟨item, -, -, -, -, -, ⟨hhead, -⟩ | ⟨hhead, x, hx, -⟩⟩ := pushBlock_spec h
  · exact ⟨item, hhead⟩
  · exact ⟨x, hhead.trans hx⟩

theorem _pushBlock_error (h : d.forkDb.pushBlock P b = none) :
    Database._pushBlock P b d = .error () d := by
  refine bind_error ?_
  simp only [Database.onForkDb, h]

theorem _pushBlock_some (h : d.forkDb.pushBlock P b = some f) (hhead : f.head = some newHead) :
    Database._pushBlock P b d =
      (if newHead.previousId ≠ d.state.headBlockId then
        if newHead.num > d.state.headBlockNum then do
          Database.switchFork P b newHead
          return true
        else return false
      else do
        tryCatch (Database.applyAndStore P (P.blockId b) b) fun _ ↦ do
          Database.onForkDb fun f ↦ some (f.remove P (P.blockId b))
          throw ()
        return false : DatabaseM C Bool) { d with forkDb := f } := by
  have hpush : Database.onForkDb (·.pushBlock P b) d = .ok () { d with forkDb := f } := by
    simp only [Database.onForkDb, h]
  rw [Database._pushBlock, bind_ok hpush, bind_ok (get_apply _)]
  simp only [hhead]
  rfl

/-- The block goes onto a fork that is not longer. -/
theorem _pushBlock_stay (h : d.forkDb.pushBlock P b = some f) (hhead : f.head = some newHead)
    (hne : newHead.previousId ≠ d.state.headBlockId) (hle : newHead.num ≤ d.state.headBlockNum) :
    Database._pushBlock P b d = .ok false { d with forkDb := f } := by
  rw [_pushBlock_some h hhead, if_pos hne, if_neg (not_lt.2 hle)]
  rfl

/-- The head of the fork database does not build on the head block. -/
theorem _pushBlock_switch (h : d.forkDb.pushBlock P b = some f) (hhead : f.head = some newHead)
    (hne : newHead.previousId ≠ d.state.headBlockId) (hlt : d.state.headBlockNum < newHead.num) :
    Database._pushBlock P b d =
      match Database.switchFork P b newHead { d with forkDb := f } with
      | .ok _ d' => .ok true d'
      | .error _ d' => .error () d' := by
  rw [_pushBlock_some h hhead, if_pos hne, if_pos hlt]
  cases hrun : Database.switchFork P b newHead { d with forkDb := f } with
  | ok a d' => exact bind_ok hrun
  | error e d' => exact bind_error hrun

/-- The head of the fork database builds on the head block: the block that was pushed is applied. -/
theorem _pushBlock_extend (h : d.forkDb.pushBlock P b = some f) (hhead : f.head = some newHead)
    (heq : newHead.previousId = d.state.headBlockId) :
    Database._pushBlock P b d =
      match Database.applyAndStore P (P.blockId b) b { d with forkDb := f } with
      | .ok _ d' => .ok false d'
      | .error _ d' => .error () { d' with forkDb := d'.forkDb.remove P (P.blockId b) } := by
  rw [_pushBlock_some h hhead, if_neg (not_not.2 heq)]
  cases hrun : Database.applyAndStore P (P.blockId b) b { d with forkDb := f } with
  | ok a d' => exact bind_ok (tryCatch_ok hrun)
  | error e d' => exact bind_error ((tryCatch_error hrun).trans rfl)

end

/-! ## Branches in the index -/

/-- The branches start at items of the index. -/
theorem ForkDatabase.fetchBranchFrom_heads {f : ForkDatabase C} {tip tip' : BlockId C}
    {first second : List (ForkItem C)}
    (h : f.fetchBranchFrom P tip tip' = some (first, second)) (hwf : f.WF P) :
    (∀ x, first.head? = some x → x ∈ f.index) ∧ ∀ y, second.head? = some y → y ∈ f.index := by
  obtain ⟨x, hx, h⟩ := Option.bind_eq_some_iff.1 h
  obtain ⟨y, hy, h⟩ := Option.bind_eq_some_iff.1 h
  obtain ⟨⟨above, x'⟩, hx', h⟩ := Option.bind_eq_some_iff.1 h
  obtain ⟨⟨above', y'⟩, hy', h⟩ := Option.bind_eq_some_iff.1 h
  obtain ⟨⟨below, below'⟩, hb, heq⟩ := Option.bind_eq_some_iff.1 h
  obtain ⟨rfl, rfl⟩ := Prod.mk.inj (Option.some_inj.1 heq)
  obtain ⟨hxmem, -⟩ := fetchBlock_eq_some hx
  obtain ⟨hymem, -⟩ := fetchBlock_eq_some hy
  obtain ⟨hx₁, -, hx₃⟩ := hwf.descend_spec (mem_alive.2 (Or.inl hxmem)) hx'
  obtain ⟨hy₁, -, hy₃⟩ := hwf.descend_spec (mem_alive.2 (Or.inl hymem)) hy'
  obtain ⟨⟨hf₁, -⟩, ⟨hs₁, -⟩, -⟩ := hwf.descendBoth_spec (hx₃ x' (by simp))
    (hy₃ y' (by simp)) le_rfl hb
  have hhead : ∀ {l below : List (ForkItem C)} {z z' w : ForkItem C},
      (l ++ [z']).head? = some z → below.head? = some z' → (l ++ below).head? = some w → w = z := by
    intro l below z z' w h₁ h₂ h₃
    cases l with
    | nil =>
      obtain rfl := Option.some_inj.1 h₁
      exact Option.some_inj.1 (h₃.symm.trans h₂)
    | cons a l => exact Option.some_inj.1 (h₃.symm.trans h₁)
  exact ⟨fun w hw ↦ hhead hx₁ hf₁ hw ▸ hxmem, fun w hw ↦ hhead hy₁ hs₁ hw ▸ hymem⟩

/-- A branch that starts in the index, no higher than the head, is in the index. -/
theorem ForkDatabase.IsBranch.mem_index {f : ForkDatabase C} {tip : BlockId C}
    {branch : List (ForkItem C)} {newHead : ForkItem C} (h : IsBranch P f tip branch)
    (hstart : ∀ x, branch.head? = some x → x ∈ f.index) (hheld : f.held = [])
    (hhead : f.head = some newHead) (hle : tip.num ≤ newHead.num) :
    ∀ x ∈ branch, x ∈ f.index := by
  obtain ⟨hfront, hchain, halive⟩ := h
  cases branch with
  | nil => simp
  | cons y ys =>
    have hy : y.num = tip.num := congrArg BlockId.num (Option.some_inj.1 hfront)
    refine List.forall_mem_cons.2 ⟨hstart y rfl, fun x hx ↦ ?_⟩
    have hlt : x.num < y.num := by
      clear hfront hstart halive hy
      induction ys generalizing y with
      | nil => cases hx
      | cons z zs ih =>
        obtain ⟨hp, hrest⟩ := List.isChain_cons_cons.1 hchain
        have hnum := hp.num_eq
        rcases List.mem_cons.1 hx with rfl | hx
        · omega
        · have := ih z hrest hx
          omega
    rcases ForkDatabase.mem_alive.1 (halive x (List.mem_cons_of_mem _ hx)) with hmem | hmem | hmem
    · exact hmem
    · obtain rfl := Option.some_inj.1 (hhead.symm.trans hmem)
      omega
    · rw [hheld] at hmem
      cases hmem

/-- Both branches of a switch to the head are in the index. -/
theorem fetchBranchFrom_index {f : ForkDatabase C} (hwf : f.WF P) (hheld : f.held = [])
    {newHead : ForkItem C} (hhead : f.head = some newHead) {tip' : BlockId C}
    {first second : List (ForkItem C)}
    (h : f.fetchBranchFrom P (P.itemId newHead) tip' = some (first, second))
    (hle : tip'.num ≤ newHead.num) :
    (∀ x ∈ first, x ∈ f.index) ∧ ∀ x ∈ second, x ∈ f.index := by
  obtain ⟨hfirst, hsecond, -⟩ := hwf.fetchBranchFrom_spec h
  obtain ⟨hfront, hfront'⟩ := ForkDatabase.fetchBranchFrom_heads h hwf
  exact ⟨hfirst.mem_index hfront hheld hhead le_rfl, hsecond.mem_index hfront' hheld hhead hle⟩

/-! ## Popping -/

/-- The loop ends at the block it is after. -/
theorem popUntil_ok {id : BlockId C} {n : ℕ} {d d' : Database C}
    (h : Database.popUntil P id n d = .ok () d') : d'.state.headBlockId = id := by
  induction n generalizing d with
  | zero => cases h
  | succ n ih =>
    rw [Database.popUntil, bind_ok (get_apply d)] at h
    split_ifs at h with hne
    · cases hpop : Database.popBlock P d with
      | ok a d₁ =>
        rw [bind_ok hpop] at h
        exact ih h
      | error e d₁ =>
        rw [bind_error hpop] at h
        cases h
    · obtain ⟨-, rfl⟩ := EStateM.Result.ok.inj h
      exact not_not.1 hne

/-- The handler of a fork switch always throws. -/
theorem restoreFork_error (newBlock : SignedBlock C) (bad old : List (ForkItem C))
    (front : ForkItem C) (base : BlockId C) (d : Database C) :
    ∃ d', Database.restoreFork P newBlock bad front base old d = .error () d' := by
  have hthrow : ∀ (m : DatabaseM C Unit) (k : Unit → DatabaseM C Unit),
      (∀ d, ∃ d', k () d = .error () d') → ∀ d, ∃ d', (m >>= k) d = .error () d' := by
    intro m k hk d
    cases h : m d with
    | ok a d₁ =>
      rw [bind_ok h]
      exact hk d₁
    | error e d₁ => exact ⟨d₁, bind_error h⟩
  exact hthrow _ _ (hthrow _ _ (hthrow _ _ (hthrow _ _ fun d ↦ ⟨d, rfl⟩))) d

end Graphene
