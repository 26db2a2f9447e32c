import Graphene.Chain.Testnet
import Mathlib.Logic.Relation

/-!
# The point where two branches part

`fork_database::fetch_branch_from` (`fork_database.cpp`) goes down from two blocks until it stands
on two with the same `previous`.

An item holds its parent by a weak pointer, so that going down ends where the parent has been let go
of, even if the block has been pushed again since.  The two walks end where the parents agree, which
is found without either of them having to reach a common block.

* `ForkDatabase.Built` — the fork databases that are built by starting from a block, pushing blocks,
  going back, and letting go of what is too old.
* `ForkDatabase.LeadsTo` — what is found by going from parent to parent.
* `WF.fetchBranchFrom_eq_none` — it throws just where no two blocks that are found have the same
  `previous`.
* `WF.shared_of_fetchBranchFrom` — a block that both branches have is the lower one of the two that
  were asked for.
* `fetch_branch_from_finds_fork_point` — what the branches are.
-/

set_option autoImplicit false

namespace Graphene

variable {C : ChainTypes} {P : Protocol C}

namespace ForkDatabase

variable {f f' : ForkDatabase C}

/-- The fork databases the operations build. -/
inductive Built (P : Protocol C) : ForkDatabase C → Prop
  /-- The constructor. -/
  | empty : Built P {}
  /-- `start_block`, on an empty fork database. -/
  | startBlock (s : ℕ) (b : SignedBlock C) :
      Built P (({ maxSize := s } : ForkDatabase C).startBlock b)
  /-- `push_block`, if it does not throw. -/
  | pushBlock {f f' : ForkDatabase C} {b : SignedBlock C} (h : Built P f)
      (hpush : f.pushBlock P b = some f') : Built P f'
  /-- `set_max_size`. -/
  | setMaxSize {f : ForkDatabase C} (h : Built P f) (s : ℕ) : Built P (f.setMaxSize s)
  /-- `pop_block`, if it does not throw. -/
  | popBlock {f f' : ForkDatabase C} (h : Built P f) (hpop : f.popBlock = some f') : Built P f'
  /-- `set_head`, to a block that was fetched. -/
  | setHead {f : ForkDatabase C} {id : BlockId C} {x : ForkItem C} (h : Built P f)
      (hx : f.fetchBlock P id = some x) : Built P (f.setHead x)
  /-- `remove`. -/
  | remove {f : ForkDatabase C} (h : Built P f) (id : BlockId C) : Built P (f.remove P id)

theorem wf_startBlock (s : ℕ) (b : SignedBlock C) :
    (({ maxSize := s } : ForkDatabase C).startBlock b).WF P := by
  constructor <;> simp [startBlock, alive]

theorem Built.wf (h : f.Built P) : f.WF P := by
  induction h with
  | empty => exact wf_empty
  | startBlock s b => exact wf_startBlock s b
  | pushBlock _ hpush ih => exact ih.pushBlock hpush
  | setMaxSize _ s ih => exact ih.setMaxSize s
  | popBlock _ hpop ih => exact (ih.popBlock hpop).1
  | setHead _ hx ih => exact ih.setHead (mem_alive.2 (Or.inl (fetchBlock_eq_some hx).1))
  | remove _ id ih => exact ih.remove id

/-! ## Going from parent to parent -/

/-- `a` is found from `x` by going from parent to parent, any number of times. -/
def LeadsTo (f : ForkDatabase C) : ForkItem C → ForkItem C → Prop :=
  Relation.ReflTransGen fun x y ↦ f.lockPrev x = some y

theorem WF.leadsTo_spec (h : f.WF P) {x a : ForkItem C} (hx : x ∈ f.alive) (ha : f.LeadsTo x a) :
    a ∈ f.alive ∧ a.num ≤ x.num ∧ (a.num = x.num → a = x) := by
  induction ha with
  | refl => exact ⟨hx, Nat.le_refl _, fun _ ↦ rfl⟩
  | tail _ hstep ih =>
    obtain ⟨hmem, hp⟩ := h.lockPrev_spec ih.1 hstep
    have hnum := hp.num_eq
    exact ⟨hmem, by omega, fun heq ↦ by omega⟩

/-- What is found from `x` is `x`, or found from its parent. -/
theorem LeadsTo.head_cases {x a : ForkItem C} (ha : f.LeadsTo x a) :
    a = x ∨ ∃ y, f.lockPrev x = some y ∧ f.LeadsTo y a := by
  rcases Relation.ReflTransGen.cases_head ha with rfl | ⟨y, hy, hya⟩
  · exact Or.inl rfl
  · exact Or.inr ⟨y, hy, hya⟩

/-- The blocks of a branch are found from its tip. -/
theorem WF.leadsTo_of_mem (h : f.WF P) {x z : ForkItem C} {branch : List (ForkItem C)}
    (hhead : branch.head? = some x) (hchain : branch.IsChain (IsParent P))
    (halive : ∀ y ∈ branch, y ∈ f.alive) (hz : z ∈ branch) : f.LeadsTo x z := by
  induction branch generalizing x with
  | nil => cases hz
  | cons y branch ih =>
    obtain rfl := Option.some_inj.1 hhead
    rcases List.mem_cons.1 hz with rfl | hz
    · exact .refl
    · cases branch with
      | nil => cases hz
      | cons y' branch =>
        obtain ⟨hp, hchain⟩ := List.isChain_cons_cons.1 hchain
        have halive' := (List.forall_mem_cons.1 halive).2
        exact .head (h.lockPrev_of_isParent (halive' y' List.mem_cons_self) hp)
          (ih rfl hchain halive' hz)

/-- What is found from the tip of a branch, and is not below its last block, is in the branch. -/
theorem WF.mem_of_leadsTo (h : f.WF P) {x l a : ForkItem C} {branch : List (ForkItem C)}
    (hhead : branch.head? = some x) (hchain : branch.IsChain (IsParent P))
    (halive : ∀ y ∈ branch, y ∈ f.alive) (hlast : branch.getLast? = some l)
    (ha : f.LeadsTo x a) (hnum : l.num ≤ a.num) : a ∈ branch := by
  induction branch generalizing x with
  | nil => cases hhead
  | cons y branch ih =>
    obtain rfl := Option.some_inj.1 hhead
    obtain ⟨hy, halive'⟩ := List.forall_mem_cons.1 halive
    cases branch with
    | nil =>
      obtain rfl : y = l := by simpa using hlast
      obtain ⟨-, hle, heq⟩ := h.leadsTo_spec hy ha
      rw [heq (by omega)]
      exact List.mem_cons_self
    | cons y' branch =>
      obtain ⟨hp, hchain⟩ := List.isChain_cons_cons.1 hchain
      rcases ha.head_cases with rfl | ⟨z, hz, ha⟩
      · exact List.mem_cons_self
      · rw [h.lockPrev_of_isParent (halive' y' List.mem_cons_self) hp] at hz
        obtain rfl := Option.some_inj.1 hz
        exact List.mem_cons_of_mem _ (ih rfl hchain halive' (by simpa using hlast) ha)

/-! ## Where it throws -/

/-- The first loops reach the height they go down to, if something is found there or below. -/
theorem WF.descend_isSome (h : f.WF P) {num k : ℕ} {x a : ForkItem C} (hx : x ∈ f.alive)
    (hk : x.num ≤ k) (ha : f.LeadsTo x a) (hnum : a.num ≤ num) :
    ∃ branch y, f.descend num k x = some (branch, y) ∧ f.LeadsTo y a := by
  induction k generalizing x with
  | zero => exact absurd hk (Nat.not_succ_le_zero _)
  | succ k ih =>
    rw [descend]
    by_cases hgt : x.num > num
    · rcases ha.head_cases with rfl | ⟨y, hy, ha⟩
      · omega
      · obtain ⟨hmem, hp⟩ := h.lockPrev_spec hx hy
        have hpnum := hp.num_eq
        obtain ⟨branch, z, hd, hz⟩ := ih hmem (by omega) ha
        refine ⟨x :: branch, z, ?_, hz⟩
        rw [if_pos hgt, hy]
        simp only [Option.bind_eq_bind, Option.bind_some, hd]
        rfl
    · exact ⟨[], x, if_neg hgt, ha⟩

/-- Where the first loops stop. -/
theorem WF.descend_num (h : f.WF P) {num k : ℕ} {x y : ForkItem C} {branch : List (ForkItem C)}
    (hx : x ∈ f.alive) (hk : x.num ≤ k) (hd : f.descend num k x = some (branch, y)) :
    f.LeadsTo x y ∧ y.num = min x.num num ∧ ∀ z ∈ branch, num < z.num := by
  induction k generalizing x branch with
  | zero => exact absurd hk (Nat.not_succ_le_zero _)
  | succ k ih =>
    rw [descend] at hd
    split_ifs at hd with hgt
    · obtain ⟨prev, hprev, hd⟩ := Option.bind_eq_some_iff.1 hd
      obtain ⟨⟨branch', y'⟩, hd', heq⟩ := Option.bind_eq_some_iff.1 hd
      obtain ⟨rfl, rfl⟩ := Prod.mk.inj (Option.some_inj.1 heq)
      obtain ⟨hmem, hp⟩ := h.lockPrev_spec hx hprev
      have hpnum := hp.num_eq
      obtain ⟨hlead, hnum, hall⟩ := ih hmem (by omega) hd'
      exact ⟨.head hprev hlead, by omega, List.forall_mem_cons.2 ⟨hgt, hall⟩⟩
    · obtain ⟨rfl, rfl⟩ := Prod.mk.inj (Option.some_inj.1 hd)
      exact ⟨.refl, by omega, by simp⟩

/-- The last loop stops, if it can go to two blocks with the same `previous`. -/
theorem WF.descendBoth_isSome (h : f.WF P) {k : ℕ} {x y a b : ForkItem C} (hx : x ∈ f.alive)
    (hy : y ∈ f.alive) (hk : x.num ≤ k) (hxy : x.num = y.num) (ha : f.LeadsTo x a)
    (hb : f.LeadsTo y b) (hab : a.previousId = b.previousId) :
    ∃ first second, f.descendBoth k x y = some (first, second) := by
  have hnum : a.num = b.num := congrArg (fun id ↦ BlockId.num id + 1) hab
  induction k generalizing x y with
  | zero => exact absurd hk (Nat.not_succ_le_zero _)
  | succ k ih =>
    rw [descendBoth]
    by_cases hne : x.previousId ≠ y.previousId
    · rw [if_pos hne]
      rcases ha.head_cases with rfl | ⟨x', hx', ha'⟩
      · obtain ⟨-, -, heq⟩ := h.leadsTo_spec hy hb
        obtain rfl := heq (by omega)
        exact absurd hab hne
      · rcases hb.head_cases with rfl | ⟨y', hy', hb'⟩
        · obtain ⟨-, -, heq⟩ := h.leadsTo_spec hx ha
          obtain rfl := heq (by omega)
          exact absurd hab hne
        · obtain ⟨hmem, hp⟩ := h.lockPrev_spec hx hx'
          obtain ⟨hmem', hp'⟩ := h.lockPrev_spec hy hy'
          have hpnum := hp.num_eq
          have hpnum' := hp'.num_eq
          obtain ⟨first, second, hd⟩ := ih hmem hmem' (by omega) (by omega) ha' hb'
          refine ⟨x :: first, y :: second, ?_⟩
          simp only [hx', hy', Option.bind_eq_bind, Option.bind_some, hd]
          rfl
    · exact ⟨[x], [y], if_neg hne⟩

theorem exists_getLast? {x : ForkItem C} {branch : List (ForkItem C)}
    (h : branch.head? = some x) : ∃ l, branch.getLast? = some l := by
  obtain ⟨t, rfl⟩ := List.head?_eq_some_iff.1 h
  exact ⟨_, List.getLast?_cons⟩

/-- What the loops did, if none of them threw. -/
theorem WF.fetchBranchFrom_inv (h : f.WF P) {id id' : BlockId C} {x y : ForkItem C}
    {first second : List (ForkItem C)} (hx : f.fetchBlock P id = some x)
    (hy : f.fetchBlock P id' = some y)
    (hf : f.fetchBranchFrom P id id' = some (first, second)) :
    ∃ above below above' below' x' y', first = above ++ below ∧ second = above' ++ below' ∧
      first.head? = some x ∧ second.head? = some y ∧
      (f.LeadsTo x x' ∧ x'.num = min x.num y.num ∧ ∀ z ∈ above, y.num < z.num) ∧
      (f.LeadsTo y y' ∧ y'.num = x'.num ∧ ∀ z ∈ above', x'.num < z.num) ∧
      f.descendBoth x'.num x' y' = some (below, below') := by
  rw [fetchBranchFrom, hx, hy] at hf
  simp only [Option.bind_eq_bind, Option.bind_some] at hf
  obtain ⟨⟨above, x'⟩, hx', hf⟩ := Option.bind_eq_some_iff.1 hf
  obtain ⟨⟨above', y'⟩, hy', hf⟩ := Option.bind_eq_some_iff.1 hf
  obtain ⟨⟨below, below'⟩, hb, heq⟩ := Option.bind_eq_some_iff.1 hf
  obtain ⟨rfl, rfl⟩ := Prod.mk.inj (Option.some_inj.1 heq)
  have hxmem := ForkDatabase.mem_alive.2 (Or.inl (fetchBlock_eq_some hx).1)
  have hymem := ForkDatabase.mem_alive.2 (Or.inl (fetchBlock_eq_some hy).1)
  obtain ⟨hlead, hnum, habove⟩ := h.descend_num hxmem (Nat.le_refl _) hx'
  obtain ⟨hlead', hnum', habove'⟩ := h.descend_num hymem (Nat.le_refl _) hy'
  have hle : x'.num ≤ y.num := hnum.trans_le (Nat.min_le_right _ _)
  obtain ⟨hhead, -, hxs⟩ := h.descend_spec hxmem hx'
  obtain ⟨hhead', -, hys⟩ := h.descend_spec hymem hy'
  obtain ⟨⟨hbelow, -⟩, ⟨hbelow', -⟩, -⟩ :=
    h.descendBoth_spec (hxs x' (by simp)) (hys y' (by simp)) le_rfl hb
  refine ⟨above, below, above', below', x', y', rfl, rfl, ?_, ?_, ⟨hlead, hnum, habove⟩,
    ⟨hlead', hnum'.trans (Nat.min_eq_right hle), habove'⟩, hb⟩
  · rw [← hhead, List.head?_append, List.head?_append, hbelow]
    rfl
  · rw [← hhead', List.head?_append, List.head?_append, hbelow']
    rfl

/-- **It throws** just where no two blocks that are found from the two have the same `previous`:
where no common ancestor is known. -/
theorem WF.fetchBranchFrom_eq_none (h : f.WF P) {id id' : BlockId C} {x y : ForkItem C}
    (hx : f.fetchBlock P id = some x) (hy : f.fetchBlock P id' = some y) :
    f.fetchBranchFrom P id id' = none ↔
      ¬∃ a b, f.LeadsTo x a ∧ f.LeadsTo y b ∧ a.previousId = b.previousId := by
  have hxmem := ForkDatabase.mem_alive.2 (Or.inl (fetchBlock_eq_some hx).1)
  have hymem := ForkDatabase.mem_alive.2 (Or.inl (fetchBlock_eq_some hy).1)
  constructor
  · rintro hnone ⟨a, b, ha, hb, hab⟩
    have hnum : a.num = b.num := congrArg (fun id ↦ BlockId.num id + 1) hab
    obtain ⟨-, hax, -⟩ := h.leadsTo_spec hxmem ha
    obtain ⟨-, hby, -⟩ := h.leadsTo_spec hymem hb
    obtain ⟨above, x', hx', ha'⟩ :=
      h.descend_isSome hxmem (Nat.le_refl _) ha (show a.num ≤ y.num by omega)
    obtain ⟨hlead, hxnum, -⟩ := h.descend_num hxmem (Nat.le_refl _) hx'
    have hx'mem := (h.leadsTo_spec hxmem hlead).1
    obtain ⟨-, hax', -⟩ := h.leadsTo_spec hx'mem ha'
    obtain ⟨above', y', hy', hb'⟩ :=
      h.descend_isSome hymem (Nat.le_refl _) hb (show b.num ≤ x'.num by omega)
    obtain ⟨hlead', hynum, -⟩ := h.descend_num hymem (Nat.le_refl _) hy'
    have hy'mem := (h.leadsTo_spec hymem hlead').1
    obtain ⟨below, below', hboth⟩ :=
      h.descendBoth_isSome hx'mem hy'mem (Nat.le_refl _) (by omega) ha' hb' hab
    rw [fetchBranchFrom, hx, hy] at hnone
    simp only [Option.bind_eq_bind, Option.bind_some, hx', hy', hboth] at hnone
    exact absurd hnone (Option.some_ne_none _)
  · intro hno
    rw [Option.eq_none_iff_forall_ne_some]
    rintro ⟨first, second⟩ hf
    obtain ⟨⟨-, hchain, halive⟩, ⟨-, hchain', halive'⟩, hlast⟩ := h.fetchBranchFrom_spec hf
    obtain ⟨_, _, _, _, _, _, -, -, hhead, hhead', -⟩ := h.fetchBranchFrom_inv hx hy hf
    obtain ⟨a, ha⟩ := exists_getLast? hhead
    obtain ⟨b, hb⟩ := exists_getLast? hhead'
    rw [ha, hb] at hlast
    exact hno ⟨a, b, h.leadsTo_of_mem hhead hchain halive (List.mem_of_getLast? ha),
      h.leadsTo_of_mem hhead' hchain' halive' (List.mem_of_getLast? hb), Option.some_inj.1 hlast⟩

/-! ## What the branches share -/

/-- Two blocks of one id, one of each branch, are where the last loop started, and it stopped
there. -/
theorem WF.descendBoth_shared (h : f.WF P) {k : ℕ} {x y z w : ForkItem C}
    {first second : List (ForkItem C)} (hx : x ∈ f.alive) (hy : y ∈ f.alive) (hk : x.num ≤ k)
    (hxy : x.num = y.num) (hd : f.descendBoth k x y = some (first, second)) (hz : z ∈ first)
    (hw : w ∈ second) (hid : P.itemId z = P.itemId w) :
    z = x ∧ w = y ∧ first = [x] ∧ second = [y] := by
  have hnum : z.num = w.num := congrArg BlockId.num hid
  induction k generalizing x y first second with
  | zero => exact absurd hk (Nat.not_succ_le_zero _)
  | succ k ih =>
    rw [descendBoth] at hd
    split_ifs at hd with hne
    · obtain ⟨x', hx', hd⟩ := Option.bind_eq_some_iff.1 hd
      obtain ⟨y', hy', hd⟩ := Option.bind_eq_some_iff.1 hd
      obtain ⟨⟨first', second'⟩, hd', heq⟩ := Option.bind_eq_some_iff.1 hd
      obtain ⟨rfl, rfl⟩ := Prod.mk.inj (Option.some_inj.1 heq)
      obtain ⟨hmem, hp⟩ := h.lockPrev_spec hx hx'
      obtain ⟨hmem', hp'⟩ := h.lockPrev_spec hy hy'
      have hpnum := hp.num_eq
      have hpnum' := hp'.num_eq
      obtain ⟨⟨hf₁, hf₂, hf₃⟩, ⟨hs₁, hs₂, hs₃⟩, -⟩ := h.descendBoth_spec hmem hmem' (by omega) hd'
      exfalso
      rcases List.mem_cons.1 hz with rfl | hz <;> rcases List.mem_cons.1 hw with rfl | hw
      · exact hne (Protocol.previous_eq hid)
      · obtain ⟨-, hle, -⟩ := h.leadsTo_spec hmem' (h.leadsTo_of_mem hs₁ hs₂ hs₃ hw)
        omega
      · obtain ⟨-, hle, -⟩ := h.leadsTo_spec hmem (h.leadsTo_of_mem hf₁ hf₂ hf₃ hz)
        omega
      · obtain ⟨rfl, rfl, -⟩ := ih hmem hmem' (by omega) (by omega) hd' hz hw
        exact hne (hp.2.symm.trans (hid.trans hp'.2))
    · obtain ⟨rfl, rfl⟩ := Prod.mk.inj (Option.some_inj.1 hd)
      exact ⟨List.mem_singleton.1 hz, List.mem_singleton.1 hw, rfl, rfl⟩

/-- **A block that both branches have** is the last of both, and the lower one of the two that were
asked for, whose branch is that block alone. -/
theorem WF.shared_of_fetchBranchFrom (h : f.WF P) {id id' : BlockId C} {x y z w : ForkItem C}
    {first second : List (ForkItem C)} (hx : f.fetchBlock P id = some x)
    (hy : f.fetchBlock P id' = some y)
    (hf : f.fetchBranchFrom P id id' = some (first, second)) (hz : z ∈ first) (hw : w ∈ second)
    (hid : P.itemId z = P.itemId w) :
    first.getLast? = some z ∧ second.getLast? = some w ∧
      (x.num ≤ y.num → z = x ∧ first = [x]) ∧ (y.num ≤ x.num → w = y ∧ second = [y]) := by
  have hxmem := ForkDatabase.mem_alive.2 (Or.inl (fetchBlock_eq_some hx).1)
  have hymem := ForkDatabase.mem_alive.2 (Or.inl (fetchBlock_eq_some hy).1)
  obtain ⟨⟨-, hchain, halive⟩, ⟨-, hchain', halive'⟩, -⟩ := h.fetchBranchFrom_spec hf
  obtain ⟨above, below, above', below', x', y', rfl, rfl, hhead, hhead', ⟨hlead, hxnum, habove⟩,
    ⟨hlead', hynum, habove'⟩, hboth⟩ := h.fetchBranchFrom_inv hx hy hf
  have hnum : z.num = w.num := congrArg BlockId.num hid
  obtain ⟨hx'mem, -, hx'eq⟩ := h.leadsTo_spec hxmem hlead
  obtain ⟨hy'mem, -, hy'eq⟩ := h.leadsTo_spec hymem hlead'
  obtain ⟨-, hzx, -⟩ := h.leadsTo_spec hxmem (h.leadsTo_of_mem hhead hchain halive hz)
  obtain ⟨-, hwy, -⟩ := h.leadsTo_spec hymem (h.leadsTo_of_mem hhead' hchain' halive' hw)
  -- the first loops passed only blocks that are too high to be shared
  have hzb : z ∈ below := (List.mem_append.1 hz).resolve_left fun hza ↦ by
    have := habove z hza
    omega
  have hwb : w ∈ below' := (List.mem_append.1 hw).resolve_left fun hwa ↦ by
    have := habove' w hwa
    omega
  obtain ⟨rfl, rfl, rfl, rfl⟩ :=
    h.descendBoth_shared hx'mem hy'mem le_rfl (by omega) hboth hzb hwb hid
  refine ⟨by simp, by simp, fun hle ↦ ?_, fun hle ↦ ?_⟩
  · obtain rfl := hx'eq (by omega)
    have hnil : above = [] := List.eq_nil_iff_forall_not_mem.2 fun v hv ↦ by
      have hv' := habove v hv
      obtain ⟨-, hvx, -⟩ := h.leadsTo_spec hxmem
        (h.leadsTo_of_mem hhead hchain halive (List.mem_append_left _ hv))
      omega
    exact ⟨rfl, by rw [hnil, List.nil_append]⟩
  · obtain rfl := hy'eq (by omega)
    have hnil : above' = [] := List.eq_nil_iff_forall_not_mem.2 fun v hv ↦ by
      have hv' := habove' v hv
      obtain ⟨-, hvy, -⟩ := h.leadsTo_spec hymem
        (h.leadsTo_of_mem hhead' hchain' halive' (List.mem_append_left _ hv))
      omega
    exact ⟨rfl, by rw [hnil, List.nil_append]⟩

/-- `id` is the id of `x` or of a block that is found below it. -/
def HasAncestor (P : Protocol C) (f : ForkDatabase C) (x : ForkItem C) (id : BlockId C) : Prop :=
  ∃ a, f.LeadsTo x a ∧ P.itemId a = id

/-- Two branches share a block only if one of the two blocks is an ancestor of the other. -/
theorem WF.hasAncestor_of_shared (h : f.WF P) {id id' : BlockId C} {x y z w : ForkItem C}
    {first second : List (ForkItem C)} (hx : f.fetchBlock P id = some x)
    (hy : f.fetchBlock P id' = some y)
    (hf : f.fetchBranchFrom P id id' = some (first, second)) (hz : z ∈ first) (hw : w ∈ second)
    (hid : P.itemId z = P.itemId w) : f.HasAncestor P x id' ∨ f.HasAncestor P y id := by
  obtain ⟨⟨-, hchain, halive⟩, ⟨-, hchain', halive'⟩, -⟩ := h.fetchBranchFrom_spec hf
  obtain ⟨_, _, _, _, _, _, -, -, hhead, hhead', -⟩ := h.fetchBranchFrom_inv hx hy hf
  obtain ⟨-, -, hlow, hlow'⟩ := h.shared_of_fetchBranchFrom hx hy hf hz hw hid
  rcases Nat.le_total x.num y.num with hle | hle
  · obtain ⟨rfl, -⟩ := hlow hle
    exact Or.inr ⟨w, h.leadsTo_of_mem hhead' hchain' halive' hw,
      hid.symm.trans (fetchBlock_eq_some hx).2⟩
  · obtain ⟨rfl, -⟩ := hlow' hle
    exact Or.inl ⟨z, h.leadsTo_of_mem hhead hchain halive hz,
      hid.trans (fetchBlock_eq_some hy).2⟩

/-- Common ancestors that are not below the last blocks of the branches are in both. -/
theorem WF.mem_of_common (h : f.WF P) {id id' : BlockId C} {x y a b c d : ForkItem C}
    {first second : List (ForkItem C)} (hx : f.fetchBlock P id = some x)
    (hy : f.fetchBlock P id' = some y)
    (hf : f.fetchBranchFrom P id id' = some (first, second)) (ha : first.getLast? = some a)
    (hb : second.getLast? = some b) (hc : f.LeadsTo x c) (hd : f.LeadsTo y d)
    (hid : P.itemId c = P.itemId d) (hnum : a.num ≤ c.num) : c ∈ first ∧ d ∈ second := by
  obtain ⟨⟨-, hchain, halive⟩, ⟨-, hchain', halive'⟩, hlast⟩ := h.fetchBranchFrom_spec hf
  obtain ⟨_, _, _, _, _, _, -, -, hhead, hhead', -⟩ := h.fetchBranchFrom_inv hx hy hf
  rw [ha, hb] at hlast
  have hab : a.num = b.num := congrArg (fun id ↦ BlockId.num id + 1) (Option.some_inj.1 hlast)
  have hcd : c.num = d.num := congrArg BlockId.num hid
  exact ⟨h.mem_of_leadsTo hhead hchain halive ha hc hnum,
    h.mem_of_leadsTo hhead' hchain' halive' hb hd (by omega)⟩

end ForkDatabase

open ForkDatabase

/-- **`fetch_branch_from` finds the point where the branches part.**  Its loops end.  It throws just
where no common ancestor is known: no two blocks that are found from the two have the same
`previous`.  Otherwise it returns two branches that start at the two blocks, go from block to parent
and end at blocks with the same `previous`.  If neither block is an ancestor of the other, no block
is in both, and the common `previous` is the highest common ancestor.  If one is, both branches end
at it, its own branch is it alone, and it is the one block they share. -/
theorem fetch_branch_from_finds_fork_point {f : ForkDatabase C} (hbuilt : f.Built P)
    (id id' : BlockId C) (x y : ForkItem C) (hx : f.fetchBlock P id = some x)
    (hy : f.fetchBlock P id' = some y) :
    ((∀ z ∈ f.alive, ∀ num k, z.num ≤ k → f.descend num k z = f.descend num z.num z) ∧
      ∀ z ∈ f.alive, ∀ w ∈ f.alive, ∀ k, z.num ≤ k →
        f.descendBoth k z w = f.descendBoth z.num z w) ∧
    (f.fetchBranchFrom P id id' = none ↔
      ¬∃ a b, f.LeadsTo x a ∧ f.LeadsTo y b ∧ a.previousId = b.previousId) ∧
    ∀ first second, f.fetchBranchFrom P id id' = some (first, second) →
      first.head? = some x ∧ second.head? = some y ∧
      first.IsChain (fun z w ↦ z.previousId = P.itemId w) ∧
      second.IsChain (fun z w ↦ z.previousId = P.itemId w) ∧
      ∃ a b, first.getLast? = some a ∧ second.getLast? = some b ∧ a.previousId = b.previousId ∧
        (∀ z ∈ first, ∀ w ∈ second, P.itemId z = P.itemId w → z = a ∧ w = b) ∧
        (f.HasAncestor P x id' → second = [y] ∧ P.itemId a = id') ∧
        (f.HasAncestor P y id → first = [x] ∧ P.itemId b = id) ∧
        (¬f.HasAncestor P x id' → ¬f.HasAncestor P y id →
          (∀ z ∈ first, ∀ w ∈ second, P.itemId z ≠ P.itemId w) ∧
          ∀ c d, f.LeadsTo x c → f.LeadsTo y d → P.itemId c = P.itemId d →
            c.num ≤ a.previousId.num) := by
  have h := hbuilt.wf
  refine ⟨⟨fun z hz num k hk ↦ h.descend_fuel hz hk,
    fun z hz w hw k hk ↦ h.descendBoth_fuel hz hw hk⟩, h.fetchBranchFrom_eq_none hx hy,
    fun first second hf ↦ ?_⟩
  have hxmem := ForkDatabase.mem_alive.2 (Or.inl (fetchBlock_eq_some hx).1)
  have hymem := ForkDatabase.mem_alive.2 (Or.inl (fetchBlock_eq_some hy).1)
  have hxid := (fetchBlock_eq_some hx).2
  have hyid := (fetchBlock_eq_some hy).2
  obtain ⟨⟨-, hchain, halive⟩, ⟨-, hchain', halive'⟩, hlast⟩ := h.fetchBranchFrom_spec hf
  obtain ⟨_, _, _, _, _, _, -, -, hhead, hhead', -⟩ := h.fetchBranchFrom_inv hx hy hf
  obtain ⟨a, ha⟩ := exists_getLast? hhead
  obtain ⟨b, hb⟩ := exists_getLast? hhead'
  have hab : a.previousId = b.previousId := by
    rw [ha, hb] at hlast
    exact Option.some_inj.1 hlast
  have hnumab : a.num = b.num := congrArg (fun id ↦ BlockId.num id + 1) hab
  have hax := h.leadsTo_spec hxmem (h.leadsTo_of_mem hhead hchain halive (List.mem_of_getLast? ha))
  have hby := h.leadsTo_spec hymem
    (h.leadsTo_of_mem hhead' hchain' halive' (List.mem_of_getLast? hb))
  refine ⟨hhead, hhead', hchain.imp fun _ _ hp ↦ hp.2.symm, hchain'.imp fun _ _ hp ↦ hp.2.symm,
    a, b, ha, hb, hab, fun z hz w hw hid ↦ ?_, ?_, ?_, fun hno hno' ↦ ⟨fun z hz w hw hid ↦ ?_,
    fun c d hc hd hid ↦ ?_⟩⟩
  · obtain ⟨hz', hw', -⟩ := h.shared_of_fetchBranchFrom hx hy hf hz hw hid
    exact ⟨Option.some_inj.1 (hz'.symm.trans ha), Option.some_inj.1 (hw'.symm.trans hb)⟩
  · rintro ⟨c, hc, hcid⟩
    have hnum : c.num = y.num := congrArg BlockId.num (hcid.trans hyid.symm)
    have hcx := h.leadsTo_spec hxmem hc
    obtain ⟨hcf, hys⟩ := h.mem_of_common hx hy hf ha hb hc .refl (hcid.trans hyid.symm) (by omega)
    obtain ⟨hlc, -, -, hlow⟩ :=
      h.shared_of_fetchBranchFrom hx hy hf hcf hys (hcid.trans hyid.symm)
    rw [ha] at hlc
    exact ⟨(hlow (by omega)).2, Option.some_inj.1 hlc ▸ hcid⟩
  · rintro ⟨d, hd, hdid⟩
    have hnum : d.num = x.num := congrArg BlockId.num (hdid.trans hxid.symm)
    have hdy := h.leadsTo_spec hymem hd
    obtain ⟨hxf, hds⟩ := h.mem_of_common hx hy hf ha hb .refl hd (hxid.trans hdid.symm) (by omega)
    obtain ⟨-, hld, hlow, -⟩ :=
      h.shared_of_fetchBranchFrom hx hy hf hxf hds (hxid.trans hdid.symm)
    rw [hb] at hld
    exact ⟨(hlow (by omega)).2, Option.some_inj.1 hld ▸ hdid⟩
  · exact (h.hasAncestor_of_shared hx hy hf hz hw hid).elim hno hno'
  · by_contra hlt
    have hanum : a.num = a.previousId.num + 1 := rfl
    obtain ⟨hcf, hds⟩ := h.mem_of_common hx hy hf ha hb hc hd hid (by omega)
    exact (h.hasAncestor_of_shared hx hy hf hcf hds hid).elim hno hno'

namespace Testnet

/-- The fork database after one block was pushed. -/
def oneBlock : ForkDatabase types where
  index := [⟨0, none, false, a1⟩]
  head := some ⟨0, none, false, a1⟩
  nextAddr := 1

/-- The fork database after two blocks were pushed. -/
def twoBlocks : ForkDatabase types where
  index := [⟨0, none, false, a1⟩, ⟨1, some 0, false, a2⟩]
  head := some ⟨1, some 0, false, a2⟩
  nextAddr := 2

theorem twoBlocks_built : twoBlocks.Built protocol := by
  have h₁ : oneBlock.Built protocol := .pushBlock .empty (b := a1) rfl
  have hlink : oneBlock.link protocol a2 = some ⟨1, some 0, false, a2⟩ := by decide
  have hnew : oneBlock.fetchBlock protocol (protocol.itemId ⟨1, some 0, false, a2⟩) = none := by
    decide
  refine .pushBlock h₁ (b := a2) ?_
  rw [ForkDatabase.pushBlock, hlink, Option.map_some, ForkDatabase.insert, hnew]
  rfl

/-- A block and its parent: both branches hold the parent. -/
theorem parent_in_both_branches :
    twoBlocks.Built protocol ∧ (twoBlocks.fetchBlock protocol (protocol.blockId a2)).isSome ∧
      (twoBlocks.fetchBlock protocol (protocol.blockId a1)).isSome ∧
      ∃ first second, twoBlocks.fetchBranchFrom protocol (protocol.blockId a2)
        (protocol.blockId a1) = some (first, second) ∧ ∃ z ∈ first, z ∈ second :=
  ⟨twoBlocks_built, by decide, by decide, [⟨1, some 0, false, a2⟩, ⟨0, none, false, a1⟩],
    [⟨0, none, false, a1⟩], by decide, ⟨0, none, false, a1⟩, by decide, by decide⟩

/-- A block on `a2`. -/
def left3 : SignedBlock types := block (protocol.blockId a2) 0 []

/-- Another block on `a1`. -/
def right2 : SignedBlock types := block (protocol.blockId a1) 1 []

/-- The items of the fork database where the chain forks above `a1`. -/
def forkItems : List (ForkItem types) :=
  [⟨0, none, false, a1⟩, ⟨1, some 0, false, a2⟩, ⟨2, some 1, false, left3⟩,
    ⟨3, some 0, false, right2⟩]

/-- The fork database where the chain forks above `a1`. -/
def forked : ForkDatabase types where
  index := forkItems
  head := some ⟨2, some 1, false, left3⟩
  nextAddr := 4

/-- The fork database before `right2` was pushed. -/
def threeBlocks : ForkDatabase types where
  index := forkItems.take 3
  head := some ⟨2, some 1, false, left3⟩
  nextAddr := 3

theorem forked_built : forked.Built protocol := by
  have hleft : threeBlocks.Built protocol := by
    have hlink : twoBlocks.link protocol left3 = some ⟨2, some 1, false, left3⟩ := by decide
    have hnew : twoBlocks.fetchBlock protocol
        (protocol.itemId ⟨2, some 1, false, left3⟩) = none := by decide
    refine .pushBlock twoBlocks_built (b := left3) ?_
    rw [ForkDatabase.pushBlock, hlink, Option.map_some, ForkDatabase.insert, hnew]
    rfl
  have hlink : threeBlocks.link protocol right2 = some ⟨3, some 0, false, right2⟩ := by decide
  have hnew : threeBlocks.fetchBlock protocol
      (protocol.itemId ⟨3, some 0, false, right2⟩) = none := by decide
  refine .pushBlock hleft (b := right2) ?_
  rw [ForkDatabase.pushBlock, hlink, Option.map_some, ForkDatabase.insert, hnew]
  rfl

/-- What is found below the two tips. -/
theorem leadsTo_left {z : ForkItem types} (h : forked.LeadsTo ⟨2, some 1, false, left3⟩ z) :
    z ∈ forkItems.take 3 := by
  rcases h.head_cases with rfl | ⟨x, hx, h⟩
  · decide
  · obtain rfl := Option.some_inj.1 ((show forked.lockPrev _ = some ⟨1, some 0, false, a2⟩ by
      decide).symm.trans hx)
    rcases h.head_cases with rfl | ⟨y, hy, h⟩
    · decide
    · obtain rfl := Option.some_inj.1 ((show forked.lockPrev _ = some ⟨0, none, false, a1⟩ by
        decide).symm.trans hy)
      rcases h.head_cases with rfl | ⟨w, hw, -⟩
      · decide
      · cases hw

theorem leadsTo_right {z : ForkItem types} (h : forked.LeadsTo ⟨3, some 0, false, right2⟩ z) :
    z = ⟨3, some 0, false, right2⟩ ∨ z = ⟨0, none, false, a1⟩ := by
  rcases h.head_cases with rfl | ⟨x, hx, h⟩
  · exact Or.inl rfl
  · obtain rfl := Option.some_inj.1 ((show forked.lockPrev _ = some ⟨0, none, false, a1⟩ by
      decide).symm.trans hx)
    rcases h.head_cases with rfl | ⟨y, hy, -⟩
    · exact Or.inr rfl
    · cases hy

/-- Where the chain forks above `a1`, the branches have no block in common, and no ancestor that
they have in common is above `a1`. -/
theorem fetch_branch_from_fork :
    ∃ first second, forked.fetchBranchFrom protocol (protocol.blockId left3)
      (protocol.blockId right2) = some (first, second) ∧
      (∀ z ∈ first, ∀ w ∈ second, protocol.itemId z ≠ protocol.itemId w) ∧
      ∀ c d, forked.LeadsTo ⟨2, some 1, false, left3⟩ c →
        forked.LeadsTo ⟨3, some 0, false, right2⟩ d →
        protocol.itemId c = protocol.itemId d → c.num ≤ a1.blockNum := by
  have hfetch : forked.fetchBranchFrom protocol (protocol.blockId left3)
      (protocol.blockId right2) =
      some ([⟨2, some 1, false, left3⟩, ⟨1, some 0, false, a2⟩],
        [⟨3, some 0, false, right2⟩]) := by decide
  have hno : ¬forked.HasAncestor protocol ⟨2, some 1, false, left3⟩ (protocol.blockId right2) := by
    rintro ⟨z, hz, hid⟩
    revert hid
    have hall : ∀ x ∈ forkItems.take 3, protocol.itemId x ≠ protocol.blockId right2 := by decide
    exact hall z (leadsTo_left hz)
  have hno' : ¬forked.HasAncestor protocol ⟨3, some 0, false, right2⟩ (protocol.blockId left3) := by
    rintro ⟨z, hz, hid⟩
    rcases leadsTo_right hz with rfl | rfl <;> exact absurd hid (by decide)
  obtain ⟨-, -, hspec⟩ := fetch_branch_from_finds_fork_point forked_built
    (protocol.blockId left3) (protocol.blockId right2) ⟨2, some 1, false, left3⟩
    ⟨3, some 0, false, right2⟩ (by decide) (by decide)
  obtain ⟨-, -, -, -, a, b, ha, -, -, -, -, -, hfork⟩ := hspec _ _ hfetch
  obtain rfl := Option.some_inj.1 ha
  obtain ⟨hdisjoint, hcommon⟩ := hfork hno hno'
  exact ⟨_, _, hfetch, hdisjoint, hcommon⟩

end Testnet

end Graphene
