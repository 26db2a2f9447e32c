import Graphene.Chain.Block
import Mathlib.Data.List.Chain

/-!
# The fork database

`fork_database` keeps the blocks of the last few heights in a tree.  An item points to its parent
by a weak pointer, so the parent is found only while something else keeps it alive: the index, the
`_head` pointer, or a local variable of a caller.  An item that is erased from the index and then
pushed again is a new item, and its old children do not find it; so items have an address here,
and addresses are never used twice.

* `ForkDatabase.pushBlock`, `popBlock`, `setHead`, `remove`, `setMaxSize`, `fetchBranchFrom` — the
  operations of `fork_database.cpp`; `none` is an `FC_ASSERT` that fails, and each of them throws,
  if it does, before it changes anything.
* `ForkDatabase.WF` — every item points to the block its header names, whatever happens to the
  index.
* `WF.descend_fuel`, `WF.descendBoth_fuel` — the loops of `fetch_branch_from` end by themselves.
* `WF.fetchBranchFrom_spec` — the branches it returns lead from the two blocks asked for down to
  blocks with the same `previous`.

The second index, `_unlinked_index`, is left out: the one insertion into it stands after a `throw`.
-/

set_option autoImplicit false

namespace Graphene

variable {C : ChainTypes}

/-- `fork_item`. -/
structure ForkItem (C : ChainTypes) where
  /-- The address of the item. -/
  addr : ℕ
  /-- `prev`, a weak pointer. -/
  prev : Option ℕ := none
  /-- `invalid`; nothing sets it. -/
  invalid : Bool := false
  /-- `data`. -/
  data : SignedBlock C

namespace ForkItem

/-- `num`. -/
def num (x : ForkItem C) : ℕ := x.data.blockNum

/-- `previous_id`. -/
def previousId (x : ForkItem C) : BlockId C := x.data.previous

end ForkItem

/-- `id` of a fork item. -/
def Protocol.itemId (P : Protocol C) (x : ForkItem C) : BlockId C := P.blockId x.data

/-- `fork_database`. -/
structure ForkDatabase (C : ChainTypes) where
  /-- `_max_size`. -/
  maxSize : ℕ := 1024
  /-- `_index`. -/
  index : List (ForkItem C) := []
  /-- `_head`. -/
  head : Option (ForkItem C) := none
  /-- The items local variables of the caller hold shared pointers to. -/
  held : List (ForkItem C) := []
  /-- The address of the next item. -/
  nextAddr : ℕ := 0
  /-- The highest number up to which items have been erased for being too old: a history variable,
  which no operation reads. -/
  floor : ℕ := 0

namespace ForkDatabase

/-- The items something holds a shared pointer to. -/
def alive (f : ForkDatabase C) : List (ForkItem C) := f.index ++ f.head.toList ++ f.held

/-- `weak_ptr::lock`. -/
def lock (f : ForkDatabase C) (addr : ℕ) : Option (ForkItem C) :=
  f.alive.find? fun x ↦ x.addr = addr

/-- `prev.lock()`. -/
def lockPrev (f : ForkDatabase C) (x : ForkItem C) : Option (ForkItem C) := x.prev.bind f.lock

/-- `fetch_block`: look a block up by its id. -/
def fetchBlock (P : Protocol C) (f : ForkDatabase C) (id : BlockId C) : Option (ForkItem C) :=
  f.index.find? fun x ↦ P.itemId x = id

/-- `fetch_block_by_number`. -/
def fetchBlockByNumber (f : ForkDatabase C) (num : ℕ) : List (ForkItem C) :=
  f.index.filter fun x ↦ x.num = num

/-- Erase what is too old from the index. -/
def prune (f : ForkDatabase C) (minNum : ℕ) : ForkDatabase C :=
  { f with index := f.index.filter fun x ↦ minNum ≤ x.num, floor := max f.floor minNum }

/-- `set_max_size`. -/
def setMaxSize (f : ForkDatabase C) (s : ℕ) : ForkDatabase C :=
  match f.head with
  | none => { f with maxSize := s }
  | some h => { f with maxSize := s }.prune (h.num - s)

/-- `pop_block`. -/
def popBlock (f : ForkDatabase C) : Option (ForkDatabase C) := do
  let h ← f.head
  let prev ← f.lockPrev h
  return { f with head := some prev }

/-- `set_head`. -/
def setHead (f : ForkDatabase C) (h : ForkItem C) : ForkDatabase C := { f with head := some h }

/-- `remove`. -/
def remove (P : Protocol C) (f : ForkDatabase C) (id : BlockId C) : ForkDatabase C :=
  { f with index := f.index.filter fun x ↦ P.itemId x ≠ id }

/-- `start_block`. -/
def startBlock (f : ForkDatabase C) (b : SignedBlock C) : ForkDatabase C :=
  let item : ForkItem C := { addr := f.nextAddr, data := b }
  { f with index := f.index ++ [item], head := some item, nextAddr := f.nextAddr + 1 }

/-- The checks of `_push_block`, and the item they let in. -/
def link (P : Protocol C) (f : ForkDatabase C) (b : SignedBlock C) : Option (ForkItem C) :=
  let item : ForkItem C := { addr := f.nextAddr, data := b }
  match f.head with
  | none => some item
  | some h =>
    if item.num > h.num - f.maxSize then
      if item.previousId ≠ BlockId.zero C then
        match f.fetchBlock P item.previousId with
        | none => none                      -- unlinkable_block_exception
        | some prev => if prev.invalid then none else some { item with prev := some prev.addr }
      else some item
    else none

/-- `_index.insert`, which does nothing if the id is there already. -/
def insert (P : Protocol C) (f : ForkDatabase C) (item : ForkItem C) : ForkDatabase C :=
  { f with
    index := if (f.fetchBlock P (P.itemId item)).isSome then f.index else f.index ++ [item]
    nextAddr := f.nextAddr + 1 }

/-- `_push_block` once the item is linked: a higher item becomes the head, and what has become too
old is erased. -/
def advance (f : ForkDatabase C) (item : ForkItem C) : ForkDatabase C :=
  match f.head with
  | none => { f with head := some item }
  | some h =>
    if item.num > h.num then { f with head := some item }.prune (item.num - f.maxSize) else f

/-- `push_block`; the item it returns is the head it leaves. -/
def pushBlock (P : Protocol C) (f : ForkDatabase C) (b : SignedBlock C) :
    Option (ForkDatabase C) :=
  (f.link P b).map fun item ↦ (f.insert P item).advance item

/-- The first loops of `fetch_branch_from`: from `x` down to the height `num`.  The fuel is the
number of `x`; each step is one down. -/
def descend (f : ForkDatabase C) (num : ℕ) :
    ℕ → ForkItem C → Option (List (ForkItem C) × ForkItem C)
  | 0, x => some ([], x)
  | k + 1, x =>
    if x.num > num then do
      let prev ← f.lockPrev x
      let (branch, y) ← f.descend num k prev
      return (x :: branch, y)
    else some ([], x)

/-- The last loop of `fetch_branch_from`: from `x` and `y`, of one height, down to items with the
same `previous`, these included.  It throws where an item is gone; with too little fuel the branches
are empty, which they never are otherwise. -/
def descendBoth (f : ForkDatabase C) :
    ℕ → ForkItem C → ForkItem C → Option (List (ForkItem C) × List (ForkItem C))
  | 0, _, _ => some ([], [])
  | k + 1, x, y =>
    if x.previousId ≠ y.previousId then do
      let x' ← f.lockPrev x
      let y' ← f.lockPrev y
      let (first, second) ← f.descendBoth k x' y'
      return (x :: first, y :: second)
    else some ([x], [y])

/-- `fetch_branch_from`. -/
def fetchBranchFrom (P : Protocol C) (f : ForkDatabase C) (first second : BlockId C) :
    Option (List (ForkItem C) × List (ForkItem C)) := do
  let x ← f.fetchBlock P first
  let y ← f.fetchBlock P second
  let (above, x) ← f.descend y.num x.num x
  let (above', y) ← f.descend x.num y.num y
  let (below, below') ← f.descendBoth x.num x y
  return (above ++ below, above' ++ below')

/-! ## The tree -/

/-- The header of `x` names `y`, and so does its `prev`. -/
def IsParent (P : Protocol C) (x y : ForkItem C) : Prop :=
  x.prev = some y.addr ∧ P.itemId y = x.previousId

theorem IsParent.num_eq {P : Protocol C} {x y : ForkItem C} (h : IsParent P x y) :
    x.num = y.num + 1 := by
  have hnum : y.num = x.previousId.num := congrArg BlockId.num h.2
  rw [hnum]
  rfl

/-- The invariant of the fork database. -/
structure WF (P : Protocol C) (f : ForkDatabase C) : Prop where
  /-- Different items are at different addresses. -/
  addr_inj : ∀ x ∈ f.alive, ∀ y ∈ f.alive, x.addr = y.addr → x = y
  /-- Addresses are given out in order. -/
  addr_lt : ∀ x ∈ f.alive, x.addr < f.nextAddr
  /-- No item points to one yet to come. -/
  prev_lt : ∀ x ∈ f.alive, ∀ a, x.prev = some a → a < f.nextAddr
  /-- An item points to the one its header names. -/
  prev_id : ∀ x ∈ f.alive, ∀ y ∈ f.alive, x.prev = some y.addr → P.itemId y = x.previousId
  /-- The index has every id once. -/
  index_inj : ∀ x ∈ f.index, ∀ y ∈ f.index, P.itemId x = P.itemId y → x = y

variable {P : Protocol C} {f f' : ForkDatabase C}

theorem wf_empty : (({} : ForkDatabase C)).WF P :=
  ⟨by simp [alive], by simp [alive], by simp [alive], by simp [alive], by simp⟩

theorem mem_alive {x : ForkItem C} : x ∈ f.alive ↔ x ∈ f.index ∨ f.head = some x ∨ x ∈ f.held := by
  simp [alive, Option.mem_toList]

/-- Letting go of items keeps the invariant. -/
theorem WF.mono (h : f.WF P) (hindex : ∀ x ∈ f'.index, x ∈ f.index)
    (halive : ∀ x ∈ f'.alive, x ∈ f.alive) (haddr : f'.nextAddr = f.nextAddr) : f'.WF P where
  addr_inj x hx y hy := h.addr_inj x (halive x hx) y (halive y hy)
  addr_lt x hx := haddr ▸ h.addr_lt x (halive x hx)
  prev_lt x hx := haddr ▸ h.prev_lt x (halive x hx)
  prev_id x hx y hy := h.prev_id x (halive x hx) y (halive y hy)
  index_inj x hx y hy := h.index_inj x (hindex x hx) y (hindex y hy)

theorem mem_prune {x : ForkItem C} {n : ℕ} : x ∈ (f.prune n).index ↔ x ∈ f.index ∧ n ≤ x.num := by
  simp [prune]

theorem alive_prune {x : ForkItem C} {n : ℕ} (h : x ∈ (f.prune n).alive) : x ∈ f.alive := by
  rw [mem_alive] at h ⊢
  exact h.imp_left fun h ↦ (mem_prune.1 h).1

theorem WF.prune (h : f.WF P) (n : ℕ) : (f.prune n).WF P :=
  h.mono (fun _ hx ↦ (mem_prune.1 hx).1) (fun _ hx ↦ alive_prune hx) rfl

theorem WF.setMaxSize (h : f.WF P) (s : ℕ) : (f.setMaxSize s).WF P := by
  rw [ForkDatabase.setMaxSize]
  have hs : ({ f with maxSize := s } : ForkDatabase C).WF P :=
    h.mono (fun _ hx ↦ hx) (fun _ hx ↦ hx) rfl
  split
  · exact hs
  · exact hs.prune _

theorem WF.setHead (h : f.WF P) {x : ForkItem C} (hx : x ∈ f.alive) : (f.setHead x).WF P := by
  refine h.mono (fun _ hy ↦ hy) (fun y hy ↦ ?_) rfl
  rw [mem_alive] at hy
  rcases hy with hy | hy | hy
  · exact mem_alive.2 (Or.inl hy)
  · obtain rfl := Option.some_inj.1 hy
    exact hx
  · exact mem_alive.2 (Or.inr (Or.inr hy))

theorem WF.remove (h : f.WF P) (id : BlockId C) : (f.remove P id).WF P := by
  have hsub : ∀ x ∈ (f.remove P id).index, x ∈ f.index := fun x hx ↦ (List.mem_filter.1 hx).1
  refine h.mono hsub (fun x hx ↦ ?_) rfl
  rw [mem_alive] at hx ⊢
  exact hx.imp_left (hsub x)

theorem lock_eq_some {a : ℕ} {y : ForkItem C} (h : f.lock a = some y) :
    y ∈ f.alive ∧ y.addr = a :=
  ⟨List.mem_of_find?_eq_some h, by simpa using List.find?_some h⟩

theorem WF.lock_of_mem (h : f.WF P) {y : ForkItem C} (hy : y ∈ f.alive) :
    f.lock y.addr = some y := by
  cases hl : f.lock y.addr with
  | none => simpa using List.find?_eq_none.1 hl y hy
  | some z =>
    obtain ⟨hz, haddr⟩ := lock_eq_some hl
    rw [h.addr_inj z hz y hy haddr]

theorem WF.lockPrev_spec (h : f.WF P) {x y : ForkItem C} (hx : x ∈ f.alive)
    (hl : f.lockPrev x = some y) : y ∈ f.alive ∧ IsParent P x y := by
  obtain ⟨a, ha, hl⟩ := Option.bind_eq_some_iff.1 hl
  obtain ⟨hy, rfl⟩ := lock_eq_some hl
  exact ⟨hy, ha, h.prev_id x hx y hy ha⟩

theorem WF.lockPrev_of_isParent (h : f.WF P) {x y : ForkItem C} (hy : y ∈ f.alive)
    (hp : IsParent P x y) : f.lockPrev x = some y := by
  rw [lockPrev, hp.1]
  exact h.lock_of_mem hy

theorem WF.popBlock (h : f.WF P) (hpop : f.popBlock = some f') :
    f'.WF P ∧ ∃ x y, f.head = some x ∧ IsParent P x y ∧ y ∈ f.alive ∧
      f' = { f with head := some y } := by
  obtain ⟨x, hx, hpop⟩ := Option.bind_eq_some_iff.1 hpop
  obtain ⟨y, hy, hpop⟩ := Option.bind_eq_some_iff.1 hpop
  obtain rfl := Option.some_inj.1 hpop
  obtain ⟨hmem, hp⟩ := h.lockPrev_spec (mem_alive.2 (Or.inr (Or.inl hx))) hy
  exact ⟨h.setHead hmem, x, y, hx, hp, hmem, rfl⟩

theorem fetchBlock_eq_some {id : BlockId C} {x : ForkItem C} (h : f.fetchBlock P id = some x) :
    x ∈ f.index ∧ P.itemId x = id :=
  ⟨List.mem_of_find?_eq_some h, by simpa using List.find?_some h⟩

theorem WF.fetchBlock_of_mem (h : f.WF P) {x : ForkItem C} (hx : x ∈ f.index) :
    f.fetchBlock P (P.itemId x) = some x := by
  cases hf : f.fetchBlock P (P.itemId x) with
  | none => simpa using List.find?_eq_none.1 hf x hx
  | some y =>
    obtain ⟨hy, hid⟩ := fetchBlock_eq_some hf
    rw [h.index_inj y hy x hx hid]

/-- What the checks of `_push_block` let in. -/
theorem link_spec {b : SignedBlock C} {item : ForkItem C} (h : f.link P b = some item) :
    item.addr = f.nextAddr ∧ item.data = b ∧
      (∀ x, f.head = some x → x.num - f.maxSize < b.blockNum) ∧
      (item.prev = none ∧ (f.head = none ∨ b.previous = BlockId.zero C) ∨
        ∃ prev ∈ f.index, IsParent P item prev) := by
  rw [link] at h
  cases hhead : f.head with
  | none =>
    rw [hhead] at h
    obtain rfl := Option.some_inj.1 h
    exact ⟨rfl, rfl, by simp, Or.inl ⟨rfl, Or.inl rfl⟩⟩
  | some x =>
    simp only [hhead] at h
    split_ifs at h with hnum hprev
    · split at h
      · cases h
      · rename_i prev hfetch
        split_ifs at h
        obtain rfl := Option.some_inj.1 h
        obtain ⟨hmem, hid⟩ := fetchBlock_eq_some hfetch
        exact ⟨rfl, rfl, fun y hy ↦ Option.some_inj.1 hy ▸ hnum,
          Or.inr ⟨prev, hmem, rfl, hid⟩⟩
    · obtain rfl := Option.some_inj.1 h
      exact ⟨rfl, rfl, fun y hy ↦ Option.some_inj.1 hy ▸ hnum,
        Or.inl ⟨rfl, Or.inr (not_not.1 hprev)⟩⟩

/-- Adding a linked item keeps the invariant. -/
theorem WF.add (h : f.WF P) {item : ForkItem C} (haddr : item.addr = f.nextAddr)
    (hprev : ∀ a, item.prev = some a → ∃ y ∈ f.alive, y.addr = a ∧ IsParent P item y)
    (hnext : f'.nextAddr = f.nextAddr + 1)
    (halive : ∀ x ∈ f'.alive, x ∈ f.alive ∨ x = item)
    (hindex : ∀ x ∈ f'.index, x ∈ f.index ∨ x = item ∧ ∀ y ∈ f.index, P.itemId y ≠ P.itemId x) :
    f'.WF P where
  addr_inj x hx y hy hxy := by
    rcases halive x hx with hx | rfl <;> rcases halive y hy with hy | rfl
    · exact h.addr_inj x hx y hy hxy
    · have := h.addr_lt x hx
      omega
    · have := h.addr_lt y hy
      omega
    · rfl
  addr_lt x hx := by
    rcases halive x hx with hx | rfl
    · have := h.addr_lt x hx
      omega
    · omega
  prev_lt x hx a ha := by
    rcases halive x hx with hx | rfl
    · have := h.prev_lt x hx a ha
      omega
    · obtain ⟨y, hy, rfl, -⟩ := hprev a ha
      have := h.addr_lt y hy
      omega
  prev_id x hx y hy hxy := by
    rcases halive x hx with hx | rfl
    · rcases halive y hy with hy | rfl
      · exact h.prev_id x hx y hy hxy
      · have := h.prev_lt x hx _ hxy
        omega
    · obtain ⟨z, hz, hzy, hp⟩ := hprev _ hxy
      rcases halive y hy with hy | rfl
      · rw [← h.addr_inj z hz y hy hzy]
        exact hp.2
      · have := h.addr_lt z hz
        omega
  index_inj x hx y hy hxy := by
    rcases hindex x hx with hx | ⟨rfl, hx⟩ <;> rcases hindex y hy with hy | ⟨rfl, hy⟩
    · exact h.index_inj x hx y hy hxy
    · exact absurd hxy (hy x hx)
    · exact absurd hxy.symm (hx y hy)
    · rfl

/-- What becomes too old when `b` is pushed onto `f`. -/
def bound (f : ForkDatabase C) (b : SignedBlock C) : ℕ :=
  match f.head with
  | none => 0
  | some h => if b.blockNum > h.num then b.blockNum - f.maxSize else 0

/-- **What `push_block` does when it does not throw.** -/
theorem pushBlock_spec {b : SignedBlock C} (h : f.pushBlock P b = some f') :
    ∃ item, f.link P b = some item ∧
      (∀ x, x ∈ f'.index ↔
        (x ∈ f.index ∨ x = item ∧ f.fetchBlock P (P.blockId b) = none) ∧ f.bound b ≤ x.num) ∧
      f'.maxSize = f.maxSize ∧ f'.held = f.held ∧ f'.nextAddr = f.nextAddr + 1 ∧
      (f'.head = some item ∧ (∀ x, f.head = some x → x.num < b.blockNum) ∨
        f'.head = f.head ∧ ∃ x, f.head = some x ∧ b.blockNum ≤ x.num) := by
  obtain ⟨item, hlink, rfl⟩ := Option.map_eq_some_iff.1 h
  obtain ⟨-, hdata, -⟩ := link_spec hlink
  have hid : P.itemId item = P.blockId b := congrArg P.blockId hdata
  have hnum : item.num = b.blockNum := congrArg SignedBlock.blockNum hdata
  have hinsert : ∀ x, x ∈ (f.insert P item).index ↔
      x ∈ f.index ∨ x = item ∧ f.fetchBlock P (P.blockId b) = none := by
    intro x
    simp only [ForkDatabase.insert, hid]
    cases f.fetchBlock P (P.blockId b) <;> simp
  have hhead : (f.insert P item).head = f.head := rfl
  refine ⟨item, hlink, ?_⟩
  rw [advance, hhead, bound]
  cases hcase : f.head with
  | none => exact ⟨by simpa using hinsert, rfl, rfl, rfl, Or.inl ⟨rfl, by simp⟩⟩
  | some x =>
    dsimp only
    rw [hnum]
    split_ifs with hlt
    · refine ⟨fun y ↦ ?_, rfl, rfl, rfl, Or.inl ⟨rfl, fun y hy ↦ Option.some_inj.1 hy ▸ hlt⟩⟩
      rw [mem_prune, ← hinsert]
      rfl
    · exact ⟨by simpa using hinsert, rfl, rfl, rfl, Or.inr ⟨hcase, x, rfl, not_lt.1 hlt⟩⟩

theorem WF.pushBlock (h : f.WF P) {b : SignedBlock C} (hpush : f.pushBlock P b = some f') :
    f'.WF P := by
  obtain ⟨item, hlink, hindex, -, hheld, hnext, hhead⟩ := pushBlock_spec hpush
  obtain ⟨haddr, hdata, -, hprev⟩ := link_spec hlink
  refine h.add haddr (fun a ha ↦ ?_) hnext (fun x hx ↦ ?_) (fun x hx ↦ ?_)
  · rcases hprev with ⟨hnone, -⟩ | ⟨y, hy, hp⟩
    · rw [hnone] at ha
      cases ha
    · exact ⟨y, mem_alive.2 (Or.inl hy), Option.some_inj.1 (hp.1.symm.trans ha), hp⟩
  · rcases mem_alive.1 hx with hx | hx | hx
    · rcases ((hindex x).1 hx).1 with hx | ⟨rfl, -⟩
      · exact Or.inl (mem_alive.2 (Or.inl hx))
      · exact Or.inr rfl
    · rcases hhead with ⟨hh, -⟩ | ⟨hh, -⟩
      · exact Or.inr (Option.some_inj.1 (hx.symm.trans hh))
      · exact Or.inl (mem_alive.2 (Or.inr (Or.inl (hh ▸ hx))))
    · exact Or.inl (mem_alive.2 (Or.inr (Or.inr (hheld ▸ hx))))
  · rcases ((hindex x).1 hx).1 with hx | ⟨rfl, hnone⟩
    · exact Or.inl hx
    · refine Or.inr ⟨rfl, fun y hy hxy ↦ ?_⟩
      rw [← hdata] at hnone
      exact List.find?_eq_none.1 hnone y hy (decide_eq_true hxy)

/-! ## Branches -/

/-- A branch, from the item with the id `tip` down. -/
structure IsBranch (P : Protocol C) (f : ForkDatabase C) (tip : BlockId C)
    (branch : List (ForkItem C)) : Prop where
  /-- It starts at its tip. -/
  head_eq : branch.head?.map P.itemId = some tip
  /-- Every item is followed by its parent. -/
  chain : branch.IsChain (IsParent P)
  /-- All of it is there. -/
  mem_alive : ∀ x ∈ branch, x ∈ f.alive

theorem WF.descend_spec (h : f.WF P) {num k : ℕ} {x y : ForkItem C} {branch : List (ForkItem C)}
    (hx : x ∈ f.alive) (hd : f.descend num k x = some (branch, y)) :
    (branch ++ [y]).head? = some x ∧ (branch ++ [y]).IsChain (IsParent P) ∧
      ∀ z ∈ branch ++ [y], z ∈ f.alive := by
  induction k generalizing x branch with
  | zero =>
    rw [descend] at hd
    obtain ⟨rfl, rfl⟩ := Prod.mk.inj (Option.some_inj.1 hd)
    exact ⟨rfl, List.isChain_singleton _, by simpa using hx⟩
  | succ k ih =>
    rw [descend] at hd
    split_ifs at hd with hlt
    · obtain ⟨prev, hprev, hd⟩ := Option.bind_eq_some_iff.1 hd
      obtain ⟨⟨branch', y'⟩, hd', heq⟩ := Option.bind_eq_some_iff.1 hd
      obtain ⟨rfl, rfl⟩ := Prod.mk.inj (Option.some_inj.1 heq)
      obtain ⟨hmem, hp⟩ := h.lockPrev_spec hx hprev
      obtain ⟨hhead, hchain, hall⟩ := ih hmem hd'
      refine ⟨rfl, ?_, ?_⟩
      · obtain ⟨t, ht⟩ := List.head?_eq_some_iff.1 hhead
        rw [ht] at hchain
        rw [List.cons_append, ht]
        exact List.isChain_cons_cons.2 ⟨hp, hchain⟩
      · exact List.forall_mem_cons.2 ⟨hx, hall⟩
    · obtain ⟨rfl, rfl⟩ := Prod.mk.inj (Option.some_inj.1 hd)
      exact ⟨rfl, List.isChain_singleton _, by simpa using hx⟩

/-- More fuel changes nothing: the height of the item is enough. -/
theorem WF.descend_fuel (h : f.WF P) {num k : ℕ} {x : ForkItem C} (hx : x ∈ f.alive)
    (hk : x.num ≤ k) : f.descend num k x = f.descend num x.num x := by
  induction k generalizing x with
  | zero => exact absurd hk (Nat.not_succ_le_zero _)
  | succ k ih =>
    obtain ⟨n, hn⟩ : ∃ n, x.num = n + 1 := ⟨_, rfl⟩
    rw [hn, descend, descend]
    cases hl : f.lockPrev x with
    | none => rfl
    | some prev =>
      obtain ⟨hmem, hp⟩ := h.lockPrev_spec hx hl
      have hnum := hp.num_eq
      obtain rfl : n = prev.num := by omega
      simp only [Option.bind_eq_bind, Option.bind_some]
      rw [ih hmem (by omega)]

theorem WF.descendBoth_fuel (h : f.WF P) {k : ℕ} {x y : ForkItem C} (hx : x ∈ f.alive)
    (hy : y ∈ f.alive) (hk : x.num ≤ k) : f.descendBoth k x y = f.descendBoth x.num x y := by
  induction k generalizing x y with
  | zero => exact absurd hk (Nat.not_succ_le_zero _)
  | succ k ih =>
    obtain ⟨n, hn⟩ : ∃ n, x.num = n + 1 := ⟨_, rfl⟩
    rw [hn, descendBoth, descendBoth]
    cases hl : f.lockPrev x with
    | none => rfl
    | some x' =>
      cases hl' : f.lockPrev y with
      | none => rfl
      | some y' =>
        obtain ⟨hmem, hp⟩ := h.lockPrev_spec hx hl
        obtain ⟨hmem', -⟩ := h.lockPrev_spec hy hl'
        have hnum := hp.num_eq
        obtain rfl : n = x'.num := by omega
        simp only [Option.bind_eq_bind, Option.bind_some]
        rw [ih hmem hmem' (by omega)]

theorem WF.descendBoth_spec (h : f.WF P) {k : ℕ} {x y : ForkItem C}
    {first second : List (ForkItem C)} (hx : x ∈ f.alive) (hy : y ∈ f.alive) (hk : x.num ≤ k)
    (hd : f.descendBoth k x y = some (first, second)) :
    (first.head? = some x ∧ first.IsChain (IsParent P) ∧ ∀ z ∈ first, z ∈ f.alive) ∧
      (second.head? = some y ∧ second.IsChain (IsParent P) ∧ ∀ z ∈ second, z ∈ f.alive) ∧
      first.getLast?.map ForkItem.previousId = second.getLast?.map ForkItem.previousId ∧
      first.length = second.length := by
  induction k generalizing x y first second with
  | zero => exact absurd hk (Nat.not_succ_le_zero _)
  | succ k ih =>
    rw [descendBoth] at hd
    split_ifs at hd with hne
    · obtain ⟨x', hx', hd⟩ := Option.bind_eq_some_iff.1 hd
      obtain ⟨y', hy', hd⟩ := Option.bind_eq_some_iff.1 hd
      obtain ⟨⟨first', second'⟩, hd', heq⟩ := Option.bind_eq_some_iff.1 hd
      obtain ⟨rfl, rfl⟩ := Prod.mk.inj (Option.some_inj.1 heq)
      obtain ⟨hmem, hp⟩ := h.lockPrev_spec hx hx'
      obtain ⟨hmem', hp'⟩ := h.lockPrev_spec hy hy'
      have hnum := hp.num_eq
      obtain ⟨⟨hf₁, hf₂, hf₃⟩, ⟨hs₁, hs₂, hs₃⟩, hlast, hlen⟩ := ih hmem hmem' (by omega) hd'
      obtain ⟨t, rfl⟩ := List.head?_eq_some_iff.1 hf₁
      obtain ⟨t', rfl⟩ := List.head?_eq_some_iff.1 hs₁
      refine ⟨⟨rfl, List.isChain_cons_cons.2 ⟨hp, hf₂⟩, List.forall_mem_cons.2 ⟨hx, hf₃⟩⟩,
        ⟨rfl, List.isChain_cons_cons.2 ⟨hp', hs₂⟩, List.forall_mem_cons.2 ⟨hy, hs₃⟩⟩, ?_,
        congrArg Nat.succ hlen⟩
      simpa using hlast
    · obtain ⟨rfl, rfl⟩ := Prod.mk.inj (Option.some_inj.1 hd)
      exact ⟨⟨rfl, List.isChain_singleton _, by simpa using hx⟩,
        ⟨rfl, List.isChain_singleton _, by simpa using hy⟩,
        congrArg some (not_not.1 hne), rfl⟩

theorem isBranch_append {above below : List (ForkItem C)} {x : ForkItem C} {tip : BlockId C}
    (htip : (above ++ [x]).head?.map P.itemId = some tip)
    (habove : (above ++ [x]).IsChain (IsParent P)) (habove' : ∀ z ∈ above ++ [x], z ∈ f.alive)
    (hhead : below.head? = some x) (hbelow : below.IsChain (IsParent P))
    (hbelow' : ∀ z ∈ below, z ∈ f.alive) : IsBranch P f tip (above ++ below) := by
  obtain ⟨t, rfl⟩ := List.head?_eq_some_iff.1 hhead
  refine ⟨?_, List.isChain_split.2 ⟨habove, hbelow⟩, fun z hz ↦ ?_⟩
  · rw [← htip]
    cases above <;> rfl
  · rcases List.mem_append.1 hz with hz | hz
    · exact habove' z (List.mem_append_left _ hz)
    · exact hbelow' z hz

/-- **The branches `fetch_branch_from` returns** start at the blocks asked for and end at blocks
with the same `previous`. -/
theorem WF.fetchBranchFrom_spec (h : f.WF P) {tip tip' : BlockId C}
    {first second : List (ForkItem C)}
    (hf : f.fetchBranchFrom P tip tip' = some (first, second)) :
    IsBranch P f tip first ∧ IsBranch P f tip' second ∧
      first.getLast?.map ForkItem.previousId = second.getLast?.map ForkItem.previousId := by
  obtain ⟨x, hx, hf⟩ := Option.bind_eq_some_iff.1 hf
  obtain ⟨y, hy, hf⟩ := Option.bind_eq_some_iff.1 hf
  obtain ⟨⟨above, x'⟩, hx', hf⟩ := Option.bind_eq_some_iff.1 hf
  obtain ⟨⟨above', y'⟩, hy', hf⟩ := Option.bind_eq_some_iff.1 hf
  obtain ⟨⟨below, below'⟩, hb, heq⟩ := Option.bind_eq_some_iff.1 hf
  obtain ⟨rfl, rfl⟩ := Prod.mk.inj (Option.some_inj.1 heq)
  obtain ⟨hxmem, rfl⟩ := fetchBlock_eq_some hx
  obtain ⟨hymem, rfl⟩ := fetchBlock_eq_some hy
  obtain ⟨hx₁, hx₂, hx₃⟩ := h.descend_spec (ForkDatabase.mem_alive.2 (Or.inl hxmem)) hx'
  obtain ⟨hy₁, hy₂, hy₃⟩ := h.descend_spec (ForkDatabase.mem_alive.2 (Or.inl hymem)) hy'
  obtain ⟨⟨hf₁, hf₂, hf₃⟩, ⟨hs₁, hs₂, hs₃⟩, hlast, -⟩ :=
    h.descendBoth_spec (hx₃ x' (by simp)) (hy₃ y' (by simp)) le_rfl hb
  refine ⟨isBranch_append (by rw [hx₁]; rfl) hx₂ hx₃ hf₁ hf₂ hf₃,
    isBranch_append (by rw [hy₁]; rfl) hy₂ hy₃ hs₁ hs₂ hs₃, ?_⟩
  obtain ⟨t, rfl⟩ := List.head?_eq_some_iff.1 hf₁
  obtain ⟨t', rfl⟩ := List.head?_eq_some_iff.1 hs₁
  rw [List.getLast?_append_of_ne_nil _ (List.cons_ne_nil _ _),
    List.getLast?_append_of_ne_nil _ (List.cons_ne_nil _ _)]
  exact hlast

end ForkDatabase

end Graphene
