import Graphene.Db.Code
import Mathlib.Data.List.Basic

/-!
# Two databases side by side

The same code runs on two databases: on one the undo database is enabled and a session is open, on
the other it is disabled but within proposals, which force a session.  The second has no objects in
one of the indexes, which the code does without.

A replay runs without undo, and yet has to come to the same as the run that it repeats.  The two can
be compared because the code never looks at the stack, and because a proposal that fails undoes what
it has done through the session that it has forced itself.

* `Indexes.hide`, `Code.Spares` — one index out of sight, and the code that does without it.
* `SideBySide` — the undo stacks: the same states for the sessions of the proposals that are being
  executed, and below them whatever there is.
* `Code.exec_alongside` — the two runs come to the same, provided that no proposal goes through on
  an empty stack.
-/

set_option autoImplicit false

namespace Graphene

variable {V : Type} {hidden : IndexId}

/-! ## Hiding an index -/

/-- All but the objects of one index, the counter of which is put back to zero. -/
def Indexes.hide (hidden : IndexId) (ix : Indexes V) : Indexes V where
  objects id := if id.index = hidden then none else ix.objects id
  nextId i := if i = hidden then 0 else ix.nextId i

/-- The index an edit is about. -/
def Edit.index : Edit V → IndexId
  | .create index _ => index
  | .modify id _ => id.index
  | .remove id => id.index

/-- Code that neither looks at an index nor changes it. -/
def Code.Spares (hidden : IndexId) : Code V → Prop
  | done | throw => True
  | look k => (∀ ix, k (ix.hide hidden) = k ix) ∧ ∀ ix, (k ix).Spares hidden
  | edit e rest => e.index ≠ hidden ∧ rest.Spares hidden
  | setMaxSize _ rest => rest.Spares hidden
  | attempt body rest => body.Spares hidden ∧ ∀ ok, (rest ok).Spares hidden
  | proposal body rest => body.Spares hidden ∧ ∀ ok, (rest ok).Spares hidden

namespace Indexes

variable {ix : Indexes V} {id : ObjectId}

theorem objects_hide (h : id.index ≠ hidden) : (ix.hide hidden).objects id = ix.objects id :=
  if_neg h

theorem nextId_hide {i : IndexId} (h : i ≠ hidden) : (ix.hide hidden).nextId i = ix.nextId i :=
  if_neg h

theorem hide_update (ix : Indexes V) (h : id.index ≠ hidden) (obj : Option V) :
    ({ ix with objects := Function.update ix.objects id obj }).hide hidden =
      { ix.hide hidden with objects := Function.update (ix.hide hidden).objects id obj } := by
  simp only [hide, Indexes.mk.injEq, and_true]
  funext id'
  by_cases hid : id' = id
  · subst hid
    simp [h]
  · simp [hid]

theorem hide_update_nextId (ix : Indexes V) {i : IndexId} (h : i ≠ hidden) (next : ℕ) :
    (ix.setNextId i next).hide hidden = (ix.hide hidden).setNextId i next := by
  simp only [hide, setNextId, Indexes.mk.injEq, true_and]
  funext i'
  by_cases hi : i' = i
  · subst hi
    simp [h]
  · simp [hi]

theorem modify_hide (h : id.index ≠ hidden) (obj : V) :
    (ix.hide hidden).modify id obj = (ix.modify id obj).map (hide hidden) := by
  rw [modify, modify, objects_hide h]
  split_ifs
  · rw [Option.map_some, hide_update _ h]
  · rfl

theorem remove_hide (h : id.index ≠ hidden) :
    (ix.hide hidden).remove id = (ix.remove id).map (hide hidden) := by
  rw [remove, remove, objects_hide h]
  split_ifs
  · rw [Option.map_some, hide_update _ h]
  · rfl

theorem insert_hide (h : id.index ≠ hidden) (obj : V) :
    (ix.hide hidden).insert id obj = (ix.insert id obj).map (hide hidden) := by
  rw [insert, insert, objects_hide h]
  split_ifs
  · rfl
  · rw [Option.map_some, hide_update _ h]

theorem create_hide {i : IndexId} (h : i ≠ hidden) (obj : V) :
    (ix.hide hidden).create i obj = (ix.create i obj).map (hide hidden) := by
  simp only [create, nextId_hide h]
  have hid : (⟨i, ix.nextId i⟩ : ObjectId).index ≠ hidden := h
  rw [objects_hide hid]
  split_ifs
  · rfl
  · have hobjects := hide_update ix hid (some obj)
    have hnext := hide_update_nextId ix h (ix.nextId i + 1)
    simp only [hide, setNextId, Indexes.mk.injEq, and_true, true_and] at hobjects hnext
    simp only [Option.map_some, hide, hobjects, hnext]

end Indexes

theorem Edit.eval_hide {e : Edit V} (h : e.index ≠ hidden) (ix : Indexes V) :
    e.eval (ix.hide hidden) = (e.eval ix).map (Indexes.hide hidden) := by
  cases e with
  | create i obj => exact Indexes.create_hide h obj
  | modify id obj => exact Indexes.modify_hide h obj
  | remove id => exact Indexes.remove_hide h

theorem Edit.record_hide {e : Edit V} (h : e.index ≠ hidden) (ix : Indexes V) :
    e.record (ix.hide hidden) = e.record ix := by
  funext state
  cases e with
  | create i obj => rw [record, record, Indexes.nextId_hide (show i ≠ hidden from h)]
  | modify id obj => rw [record, record, Indexes.objects_hide h]
  | remove id => rw [record, record, Indexes.objects_hide h]

/-- An edit of the hidden index is not seen. -/
theorem Edit.hide_eval {e : Edit V} (h : e.index = hidden) {ix ix' : Indexes V}
    (heval : e.eval ix = some ix') : ix'.hide hidden = ix.hide hidden := by
  have hobjects (id : ObjectId) (hid : id.index = hidden) (obj : Option V) :
      ({ ix with objects := Function.update ix.objects id obj }).hide hidden = ix.hide hidden := by
    simp only [Indexes.hide, Indexes.mk.injEq, and_true]
    funext id'
    by_cases heq : id' = id
    · simp [heq, hid]
    · simp [heq]
  cases e with
  | create i obj =>
    rw [eval, Indexes.create] at heval
    split_ifs at heval
    obtain rfl := Option.some_inj.1 heval
    simp only [Indexes.hide, Indexes.mk.injEq]
    constructor
    · have hnew := hobjects ⟨i, ix.nextId i⟩ h (some obj)
      exact congrArg Indexes.objects hnew
    · funext i'
      by_cases hi : i' = i
      · simp [hi, show i = hidden from h]
      · simp [hi]
  | modify id obj =>
    rw [eval, Indexes.modify] at heval
    split_ifs at heval
    obtain rfl := Option.some_inj.1 heval
    exact hobjects id h (some obj)
  | remove id =>
    rw [eval, Indexes.remove] at heval
    split_ifs at heval
    obtain rfl := Option.some_inj.1 heval
    exact hobjects id h none

/-! ## Undo states that do without an index -/

/-- An undo state in which an index does not occur. -/
structure UndoState.Spares (hidden : IndexId) (state : UndoState V) : Prop where
  /-- None of its objects was modified. -/
  oldValues : ∀ id ∈ state.oldValues, id.index ≠ hidden
  /-- Its counter was not touched. -/
  oldIndexNextIds : ∀ i ∈ state.oldIndexNextIds, i ≠ hidden
  /-- None of its objects was created. -/
  newIds : ∀ id ∈ state.newIds, id.index ≠ hidden
  /-- None of its objects was removed. -/
  removed : ∀ id ∈ state.removed, id.index ≠ hidden

namespace UndoState

variable {state prev : UndoState V} {id : ObjectId}

theorem spares_empty : ({} : UndoState V).Spares hidden where
  oldValues id h := absurd h (AList.notMem_empty id)
  oldIndexNextIds i h := absurd h (AList.notMem_empty i)
  newIds id h := absurd h (AList.notMem_empty id)
  removed id h := absurd h (AList.notMem_empty id)

theorem forall_mem_insert {ι β : Type} [DecidableEq ι] {P : ι → Prop} {s : AList fun _ : ι ↦ β}
    {i : ι} {b : β} (hs : ∀ j ∈ s, P j) (hi : P i) : ∀ j ∈ s.insert i b, P j := by
  intro j hj
  rcases (AList.mem_insert s).1 hj with rfl | hj
  · exact hi
  · exact hs j hj

theorem forall_mem_erase {ι β : Type} [DecidableEq ι] {P : ι → Prop} {s : AList fun _ : ι ↦ β}
    {i : ι} (hs : ∀ j ∈ s, P j) : ∀ j ∈ s.erase i, P j :=
  fun j hj ↦ hs j (AList.mem_erase.1 hj).2

theorem Spares.onCreate (h : state.Spares hidden) (hid : id.index ≠ hidden) :
    (state.onCreate id).Spares hidden where
  oldValues := h.oldValues
  oldIndexNextIds := by
    rw [UndoState.onCreate]
    split_ifs
    · exact h.oldIndexNextIds
    · exact forall_mem_insert h.oldIndexNextIds hid
  newIds := forall_mem_insert h.newIds hid
  removed := h.removed

theorem Spares.onModify (h : state.Spares hidden) (hid : id.index ≠ hidden) (was : V) :
    (state.onModify id was).Spares hidden := by
  rw [UndoState.onModify]
  split_ifs
  · exact h
  · exact h
  · exact { h with oldValues := forall_mem_insert h.oldValues hid }

theorem Spares.onRemove (h : state.Spares hidden) (hid : id.index ≠ hidden) (was : V) :
    (state.onRemove id was).Spares hidden := by
  rw [UndoState.onRemove]
  by_cases hnew : id ∈ state.newIds
  · rw [if_pos hnew]
    exact { h with newIds := forall_mem_erase h.newIds }
  · rw [if_neg hnew]
    cases state.oldValues.lookup id with
    | some old =>
      exact { h with
        removed := forall_mem_insert h.removed hid
        oldValues := forall_mem_erase h.oldValues }
    | none =>
      dsimp only
      split_ifs
      · exact h
      · exact { h with removed := forall_mem_insert h.removed hid }

theorem Spares.mergeOldValue (h : prev.Spares hidden) (hid : id.index ≠ hidden) (was : V) :
    (prev.mergeOldValue id was).Spares hidden := by
  rw [UndoState.mergeOldValue]
  split_ifs
  · exact h
  · exact h
  · exact { h with oldValues := forall_mem_insert h.oldValues hid }

theorem Spares.mergeNextId (h : prev.Spares hidden) {i : IndexId} (hi : i ≠ hidden) (next : ℕ) :
    (prev.mergeNextId i next).Spares hidden := by
  rw [UndoState.mergeNextId]
  split_ifs
  · exact h
  · exact { h with oldIndexNextIds := forall_mem_insert h.oldIndexNextIds hi }

theorem Spares.mergeRemoved (h : prev.Spares hidden) (hid : id.index ≠ hidden) (was : V) :
    (prev.mergeRemoved id was).Spares hidden := by
  rw [UndoState.mergeRemoved]
  by_cases hnew : id ∈ prev.newIds
  · rw [if_pos hnew]
    exact { h with newIds := forall_mem_erase h.newIds }
  · rw [if_neg hnew]
    cases prev.oldValues.lookup id with
    | some old =>
      exact { h with
        removed := forall_mem_insert h.removed hid
        oldValues := forall_mem_erase h.oldValues }
    | none => exact { h with removed := forall_mem_insert h.removed hid }

theorem Spares.mergeNewId (h : prev.Spares hidden) (hid : id.index ≠ hidden) :
    (prev.mergeNewId id).Spares hidden :=
  { h with newIds := forall_mem_insert h.newIds hid }

theorem foldl_spares {ι : Type} {f : UndoState V → ι → UndoState V} (items : List ι)
    (hf : ∀ item ∈ items, ∀ prev : UndoState V, prev.Spares hidden → (f prev item).Spares hidden)
    (h : prev.Spares hidden) : (items.foldl f prev).Spares hidden := by
  induction items generalizing prev with
  | nil => exact h
  | cons item items ih =>
    exact ih (fun item' hmem ↦ hf item' (List.mem_cons_of_mem _ hmem))
      (hf item List.mem_cons_self prev h)

theorem Spares.mergeInto (hstate : state.Spares hidden) (hprev : prev.Spares hidden) :
    (state.mergeInto prev).Spares hidden := by
  have hold := foldl_spares state.oldValues.entries
    (f := fun p item ↦ p.mergeOldValue item.1 item.2) (fun item hmem p hp ↦
      hp.mergeOldValue (hstate.oldValues _ (List.mem_keys_of_mem hmem)) _) hprev
  have hnew := foldl_spares state.newIds.entries
    (f := fun p item ↦ p.mergeNewId item.1) (fun item hmem p hp ↦
      hp.mergeNewId (hstate.newIds _ (List.mem_keys_of_mem hmem))) hold
  have hnext := foldl_spares state.oldIndexNextIds.entries
    (f := fun p item ↦ p.mergeNextId item.1 item.2) (fun item hmem p hp ↦
      hp.mergeNextId (hstate.oldIndexNextIds _ (List.mem_keys_of_mem hmem)) _) hnew
  exact foldl_spares state.removed.entries
    (f := fun p item ↦ p.mergeRemoved item.1 item.2) (fun item hmem p hp ↦
      hp.mergeRemoved (hstate.removed _ (List.mem_keys_of_mem hmem)) _) hnext

theorem foldlM_hide {ι : Type} {f : Indexes V → ι → Option (Indexes V)} {items : List ι}
    (hf : ∀ item ∈ items, ∀ ix : Indexes V,
      f (ix.hide hidden) item = (f ix item).map (Indexes.hide hidden)) (ix : Indexes V) :
    items.foldlM f (ix.hide hidden) = (items.foldlM f ix).map (Indexes.hide hidden) := by
  induction items generalizing ix with
  | nil => rfl
  | cons item items ih =>
    rw [List.foldlM_cons, List.foldlM_cons, hf item List.mem_cons_self]
    cases f ix item with
    | none => rfl
    | some ix' => exact ih (fun item' hmem ↦ hf item' (List.mem_cons_of_mem _ hmem)) ix'

theorem foldl_setNextId_hide {items : List (Sigma fun _ : IndexId ↦ ℕ)}
    (hitems : ∀ item ∈ items, item.1 ≠ hidden) (ix : Indexes V) :
    items.foldl (fun ix item ↦ ix.setNextId item.1 item.2) (ix.hide hidden) =
      (items.foldl (fun ix item ↦ ix.setNextId item.1 item.2) ix).hide hidden := by
  induction items generalizing ix with
  | nil => rfl
  | cons item items ih =>
    rw [List.foldl_cons, List.foldl_cons,
      ← Indexes.hide_update_nextId ix (hitems item List.mem_cons_self)]
    exact ih (fun item' hmem ↦ hitems item' (List.mem_cons_of_mem _ hmem)) _

/-- Taking back a state that does without an index does without it. -/
theorem Spares.rewind_hide (h : state.Spares hidden) (ix : Indexes V) :
    state.rewind (ix.hide hidden) = (state.rewind ix).map (Indexes.hide hidden) := by
  simp only [rewind, Option.bind_eq_bind]
  rw [foldlM_hide (f := fun ix item ↦ ix.modify item.1 item.2) fun item hmem ix ↦
    Indexes.modify_hide (h.oldValues _ (List.mem_keys_of_mem hmem)) item.2]
  cases state.oldValues.entries.foldlM (fun ix item ↦ ix.modify item.1 item.2) ix with
  | none => rfl
  | some ix₁ =>
    simp only [Option.map_some, Option.bind_some]
    rw [foldlM_hide (f := fun ix item ↦ ix.remove item.1) fun item hmem ix ↦
      Indexes.remove_hide (h.newIds _ (List.mem_keys_of_mem hmem))]
    cases state.newIds.entries.foldlM (fun ix item ↦ ix.remove item.1) ix₁ with
    | none => rfl
    | some ix₂ =>
      simp only [Option.map_some, Option.bind_some]
      rw [foldl_setNextId_hide fun item hmem ↦
        h.oldIndexNextIds _ (List.mem_keys_of_mem hmem)]
      exact foldlM_hide (fun item hmem ix ↦
        Indexes.insert_hide (h.removed _ (List.mem_keys_of_mem hmem)) item.2) _

end UndoState

theorem Edit.record_spares {e : Edit V} (he : e.index ≠ hidden) {state : UndoState V}
    (h : state.Spares hidden) (ix : Indexes V) : (e.record ix state).Spares hidden := by
  cases e with
  | create i obj => exact h.onCreate he
  | modify id obj =>
    rw [record]
    cases ix.objects id with
    | none => exact h
    | some was => exact h.onModify he was
  | remove id =>
    rw [record]
    cases ix.objects id with
    | none => exact h
    | some was => exact h.onRemove he was

/-! ## Undo stacks -/

/-- The undo stacks while `k` proposals are being executed one within the other: the same states for
the sessions of these, and below them whatever there is, on the second stack at least when `solid`;
or the same states altogether, once the bound on their number has dropped everything below. -/
inductive SideBySide (hidden : IndexId) (solid : Prop) (k : ℕ) :
    List (UndoState V) → List (UndoState V) → Prop
  /-- Something is left below. -/
  | own {own below below' : List (UndoState V)} (hlength : own.length = k)
    (hown : ∀ state ∈ own, state.Spares hidden) (hbelow : below ≠ [])
    (hsolid : solid → below' ≠ []) :
    SideBySide hidden solid k (own ++ below) (own ++ below')
  /-- Nothing is left below. -/
  | same {stack : List (UndoState V)} (hk : k ≠ 0) (hne : stack ≠ [])
    (hstack : ∀ state ∈ stack, state.Spares hidden) : SideBySide hidden solid k stack stack

namespace SideBySide

variable {solid : Prop} {k : ℕ} {l l' : List (UndoState V)}

theorem of_ne_nil (hl : l ≠ []) (hl' : solid → l' ≠ []) : SideBySide hidden solid 0 l l' :=
  @own V hidden solid 0 [] l l' rfl (fun _ h ↦ absurd h List.not_mem_nil) hl hl'

theorem ne_nil (h : SideBySide hidden solid k l l') : l ≠ [] := by
  cases h with
  | own _ _ hbelow _ => exact List.append_ne_nil_of_right_ne_nil _ hbelow
  | same _ hne _ => exact hne

/-- One proposal more is being executed. -/
theorem push (h : SideBySide hidden solid k l l') (n : ℕ) :
    SideBySide hidden solid (k + 1) ({} :: l.take n) ({} :: l'.take n) := by
  have hcons {states : List (UndoState V)} (hstates : ∀ state ∈ states, state.Spares hidden) :
      ∀ state ∈ {} :: states.take n, state.Spares hidden := by
    intro state hmem
    rcases List.mem_cons.1 hmem with rfl | hmem
    · exact UndoState.spares_empty
    · exact hstates state (List.mem_of_mem_take hmem)
  cases h with
  | @own own below below' hlength hown hbelow hsolid =>
    rcases Nat.lt_or_ge own.length n with hlt | hge
    · have htake (below : List (UndoState V)) :
          {} :: (own ++ below).take n = ({} :: own) ++ below.take (n - own.length) := by
        rw [List.take_append, List.take_of_length_le hlt.le, List.cons_append]
      have hne {below : List (UndoState V)} (hbelow : below ≠ []) :
          below.take (n - own.length) ≠ [] := by
        rw [Ne, List.take_eq_nil_iff]
        rintro (h0 | h0)
        · omega
        · exact hbelow h0
      rw [htake, htake]
      refine .own (by rw [List.length_cons, hlength]) ?_ (hne hbelow) fun h ↦ hne (hsolid h)
      have hown' := hcons hown
      rwa [List.take_of_length_le hlt.le] at hown'
    · rw [List.take_append_of_le_length hge, List.take_append_of_le_length hge]
      exact .same k.succ_ne_zero (List.cons_ne_nil _ _) (hcons hown)
  | same hk hne hstack =>
    exact .same k.succ_ne_zero (List.cons_ne_nil _ _) (hcons hstack)

/-- A change is written down in the state on top. -/
theorem record (h : SideBySide hidden solid k l l') (hk : k ≠ 0) {f : UndoState V → UndoState V}
    (hf : ∀ state, state.Spares hidden → (f state).Spares hidden) :
    ∃ state rest rest', l = state :: rest ∧ l' = state :: rest' ∧
      SideBySide hidden solid k (f state :: rest) (f state :: rest') := by
  have hcons {state : UndoState V} {states : List (UndoState V)}
      (hstates : ∀ s ∈ state :: states, s.Spares hidden) :
      ∀ s ∈ f state :: states, s.Spares hidden := by
    intro s hmem
    rcases List.mem_cons.1 hmem with rfl | hmem
    · exact hf state (hstates state List.mem_cons_self)
    · exact hstates s (List.mem_cons_of_mem _ hmem)
  cases h with
  | @own own below below' hlength hown hbelow hsolid =>
    cases own with
    | nil => exact absurd hlength.symm hk
    | cons state own =>
      refine ⟨state, own ++ below, own ++ below', rfl, rfl, ?_⟩
      exact @SideBySide.own V hidden solid k (f state :: own) below below' hlength (hcons hown)
        hbelow hsolid
  | same hk' hne hstack =>
    cases l with
    | nil => exact absurd rfl hne
    | cons state rest =>
      exact ⟨state, rest, rest, rfl, rfl, .same hk' (List.cons_ne_nil _ _) (hcons hstack)⟩

/-- The state on top is merged into the one below it, if there is one, as there is on both stacks or
on neither. -/
theorem merge (h : SideBySide hidden solid (k + 1) l l') (hk : k = 0 → solid) :
    (∃ state, l = [state] ∧ l' = [state]) ∨
    ∃ state prev prev' rest rest', l = state :: prev :: rest ∧ l' = state :: prev' :: rest' ∧
      SideBySide hidden solid k (state.mergeInto prev :: rest)
        (state.mergeInto prev' :: rest') := by
  have hcons {state prev : UndoState V} {states : List (UndoState V)}
      (hstates : ∀ s ∈ state :: prev :: states, s.Spares hidden) :
      ∀ s ∈ state.mergeInto prev :: states, s.Spares hidden := by
    intro s hmem
    rcases List.mem_cons.1 hmem with rfl | hmem
    · exact (hstates state List.mem_cons_self).mergeInto (hstates prev (by simp))
    · exact hstates s (by simp [hmem])
  cases h with
  | @own own below below' hlength hown hbelow hsolid =>
    match own, hlength with
    | [state], hlength =>
      obtain rfl : k = 0 := by simpa using hlength.symm
      obtain ⟨prev, rest, rfl⟩ := List.exists_cons_of_ne_nil hbelow
      obtain ⟨prev', rest', rfl⟩ := List.exists_cons_of_ne_nil (hsolid (hk rfl))
      exact Or.inr ⟨state, prev, prev', rest, rest', rfl, rfl,
        of_ne_nil (List.cons_ne_nil _ _) fun _ ↦ List.cons_ne_nil _ _⟩
    | state :: prev :: own, hlength =>
      refine Or.inr ⟨state, prev, prev, own ++ below, own ++ below', rfl, rfl, ?_⟩
      exact @SideBySide.own V hidden solid k (state.mergeInto prev :: own) below below'
        (by simpa using hlength) (hcons hown) hbelow hsolid
  | same _ hne hstack =>
    match l, hne with
    | [state], _ => exact Or.inl ⟨state, rfl, rfl⟩
    | state :: prev :: rest, _ =>
      refine Or.inr ⟨state, prev, prev, rest, rest, rfl, rfl, ?_⟩
      cases k with
      | zero => exact of_ne_nil (List.cons_ne_nil _ _) fun _ ↦ List.cons_ne_nil _ _
      | succ k => exact .same k.succ_ne_zero (List.cons_ne_nil _ _) (hcons hstack)

/-- The state on top is taken back; a stack that has become empty gets an empty state. -/
theorem pop (h : SideBySide hidden solid (k + 1) l l') :
    ∃ state rest rest', l = state :: rest ∧ l' = state :: rest' ∧ state.Spares hidden ∧
      SideBySide hidden solid k (if rest.isEmpty then [{}] else rest)
        (if rest'.isEmpty then [{}] else rest') := by
  have hbase {rest : List (UndoState V)} : (if rest.isEmpty then [{}] else rest) ≠ [] := by
    split_ifs with hempty
    · exact List.cons_ne_nil _ _
    · rintro rfl
      exact hempty rfl
  cases h with
  | @own own below below' hlength hown hbelow hsolid =>
    cases own with
    | nil => exact absurd hlength (by simp)
    | cons state own =>
      refine ⟨state, own ++ below, own ++ below', rfl, rfl, hown state List.mem_cons_self, ?_⟩
      cases k with
      | zero => exact of_ne_nil hbase fun _ ↦ hbase
      | succ k =>
        have hown' : own ≠ [] := by
          rintro rfl
          simp at hlength
        rw [if_neg (by simp [hown']), if_neg (by simp [hown'])]
        exact .own (by simpa using hlength) (fun s hs ↦ hown s (List.mem_cons_of_mem _ hs)) hbelow
          hsolid
  | same _ hne hstack =>
    cases l with
    | nil => exact absurd rfl hne
    | cons state rest =>
      refine ⟨state, rest, rest, rfl, rfl, hstack state List.mem_cons_self, ?_⟩
      cases k with
      | zero => exact of_ne_nil hbase fun _ ↦ hbase
      | succ k =>
        refine .same k.succ_ne_zero hbase fun s hs ↦ ?_
        split_ifs at hs
        · obtain rfl := List.mem_singleton.1 hs
          exact UndoState.spares_empty
        · exact hstack s (List.mem_cons_of_mem _ hs)

theorem mono {solid' : Prop} (h : SideBySide hidden solid' k l l') (hs : solid → solid') :
    SideBySide hidden solid k l l' := by
  cases h with
  | own hlength hown hbelow hsolid => exact .own hlength hown hbelow fun h ↦ hsolid (hs h)
  | same hk hne hstack => exact .same hk hne hstack

theorem solid_ne_nil (h : SideBySide hidden solid k l l') (hs : solid) : l' ≠ [] := by
  cases h with
  | own _ _ _ hsolid => exact List.append_ne_nil_of_right_ne_nil _ (hsolid hs)
  | same _ hne _ => exact hne

end SideBySide

/-! ## Databases -/

/-- Two databases while `k` proposals are being executed one within the other. -/
structure Alongside (hidden : IndexId) (solid : Prop) (k : ℕ) (db db' : ObjectDatabase V) :
    Prop where
  /-- The same objects, less those of the hidden index. -/
  indexes_eq : db'.indexes = db.indexes.hide hidden
  /-- The first undo database is enabled. -/
  enabled : db.undoDb.disabled = false
  /-- The second is disabled but for the proposals. -/
  disabled_eq : db'.undoDb.disabled = decide (k = 0)
  /-- The same bound on the number of states. -/
  maxSize_eq : db'.undoDb.maxSize = db.undoDb.maxSize
  /-- The sessions of the proposals count on the first. -/
  le_active : k ≤ db.undoDb.activeSessions
  /-- They count on the second. -/
  le_active' : k ≤ db'.undoDb.activeSessions
  /-- The undo stacks. -/
  stack : SideBySide hidden solid k db.undoDb.stack db'.undoDb.stack

namespace Alongside

variable {solid : Prop} {k : ℕ} {db db' : ObjectDatabase V}

theorem recordIn (h : Alongside hidden solid k db db') {f : UndoState V → UndoState V}
    (hf : ∀ state, state.Spares hidden → (f state).Spares hidden) (ix : Indexes V) :
    Alongside hidden solid k ⟨ix, db.undoDb.recordIn f⟩
      ⟨ix.hide hidden, db'.undoDb.recordIn f⟩ := by
  have hstack : SideBySide hidden solid k (db.undoDb.recordIn f).stack
      (db'.undoDb.recordIn f).stack ∧ (db.undoDb.recordIn f).disabled = false ∧
      (db'.undoDb.recordIn f).disabled = decide (k = 0) := by
    simp only [UndoDatabase.recordIn, h.enabled, h.disabled_eq]
    by_cases hk : k = 0
    · subst hk
      have hne : ∃ state rest, db.undoDb.stack = state :: rest :=
        List.exists_cons_of_ne_nil h.stack.ne_nil
      obtain ⟨state, rest, heq⟩ := hne
      simp only [heq, Bool.false_eq_true, if_false, decide_true, if_true]
      exact ⟨.of_ne_nil (List.cons_ne_nil _ _) h.stack.solid_ne_nil, trivial, h.disabled_eq⟩
    · obtain ⟨state, rest, rest', heq, heq', hrecord⟩ := h.stack.record hk hf
      have hnot : decide (k = 0) = false := decide_eq_false hk
      simp only [heq, heq', hnot, Bool.false_eq_true, if_false]
      exact ⟨hrecord, trivial, trivial⟩
  exact {
    indexes_eq := rfl
    enabled := hstack.2.1
    disabled_eq := hstack.2.2
    maxSize_eq := by simp [h.maxSize_eq]
    le_active := by simpa using h.le_active
    le_active' := by simpa using h.le_active'
    stack := hstack.1 }

/-- **An edit** of an index that is not hidden. -/
theorem edit (h : Alongside hidden solid k db db') {e : Edit V} (he : e.index ≠ hidden) :
    Option.Rel (Alongside hidden solid k) (e.exec db) (e.exec db') := by
  rw [e.exec_eq, e.exec_eq, h.indexes_eq, Edit.eval_hide he, Edit.record_hide he]
  cases e.eval db.indexes with
  | none => exact .none
  | some ix => exact .some (h.recordIn (fun state hs ↦ Edit.record_spares he hs _) ix)

/-- An edit of the hidden index, on the first database alone. -/
theorem edit_hidden (h : Alongside hidden solid 0 db db') {e : Edit V} (he : e.index = hidden)
    {db₁ : ObjectDatabase V} (hexec : e.exec db = some db₁) :
    Alongside hidden solid 0 db₁ db' := by
  rw [e.exec_eq] at hexec
  obtain ⟨ix, hix, rfl⟩ := Option.map_eq_some_iff.1 hexec
  obtain ⟨state, rest, heq⟩ := List.exists_cons_of_ne_nil h.stack.ne_nil
  have hrecord : db.undoDb.recordIn (e.record db.indexes) =
      { db.undoDb with stack := e.record db.indexes state :: rest } := by
    simp only [UndoDatabase.recordIn, h.enabled, heq]
    rfl
  rw [hrecord]
  exact {
    indexes_eq := h.indexes_eq.trans (Edit.hide_eval he hix).symm
    enabled := h.enabled
    disabled_eq := h.disabled_eq
    maxSize_eq := h.maxSize_eq
    le_active := h.le_active
    le_active' := h.le_active'
    stack := .of_ne_nil (List.cons_ne_nil _ _) h.stack.solid_ne_nil }

/-- **The session of a proposal starts**; on the second database it is the first that enables the
undo database, and that is to disable it again. -/
theorem start (h : Alongside hidden solid k db db') :
    Alongside hidden solid (k + 1) (db.startUndoSession true).1 (db'.startUndoSession true).1 ∧
      (db.startUndoSession true).2 = {} ∧
      (db'.startUndoSession true).2 = { disableOnExit := decide (k = 0) } := by
  simp only [ObjectDatabase.startUndoSession, Bool.not_true, Bool.and_false, Bool.false_eq_true,
    if_false, Bool.and_true, h.enabled, h.disabled_eq, and_true]
  exact {
    indexes_eq := h.indexes_eq
    enabled := rfl
    disabled_eq := by simp [UndoDatabase.push]
    maxSize_eq := h.maxSize_eq
    le_active := Nat.succ_le_succ h.le_active
    le_active' := Nat.succ_le_succ h.le_active'
    stack := by
      show SideBySide hidden solid (k + 1) ({} :: db.undoDb.stack.take db.undoDb.maxSize)
        ({} :: db'.undoDb.stack.take db'.undoDb.maxSize)
      rw [h.maxSize_eq]
      exact h.stack.push _ }

/-- The destructor of the session disables the second undo database again, if the session is to. -/
theorem leave (hindexes : db'.indexes = db.indexes.hide hidden)
    (henabled : db.undoDb.disabled = false) (henabled' : db'.undoDb.disabled = false)
    (hmaxSize : db'.undoDb.maxSize = db.undoDb.maxSize) (hactive : k ≤ db.undoDb.activeSessions)
    (hactive' : k ≤ db'.undoDb.activeSessions)
    (hstack : SideBySide hidden solid k db.undoDb.stack db'.undoDb.stack) :
    Alongside hidden solid k db
      (if decide (k = 0) then { db' with undoDb := { db'.undoDb with disabled := true } }
        else db') := by
  by_cases hk : k = 0
  · rw [if_pos (decide_eq_true hk)]
    exact ⟨hindexes, henabled, (decide_eq_true hk).symm, hmaxSize, hactive, hactive', hstack⟩
  · rw [if_neg (by simpa using hk)]
    exact ⟨hindexes, henabled, henabled'.trans (decide_eq_false hk).symm, hmaxSize, hactive,
      hactive', hstack⟩

/-- **A session is undone** by its destructor. -/
theorem destroy (h : Alongside hidden solid (k + 1) db db') :
    Option.Rel (Alongside hidden solid k) (({} : Session).destroy db)
      (({ disableOnExit := decide (k = 0) } : Session).destroy db') := by
  obtain ⟨state, rest, rest', heq, heq', hspares, hpop⟩ := h.stack.pop
  have hactive : db.undoDb.activeSessions ≠ 0 := by
    have := h.le_active
    omega
  have hactive' : db'.undoDb.activeSessions ≠ 0 := by
    have := h.le_active'
    omega
  simp only [Session.destroy, ObjectDatabase.undo, if_true, h.enabled, h.disabled_eq, hactive,
    hactive', heq, heq', h.indexes_eq, hspares.rewind_hide, if_false, Nat.succ_ne_zero,
    decide_false, Bool.false_eq_true]
  cases state.rewind db.indexes with
  | none => exact .none
  | some ix =>
    refine .some (leave rfl rfl rfl h.maxSize_eq ?_ ?_ hpop)
    · exact Nat.le_sub_one_of_lt h.le_active
    · exact Nat.le_sub_one_of_lt h.le_active'

/-- **A session ends**: it is merged on both databases, or undone on both. -/
theorem endSession (h : Alongside hidden solid (k + 1) db db') {ok : Bool}
    (hok : k = 0 → ok = true → solid) :
    Option.Rel (fun r r' ↦ r.1 = r'.1 ∧ Alongside hidden solid k r.2 r'.2)
      (Code.endSession ok {} db) (Code.endSession ok { disableOnExit := decide (k = 0) } db') := by
  have hundo : Option.Rel (fun r r' ↦ r.1 = r'.1 ∧ Alongside hidden solid k r.2 r'.2)
      ((({} : Session).destroy db).map (false, ·))
      ((({ disableOnExit := decide (k = 0) } : Session).destroy db').map (false, ·)) := by
    have hdestroy := h.destroy
    revert hdestroy
    generalize ({} : Session).destroy db = r
    generalize ({ disableOnExit := decide (k = 0) } : Session).destroy db' = r'
    intro hdestroy
    cases hdestroy with
    | none => exact .none
    | some hr => exact .some ⟨rfl, hr⟩
  cases ok with
  | false => exact hundo
  | true =>
    have hactive : db.undoDb.activeSessions ≠ 0 := by
      have := h.le_active
      omega
    have hactive' : db'.undoDb.activeSessions ≠ 0 := by
      have := h.le_active'
      omega
    rcases h.stack.merge (fun hk ↦ hok hk rfl) with
      ⟨state, heq, heq'⟩ | ⟨state, prev, prev', rest, rest', heq, heq', hmerge⟩
    · -- there is nothing to merge into
      simpa [Code.endSession, Session.merge, ObjectDatabase.merge, hactive, hactive', heq, heq']
        using hundo
    · simp only [Code.endSession, Session.merge, Session.destroy, ObjectDatabase.merge, if_true,
        hactive, hactive', heq, heq', if_false, Option.map_some, Bool.false_eq_true]
      refine .some ⟨rfl, leave h.indexes_eq h.enabled ?_ h.maxSize_eq ?_ ?_ hmerge⟩
      · exact h.disabled_eq.trans (decide_eq_false k.succ_ne_zero)
      · exact Nat.le_sub_one_of_lt h.le_active
      · exact Nat.le_sub_one_of_lt h.le_active'

end Alongside

/-! ## Code -/

/-- The results of two runs: both end the process, or both return or throw and leave databases side
by side. -/
abbrev Agree (hidden : IndexId) (solid : Prop) (k : ℕ) :
    Option (Bool × ObjectDatabase V) → Option (Bool × ObjectDatabase V) → Prop :=
  Option.Rel fun r r' ↦ r.1 = r'.1 ∧ Alongside hidden solid k r.2 r'.2

theorem Agree.bind {solid solid' : Prop} {k k' : ℕ} {r r' : Option (Bool × ObjectDatabase V)}
    (h : Agree hidden solid k r r')
    {f f' : Bool × ObjectDatabase V → Option (Bool × ObjectDatabase V)}
    (hf : ∀ ok db db', (ok, db) ∈ r → (ok, db') ∈ r' → Alongside hidden solid k db db' →
      Agree hidden solid' k' (f (ok, db)) (f' (ok, db'))) :
    Agree hidden solid' k' (r.bind f) (r'.bind f') := by
  cases h with
  | none => exact .none
  | @some x x' hx =>
    obtain ⟨ok, db⟩ := x
    obtain ⟨ok', db'⟩ := x'
    obtain ⟨rfl, hdb⟩ := hx
    exact hf ok db db' rfl rfl hdb

theorem Agree.mono {solid solid' : Prop} {k : ℕ} {r r' : Option (Bool × ObjectDatabase V)}
    (h : Agree hidden solid' k r r') (hs : solid → solid') : Agree hidden solid k r r' := by
  cases h with
  | none => exact .none
  | some hr => exact .some ⟨hr.1, { hr.2 with stack := hr.2.stack.mono hs }⟩

/-- **Code that does without the hidden index** comes to the same on both databases, unless a
proposal goes through on an empty stack of the second. -/
theorem Code.exec_alongside {c : Code V} (hc : c.Spares hidden) {solid : Prop} {k : ℕ}
    {db db' : ObjectDatabase V} (h : Alongside hidden solid k db db')
    (hsupported : k = 0 → c.Supported db') :
    Agree hidden solid k (c.exec db) (c.exec db') := by
  induction c generalizing solid k db db' with
  | done => exact .some ⟨rfl, h⟩
  | throw => exact .some ⟨rfl, h⟩
  | look f ih =>
    rw [exec, exec, h.indexes_eq, hc.1]
    refine ih _ (hc.2 _) h fun hk ↦ ?_
    have hf := hsupported hk
    rwa [Supported, h.indexes_eq, hc.1] at hf
  | edit e rest ih =>
    have hedit := h.edit hc.1
    simp only [exec]
    revert hedit hsupported
    simp only [Supported]
    cases e.exec db with
    | none =>
      intro hsupported hedit
      cases hexec : e.exec db' with
      | none => exact .some ⟨rfl, h⟩
      | some db₁' =>
        rw [hexec] at hedit
        cases hedit
    | some db₁ =>
      intro hsupported hedit
      cases hexec : e.exec db' with
      | none =>
        rw [hexec] at hedit
        cases hedit
      | some db₁' =>
        rw [hexec] at hedit
        cases hedit with
        | some hdb => exact ih hc.2 hdb fun hk ↦ hsupported hk _ hexec
  | setMaxSize size rest ih =>
    refine ih hc ?_ hsupported
    exact ⟨h.indexes_eq, h.enabled, h.disabled_eq, rfl, h.le_active, h.le_active', h.stack⟩
  | attempt body rest ihBody ihRest =>
    refine (ihBody hc.1 h fun hk ↦ (hsupported hk).1).bind fun ok db₁ db₁' _ hr' hdb ↦ ?_
    exact ihRest ok (hc.2 ok) hdb fun hk ↦ (hsupported hk).2 _ hr'
  | proposal body rest ihBody ihRest =>
    have hpush : Agree hidden solid k (pushProposal body.exec db) (pushProposal body.exec db') := by
      by_cases hk : k = 0
      · -- the stack of the second database is the issue, whatever is known of it
        subst hk
        have hstack : Alongside hidden (db'.undoDb.stack ≠ []) 0 db db' :=
          { h with stack := .of_ne_nil h.stack.ne_nil id }
        obtain ⟨hstart, hs, hs'⟩ := hstack.start
        have hagree : Agree hidden (db'.undoDb.stack ≠ []) 0 (pushProposal body.exec db)
            (pushProposal body.exec db') := by
          rw [pushProposal, pushProposal, hs, hs']
          refine (ihBody hc.1 hstart fun h ↦ absurd h (Nat.succ_ne_zero 0)).bind
            fun ok db₁ db₁' _ hr' hdb ↦ hdb.endSession fun _ hok hnil ↦ ?_
          have hfailed := (hsupported rfl).1 hnil _ hr'
          exact Bool.false_ne_true (hfailed.symm.trans hok)
        exact hagree.mono h.stack.solid_ne_nil
      · obtain ⟨hstart, hs, hs'⟩ := h.start
        rw [pushProposal, pushProposal, hs, hs']
        exact (ihBody hc.1 hstart fun h ↦ absurd h k.succ_ne_zero).bind
          fun ok db₁ db₁' _ _ hdb ↦ hdb.endSession fun h ↦ absurd h hk
    refine hpush.bind fun ok db₁ db₁' _ hr' hdb ↦ ?_
    exact ihRest ok (hc.2 ok) hdb fun hk ↦ (hsupported hk).2 _ hr'

/-! ## Code that does less -/

/-- `c'` does what `c` does if that returns, but for its changes of the hidden index. -/
inductive Code.Mirrors (hidden : IndexId) : Code V → Code V → Prop
  /-- Code that does without the hidden index. -/
  | same {c : Code V} (hc : c.Spares hidden) : Mirrors hidden c c
  /-- Code that throws. -/
  | throw (c' : Code V) : Mirrors hidden throw c'
  /-- A change of the hidden index. -/
  | edit {e : Edit V} {rest c' : Code V} (he : e.index = hidden) (h : Mirrors hidden rest c') :
    Mirrors hidden (edit e rest) c'
  /-- A look at the objects. -/
  | look {f f' : Indexes V → Code V} (h : ∀ ix, Mirrors hidden (f ix) (f' (ix.hide hidden))) :
    Mirrors hidden (look f) (look f')
  /-- One piece of code after another. -/
  | andThen {c c' next next' : Code V} (h : Mirrors hidden c c')
    (hnext : Mirrors hidden next next') : Mirrors hidden (c.andThen next) (c'.andThen next')

/-- **Code that does less** comes to the same, if what it does less of returns. -/
theorem Code.Mirrors.exec {c c' : Code V} (hc : Mirrors hidden c c') {solid : Prop}
    {db db' db₁ : ObjectDatabase V} (h : Alongside hidden solid 0 db db')
    (hsupported : c'.Supported db') (hexec : c.exec db = some (true, db₁)) :
    ∃ db₁', c'.exec db' = some (true, db₁') ∧ Alongside hidden solid 0 db₁ db₁' := by
  induction hc generalizing db db' db₁ with
  | same hc =>
    have hagree := exec_alongside hc h fun _ ↦ hsupported
    rw [hexec] at hagree
    revert hagree
    generalize Code.exec _ db' = r'
    intro hagree
    cases hagree with
    | @some _ x' hx =>
      obtain ⟨ok', db₁'⟩ := x'
      obtain ⟨rfl, hdb⟩ := hx
      exact ⟨db₁', rfl, hdb⟩
  | throw c' => cases hexec
  | @edit e rest c' he _ ih =>
    simp only [Code.exec] at hexec
    cases hedit : e.exec db with
    | none =>
      rw [hedit] at hexec
      cases hexec
    | some db₂ =>
      rw [hedit] at hexec
      exact ih (h.edit_hidden he hedit) hsupported hexec
  | look _ ih =>
    rw [Code.exec, h.indexes_eq]
    refine ih _ h ?_ hexec
    rwa [Supported, h.indexes_eq] at hsupported
  | @andThen c c' next next' _ _ ih ihNext =>
    obtain ⟨⟨ok, db₂⟩, hc, hnext⟩ := Option.bind_eq_some_iff.1 hexec
    cases ok with
    | false => cases hnext
    | true =>
      obtain ⟨db₂', hc', hdb⟩ := ih h hsupported.1 hc
      obtain ⟨db₁', hnext', hdb'⟩ := ihNext hdb (hsupported.2 _ hc') hnext
      refine ⟨db₁', ?_, hdb'⟩
      rw [Code.andThen, Code.exec, hc']
      exact hnext'

end Graphene
