import Graphene.Lib.Checkpoints
import Graphene.Lib.KeyedFold
import Graphene.Db.ObjectDatabase
import Mathlib.Order.Basic

/-!
# What the undo stack remembers

An undo state is a compressed copy of the indexes as they were when its session was started:
`UndoState.restore` reads that copy back out of the state and the current indexes, and
`ObjectDatabase.history` does so for the whole stack, newest first.  The results here say what
each operation of the undo database does to these copies:

* a mutator changes the indexes and no copy (`WF.create`, `WF.modify`, `WF.remove`);
* starting a session takes a copy (`WF.push`), `merge` forgets the newest (`WF.merge`), and `undo`
  and `popCommit` put the newest back and never get stuck doing so (`WF.undo`, `WF.popCommit`).

The invariant behind them is `UndoState.Coherent`.  It is mostly local: the comment in `merge`
gives every object one of four relationships to an undo state — new, upd, del or nop — and
`Mark.Fits` says which of them an object may have, given its current value.  The part that is not
local is that ids are never given out twice, which is what rules a removed object coming back as
a new one out of the case matrix of `merge`.
-/

set_option autoImplicit false

namespace Graphene

variable {V : Type}

/-! ## One object's relationship to an undo state -/

/-- An object's relationship to an undo state: whether it is in `new_ids`, and its entries in
`old_values` and `removed`. -/
structure Mark (V : Type) where
  /-- The id is in `new_ids`. -/
  isNew : Bool
  /-- The entry in `old_values`. -/
  was : Option V
  /-- The entry in `removed`. -/
  gone : Option V

/-- The relationship of the object `id` to `state`. -/
def UndoState.mark (state : UndoState V) (id : ObjectId) : Mark V :=
  ⟨decide (id ∈ state.newIds), state.oldValues.lookup id, state.removed.lookup id⟩

namespace Mark

/-- The value an undo gives the object, when its current value is `cur`. -/
def restore (m : Mark V) (cur : Option V) : Option V :=
  if m.isNew then none else m.was.or (m.gone.or cur)

/-- The relationships an object with current value `cur` can have: what is new or modified is
live, what is removed is not, and nothing is both new and modified. -/
def Fits (m : Mark V) (cur : Option V) : Prop :=
  (m.isNew = true → cur.isSome ∧ m.was = none) ∧ (m.was.isSome → cur.isSome) ∧
    (m.gone.isSome → cur = none)

/-- `on_create`. -/
def create (m : Mark V) : Mark V := { m with isNew := true }

/-- `on_modify` of an object with value `obj`. -/
def modify (m : Mark V) (obj : V) : Mark V :=
  if m.isNew then m else if m.was.isSome then m else { m with was := some obj }

/-- `on_remove` of an object with value `obj`. -/
def remove (m : Mark V) (obj : V) : Mark V :=
  if m.isNew then { m with isNew := false }
  else
    match m.was with
    | some was => { m with was := none, gone := some was }
    | none => if m.gone.isSome then m else { m with gone := some obj }

/-- The loop over `removed` in `merge`. -/
def mergeRemoved (m : Mark V) (obj : V) : Mark V :=
  if m.isNew then { m with isNew := false }
  else
    match m.was with
    | some was => { m with was := none, gone := some was }
    | none => { m with gone := some obj }

/-- The case matrix of `merge`: `prev`'s mark after the loops over `state`'s three containers. -/
def mergeInto (state prev : Mark V) : Mark V :=
  let prev := match state.was with
    | some was => prev.modify was
    | none => prev
  let prev := if state.isNew then prev.create else prev
  match state.gone with
  | some was => prev.mergeRemoved was
  | none => prev

theorem create_spec {m : Mark V} (h : m.Fits none) (hgone : m.gone = none) (obj : V) :
    m.create.Fits (some obj) ∧ m.create.restore (some obj) = m.restore none := by
  obtain ⟨n, w, g⟩ := m
  cases n <;> cases w <;> simp_all [Fits, create, restore]

theorem modify_spec {m : Mark V} {obj : V} (h : m.Fits (some obj)) (new : V) :
    (m.modify obj).Fits (some new) ∧
      (m.modify obj).restore (some new) = m.restore (some obj) := by
  obtain ⟨n, w, g⟩ := m
  cases n <;> cases w <;> cases g <;> simp_all [Fits, modify, restore]

theorem remove_spec {m : Mark V} {obj : V} (h : m.Fits (some obj)) :
    (m.remove obj).Fits none ∧ (m.remove obj).restore none = m.restore (some obj) := by
  obtain ⟨n, w, g⟩ := m
  cases n <;> cases w <;> cases g <;> simp_all [Fits, remove, restore]

theorem modify_isNew (m : Mark V) (obj : V) : (m.modify obj).isNew = m.isNew := by
  rw [modify]
  split_ifs <;> rfl

theorem isNew_of_remove {m : Mark V} {obj : V} (h : (m.remove obj).isNew = true) :
    m.isNew = true := by
  by_contra hn
  rw [remove, if_neg hn] at h
  cases hw : m.was with
  | some was => simp_all
  | none =>
    simp only [hw] at h
    split_ifs at h <;> simp_all

theorem isNew_of_mergeInto {state prev : Mark V} (h : (state.mergeInto prev).isNew = true) :
    state.isNew = true ∨ prev.isNew = true := by
  obtain ⟨n, w, g⟩ := state
  obtain ⟨n', w', g'⟩ := prev
  cases n <;> cases n' <;> cases w <;> cases w' <;> cases g <;>
    simp_all [mergeInto, modify, mergeRemoved]

/-- **The case matrix is the composition.**  The one hypothesis that is not about the two marks
alone excludes the cell "del + new". -/
theorem mergeInto_spec {state prev : Mark V} {cur : Option V} (h : state.Fits cur)
    (hp : prev.Fits (state.restore cur)) (hgone : state.isNew = true → prev.gone = none) :
    (state.mergeInto prev).Fits cur ∧
      (state.mergeInto prev).restore cur = prev.restore (state.restore cur) := by
  obtain ⟨n, w, g⟩ := state
  obtain ⟨n', w', g'⟩ := prev
  cases cur <;> cases n <;> cases w <;> cases g <;> cases n' <;> cases w' <;> cases g' <;>
    simp_all [Fits, restore, mergeInto, modify, create, mergeRemoved]

end Mark

/-! ## How the loops and the recorders act on marks -/

theorem UndoState.mark_onCreate (state : UndoState V) (id k : ObjectId) :
    (state.onCreate id).mark k = if k = id then (state.mark k).create else state.mark k := by
  by_cases hk : k = id
  · subst hk
    simp [onCreate, mark, Mark.create]
  · simp [onCreate, mark, hk]

theorem UndoState.mark_insert_oldValues (state : UndoState V) (id k : ObjectId) (obj : V) :
    { state with oldValues := state.oldValues.insert id obj }.mark k =
      if k = id then { state.mark k with was := some obj } else state.mark k := by
  by_cases hk : k = id
  · subst hk
    simp [mark]
  · simp [mark, hk]

theorem UndoState.mark_onModify (state : UndoState V) (id k : ObjectId) (obj : V) :
    (state.onModify id obj).mark k =
      if k = id then (state.mark k).modify obj else state.mark k := by
  by_cases hk : k = id
  · subst hk
    by_cases hn : k ∈ state.newIds
    · simp [onModify, mark, Mark.modify, hn]
    · by_cases ho : k ∈ state.oldValues
      · simp [onModify, mark, Mark.modify, hn, ho, AList.lookup_isSome.2 ho]
      · simp [onModify, mark, Mark.modify, hn, ho, AList.lookup_eq_none.2 ho]
  · rw [onModify]
    split_ifs
    · rfl
    · rfl
    · rw [mark_insert_oldValues, if_neg hk]

theorem UndoState.mark_onRemove (state : UndoState V) (id k : ObjectId) (obj : V) :
    (state.onRemove id obj).mark k =
      if k = id then (state.mark k).remove obj else state.mark k := by
  by_cases hn : id ∈ state.newIds
  · by_cases hk : k = id
    · subst hk
      simp [onRemove, mark, Mark.remove, hn]
    · simp [onRemove, mark, hn, hk]
  · cases ho : state.oldValues.lookup id with
    | some was =>
      by_cases hk : k = id
      · subst hk
        simp [onRemove, mark, Mark.remove, hn, ho]
      · simp [onRemove, mark, hn, ho, hk]
    | none =>
      by_cases hr : id ∈ state.removed
      · by_cases hk : k = id
        · subst hk
          simp [onRemove, mark, Mark.remove, hn, ho, hr, AList.lookup_isSome.2 hr]
        · simp [onRemove, hn, ho, hr, hk]
      · by_cases hk : k = id
        · subst hk
          simp [onRemove, mark, Mark.remove, hn, ho, hr, AList.lookup_eq_none.2 hr]
        · simp [onRemove, mark, hn, ho, hr, hk]

theorem UndoState.mark_mergeRemoved (prev : UndoState V) (id k : ObjectId) (obj : V) :
    (prev.mergeRemoved id obj).mark k =
      if k = id then (prev.mark k).mergeRemoved obj else prev.mark k := by
  by_cases hn : id ∈ prev.newIds
  · by_cases hk : k = id
    · subst hk
      simp [mergeRemoved, mark, Mark.mergeRemoved, hn]
    · simp [mergeRemoved, mark, hn, hk]
  · cases ho : prev.oldValues.lookup id with
    | some was =>
      by_cases hk : k = id
      · subst hk
        simp [mergeRemoved, mark, Mark.mergeRemoved, hn, ho]
      · simp [mergeRemoved, mark, hn, ho, hk]
    | none =>
      by_cases hk : k = id
      · subst hk
        simp [mergeRemoved, mark, Mark.mergeRemoved, hn, ho]
      · simp [mergeRemoved, mark, hn, ho, hk]

/-- `merge` composes the two states object by object, in the way its comment tabulates. -/
theorem UndoState.mark_mergeInto (state prev : UndoState V) (k : ObjectId) :
    (state.mergeInto prev).mark k = (state.mark k).mergeInto (prev.mark k) := by
  have hOld := KeyedFold.view_foldl UndoState.mark
    (fun (p : UndoState V) item ↦ p.mergeOldValue item.1 item.2)
    (fun p e k hk ↦ by
      change (p.onModify e.1 e.2).mark k = _
      rw [mark_onModify, if_neg (Ne.symm hk)])
    (fun _ was m ↦ m.modify was)
    (fun p e ↦ by
      change (p.onModify e.1 e.2).mark e.1 = _
      rw [mark_onModify, if_pos rfl])
    state.oldValues prev k
  have hNew := KeyedFold.view_foldl UndoState.mark
    (fun (p : UndoState V) item ↦ p.mergeNewId item.1)
    (fun p e k hk ↦ by simp [mergeNewId, mark, Ne.symm hk])
    (fun _ _ m ↦ m.create)
    (fun p e ↦ by simp [mergeNewId, mark, Mark.create])
    state.newIds
  have hNext : ∀ (l : List (Sigma fun _ : IndexId ↦ ℕ)) (p : UndoState V),
      (l.foldl (fun p item ↦ p.mergeNextId item.1 item.2) p).mark k = p.mark k := by
    intro l p
    refine List.foldlRecOn l _ (motive := fun q : UndoState V ↦ q.mark k = p.mark k) rfl
      fun q hq e _ ↦ ?_
    rw [← hq, mergeNextId]
    split_ifs <;> rfl
  have hRemoved := KeyedFold.view_foldl UndoState.mark
    (fun (p : UndoState V) item ↦ p.mergeRemoved item.1 item.2)
    (fun p e k hk ↦ by rw [mark_mergeRemoved, if_neg (Ne.symm hk)])
    (fun _ was m ↦ m.mergeRemoved was)
    (fun p e ↦ by rw [mark_mergeRemoved, if_pos rfl])
    state.removed
  rw [mergeInto, hRemoved, hNext, hNew, hOld, Mark.mergeInto]
  have hn : (state.mark k).isNew = (state.newIds.lookup k).isSome := by
    rw [Bool.eq_iff_iff, AList.lookup_isSome]
    exact decide_eq_true_iff
  rw [hn]
  simp only [mark]
  cases state.oldValues.lookup k <;> cases state.newIds.lookup k <;>
    cases state.removed.lookup k <;> rfl

theorem UndoState.lookup_mergeInto_oldIndexNextIds (state prev : UndoState V) (i : IndexId) :
    (state.mergeInto prev).oldIndexNextIds.lookup i =
      (prev.oldIndexNextIds.lookup i).or (state.oldIndexNextIds.lookup i) := by
  have keep : ∀ {β : ObjectId → Type} (l : List (Sigma β)) (f : UndoState V → Sigma β → UndoState V)
      (_ : ∀ p e, (f p e).oldIndexNextIds = p.oldIndexNextIds) (p : UndoState V),
      (l.foldl f p).oldIndexNextIds = p.oldIndexNextIds := by
    intro β l f hf p
    exact List.foldlRecOn l f
      (motive := fun q : UndoState V ↦ q.oldIndexNextIds = p.oldIndexNextIds)
      rfl fun q hq e _ ↦ (hf q e).trans hq
  have hNext := KeyedFold.view_foldl
    (fun (p : UndoState V) (j : IndexId) ↦ p.oldIndexNextIds.lookup j)
    (fun p item ↦ p.mergeNextId item.1 item.2)
    (fun p e j hj ↦ by
      simp only [mergeNextId]
      split_ifs
      · rfl
      · exact AList.lookup_insert_ne (Ne.symm hj))
    (fun _ next old ↦ old.or (some next))
    (fun p e ↦ by
      simp only [mergeNextId]
      split_ifs with h
      · obtain ⟨b, hb⟩ := Option.isSome_iff_exists.1 (AList.lookup_isSome.2 h)
        simp [hb]
      · rw [AList.lookup_eq_none.2 h]
        simp)
    state.oldIndexNextIds
  rw [mergeInto, keep state.removed.entries _ (fun p e ↦ ?_), hNext,
    keep state.newIds.entries (fun p item ↦ p.mergeNewId item.1) (fun _ _ ↦ rfl),
    keep state.oldValues.entries _ (fun p e ↦ ?_)]
  · cases state.oldIndexNextIds.lookup i <;> simp
  · rw [mergeOldValue]
    split_ifs <;> rfl
  · rw [mergeRemoved]
    split_ifs
    · rfl
    · split <;> rfl

/-! ## The copy an undo state stands for -/

/-- The indexes as they were when the recording of `state` began, given what they are now. -/
def UndoState.restore (state : UndoState V) (ix : Indexes V) : Indexes V where
  objects id := (state.mark id).restore (ix.objects id)
  nextId i := (state.oldIndexNextIds.lookup i).getD (ix.nextId i)

/-- `state` is a record of the way to `ix` from an earlier state of the same database. -/
structure UndoState.Coherent (state : UndoState V) (ix : Indexes V) : Prop where
  /-- Every object has one of the relationships the comment in `merge` lists. -/
  fits : ∀ id, (state.mark id).Fits (ix.objects id)
  /-- What is new was given an id the earlier state had not given out. -/
  new_ge : ∀ id, (state.mark id).isNew = true → (state.restore ix).nextId id.index ≤ id.inst
  /-- The `next_id`s only grew. -/
  next_le : ∀ i, (state.restore ix).nextId i ≤ ix.nextId i
  /-- The earlier state had its ids in order. -/
  fresh : (state.restore ix).Fresh

@[simp] theorem UndoState.mark_empty (id : ObjectId) :
    (({} : UndoState V).mark id) = ⟨false, none, none⟩ := by
  simp [mark]

@[simp] theorem UndoState.restore_empty (ix : Indexes V) :
    ({} : UndoState V).restore ix = ix := by
  simp [restore, Mark.restore]

theorem UndoState.coherent_empty {ix : Indexes V} (h : ix.Fresh) :
    ({} : UndoState V).Coherent ix where
  fits id := by simp [Mark.Fits]
  new_ge id h := by simp at h
  next_le i := by simp
  fresh := by simpa using h

/-! ## The loops of `undo` and `pop_commit` -/

/-- Give every object `m` has an entry for the value `f` makes of the entry. -/
def Indexes.writeAll {B : Type} (ix : Indexes V) (m : ObjectMap B) (f : B → Option V) :
    Indexes V :=
  { ix with objects := fun id ↦ (m.lookup id).elim (ix.objects id) f }

/-- A loop that writes one object for each entry of `m`, and refuses none of them. -/
theorem foldlM_write {B : Type} {f : B → Option V} {p : Option V → Prop}
    {stepM : Indexes V → (Sigma fun _ : ObjectId ↦ B) → Option (Indexes V)}
    (hok : ∀ ix item, p (ix.objects item.1) → stepM ix item =
      some { ix with objects := Function.update ix.objects item.1 (f item.2) })
    {m : ObjectMap B} {ix : Indexes V} (hm : ∀ id ∈ m, p (ix.objects id)) :
    m.entries.foldlM stepM ix = some (ix.writeAll m f) := by
  let view (ix : Indexes V) (id : ObjectId) := (ix.objects id, ix.nextId)
  let step (ix : Indexes V) (item : Sigma fun _ : ObjectId ↦ B) : Indexes V :=
    { ix with objects := Function.update ix.objects item.1 (f item.2) }
  have hLocal : KeyedFold.Local view step := by
    intro ix item k hk
    simp [view, step, Function.update_of_ne (Ne.symm hk)]
  have hView := KeyedFold.view_foldl view step hLocal (fun _ b l ↦ (f b, l.2))
    (fun ix item ↦ by simp [view, step]) m ix
  rw [KeyedFold.foldlM_eq_some hLocal (p := fun l ↦ p l.1) hok m ix hm, Option.some_inj]
  have hObjects : ∀ id, (m.entries.foldl step ix).objects id = (ix.writeAll m f).objects id := by
    intro id
    refine (congrArg Prod.fst (hView id)).trans ?_
    simp only [Indexes.writeAll]
    cases m.lookup id <;> rfl
  have hNext : (m.entries.foldl step ix).nextId = ix.nextId :=
    List.foldlRecOn m.entries step (motive := fun i : Indexes V ↦ i.nextId = ix.nextId) rfl
      fun _ h _ _ ↦ h
  rw [Indexes.mk.injEq]
  exact ⟨funext hObjects, hNext⟩

theorem foldl_setNextId (m : AList fun _ : IndexId ↦ ℕ) (ix : Indexes V) :
    m.entries.foldl (fun ix item ↦ ix.setNextId item.1 item.2) ix =
      { ix with nextId := fun i ↦ (m.lookup i).getD (ix.nextId i) } := by
  have hView := KeyedFold.view_foldl
    (fun (ix : Indexes V) (i : IndexId) ↦ ix.nextId i)
    (fun ix item ↦ ix.setNextId item.1 item.2)
    (fun ix item i hi ↦ by simp [Indexes.setNextId, Function.update_of_ne (Ne.symm hi)])
    (fun _ next _ ↦ next) (fun ix item ↦ by simp [Indexes.setNextId]) m ix
  have hObjects : (m.entries.foldl (fun ix item ↦ ix.setNextId item.1 item.2) ix).objects =
      ix.objects :=
    List.foldlRecOn m.entries _ (motive := fun i : Indexes V ↦ i.objects = ix.objects) rfl
      fun _ h _ _ ↦ h
  rw [Indexes.mk.injEq]
  refine ⟨hObjects, funext fun i ↦ (hView i).trans ?_⟩
  cases m.lookup i <;> rfl

/-- The loops of `undo` and `pop_commit` never refuse, and restore the copy. -/
theorem UndoState.rewind_eq {state : UndoState V} {ix : Indexes V} (h : state.Coherent ix) :
    state.rewind ix = some (state.restore ix) := by
  have hModify : state.oldValues.entries.foldlM (fun ix item ↦ ix.modify item.1 item.2) ix =
      some (ix.writeAll state.oldValues some) :=
    foldlM_write (p := fun o ↦ o.isSome) (fun ix item hs ↦ if_pos hs)
      fun id hid ↦ (h.fits id).2.1 (AList.lookup_isSome.2 hid)
  have hRemove : state.newIds.entries.foldlM (fun ix item ↦ ix.remove item.1)
        (ix.writeAll state.oldValues some) =
      some ((ix.writeAll state.oldValues some).writeAll state.newIds fun _ ↦ none) := by
    refine foldlM_write (f := fun _ : Unit ↦ none) (p := fun o ↦ o.isSome)
      (fun ix item hs ↦ if_pos hs) fun id hid ↦ ?_
    obtain ⟨hlive, hwas⟩ := (h.fits id).1 (decide_eq_true hid)
    have hwas : state.oldValues.lookup id = none := hwas
    simpa only [Indexes.writeAll, hwas, Option.elim_none] using hlive
  -- the third loop leaves the objects alone
  have hInsert (next : IndexId → ℕ) :
      state.removed.entries.foldlM (fun ix item ↦ ix.insert item.1 item.2)
          { ((ix.writeAll state.oldValues some).writeAll state.newIds fun _ ↦ none) with
            nextId := next } =
        some (Indexes.writeAll
          { ((ix.writeAll state.oldValues some).writeAll state.newIds fun _ ↦ none) with
            nextId := next } state.removed some) := by
    refine foldlM_write (p := fun o ↦ o = none)
      (fun ix item hn ↦ if_neg (by rw [hn]; exact Bool.false_ne_true)) fun id hid ↦ ?_
    have hdead := (h.fits id).2.2 (AList.lookup_isSome.2 hid)
    have hwas : state.oldValues.lookup id = none := by
      by_contra hne
      have := (h.fits id).2.1 (Option.isSome_iff_ne_none.2 hne)
      rw [hdead] at this
      exact Bool.false_ne_true this
    simp only [Indexes.writeAll, hwas, hdead, Option.elim_none]
    cases state.newIds.lookup id <;> rfl
  simp only [rewind, hModify, hRemove, foldl_setNextId, Option.bind_eq_bind, Option.bind_some]
  rw [hInsert, Option.some_inj, Indexes.mk.injEq]
  refine ⟨funext fun id ↦ ?_, rfl⟩
  have hfits := h.fits id
  have hn : (state.mark id).isNew = (state.newIds.lookup id).isSome := by
    rw [Bool.eq_iff_iff, AList.lookup_isSome]
    exact decide_eq_true_iff
  simp only [restore, Mark.restore, Mark.Fits, hn] at hfits ⊢
  simp only [mark, Indexes.writeAll] at hfits ⊢
  clear hModify hRemove hInsert hn
  cases hcur : ix.objects id <;> cases hnew : state.newIds.lookup id <;>
    cases hold : state.oldValues.lookup id <;> cases hgone : state.removed.lookup id <;>
    simp_all

/-! ## Recording keeps the copy -/

/-- Coherence passes from one record to another of the same copy, if the marks still fit. -/
theorem UndoState.Coherent.of_restore_eq {state state' : UndoState V} {ix ix' : Indexes V}
    (h : state.Coherent ix) (hr : state'.restore ix' = state.restore ix)
    (hfits : ∀ id, (state'.mark id).Fits (ix'.objects id))
    (hnew : ∀ id, (state'.mark id).isNew = true → (state.mark id).isNew = true ∨
      ix.nextId id.index ≤ id.inst)
    (hnext : ∀ i, ix.nextId i ≤ ix'.nextId i) : state'.Coherent ix' where
  fits := hfits
  new_ge id hid := by
    rw [hr]
    rcases hnew id hid with hn | hge
    · exact h.new_ge id hn
    · exact (h.next_le id.index).trans hge
  next_le i := by
    rw [hr]
    exact (h.next_le i).trans (hnext i)
  fresh := hr ▸ h.fresh

/-- A dead id at or past its index's `next_id` is nowhere in an undo state. -/
theorem UndoState.Coherent.mark_of_unused {state : UndoState V} {ix : Indexes V}
    (h : state.Coherent ix) {id : ObjectId} (hdead : ix.objects id = none)
    (hid : (state.restore ix).nextId id.index ≤ id.inst) : (state.mark id).gone = none := by
  by_contra hne
  obtain ⟨obj, hobj⟩ := Option.ne_none_iff_exists'.1 hne
  have hfits := h.fits id
  rw [hdead] at hfits
  have hn : (state.mark id).isNew = false := by
    by_contra hn
    have := (hfits.1 (by simpa using hn)).1
    simp at this
  have hw : (state.mark id).was = none := by
    by_contra hw
    have := hfits.2.1 (Option.isSome_iff_ne_none.2 hw)
    simp at this
  have hlive : ((state.restore ix).objects id).isSome := by
    simp [restore, Mark.restore, hn, hw, hobj]
  exact absurd (h.fresh id hlive) (not_lt.2 hid)

theorem UndoState.Coherent.onCreate {state : UndoState V} {ix : Indexes V}
    (h : state.Coherent ix) (hfresh : ix.Fresh) {index : IndexId} {obj : V} {ix' : Indexes V}
    (hc : ix.create index obj = some ix') :
    ((state.onCreate ⟨index, ix.nextId index⟩).Coherent ix') ∧
      (state.onCreate ⟨index, ix.nextId index⟩).restore ix' = state.restore ix := by
  set id : ObjectId := ⟨index, ix.nextId index⟩
  have hdead : ix.objects id = none := by
    by_contra hne
    exact absurd (hfresh id (Option.isSome_iff_ne_none.2 hne)) (lt_irrefl _)
  have hix' : ix' = { objects := Function.update ix.objects id (some obj)
                      nextId := Function.update ix.nextId index (ix.nextId index + 1) } := by
    rw [Indexes.create, if_neg (by rw [show ix.objects _ = none from hdead]; simp)] at hc
    exact (Option.some_inj.1 hc).symm
  have hspec := Mark.create_spec (hdead ▸ h.fits id)
    (h.mark_of_unused hdead (h.next_le index)) obj
  have hmark (k : ObjectId) : ((state.onCreate id).mark k).Fits (ix'.objects k) ∧
      ((state.onCreate id).mark k).restore (ix'.objects k) =
        (state.mark k).restore (ix.objects k) := by
    have hobj : ix'.objects k = Function.update ix.objects id (some obj) k := by rw [hix']
    rw [hobj, mark_onCreate]
    by_cases hk : k = id
    · rw [if_pos hk, hk, Function.update_self, hdead]
      exact hspec
    · rw [if_neg hk, Function.update_of_ne hk]
      exact ⟨h.fits k, rfl⟩
  have hr : (state.onCreate id).restore ix' = state.restore ix := by
    rw [restore, restore, Indexes.mk.injEq]
    refine ⟨funext fun k ↦ (hmark k).2, funext fun i ↦ ?_⟩
    simp only [UndoState.onCreate, hix']
    by_cases hi : i = index
    · subst hi
      split_ifs with hmem
      · obtain ⟨n, hn⟩ := Option.isSome_iff_exists.1 (AList.lookup_isSome.2 hmem)
        have hn : state.oldIndexNextIds.lookup i = some n := hn
        simp [hn]
      · have hn : state.oldIndexNextIds.lookup i = none := AList.lookup_eq_none.2 hmem
        rw [hn, AList.lookup_insert]
        rfl
    · split_ifs
      · rw [Function.update_of_ne hi]
      · rw [Function.update_of_ne hi, AList.lookup_insert_ne hi]
  refine ⟨h.of_restore_eq hr (fun k ↦ (hmark k).1) (fun k hk ↦ ?_) (fun i ↦ ?_), hr⟩
  · by_cases hki : k = id
    · subst hki
      exact Or.inr le_rfl
    · rw [mark_onCreate, if_neg hki] at hk
      exact Or.inl hk
  · rw [hix']
    by_cases hi : i = index
    · subst hi
      simp
    · simp [Function.update_of_ne hi]

/-- The common part of `onModify` and `onRemove`: one mark and one object change together. -/
theorem UndoState.Coherent.of_mark_eq {state state' : UndoState V} {ix : Indexes V}
    (h : state.Coherent ix) {id : ObjectId} {new : Option V} {m : Mark V}
    (hmark : ∀ k, state'.mark k = if k = id then m else state.mark k)
    (hnext : state'.oldIndexNextIds = state.oldIndexNextIds)
    (hm : m.Fits new ∧ m.restore new = (state.mark id).restore (ix.objects id))
    (hnew : m.isNew = true → (state.mark id).isNew = true) :
    state'.Coherent { ix with objects := Function.update ix.objects id new } ∧
      state'.restore { ix with objects := Function.update ix.objects id new } =
        state.restore ix := by
  have hmark' (k : ObjectId) : (state'.mark k).Fits (Function.update ix.objects id new k) ∧
      (state'.mark k).restore (Function.update ix.objects id new k) =
        (state.mark k).restore (ix.objects k) := by
    rw [hmark]
    by_cases hk : k = id
    · subst hk
      rw [if_pos rfl, Function.update_self]
      exact hm
    · rw [if_neg hk, Function.update_of_ne hk]
      exact ⟨h.fits k, rfl⟩
  have hr : state'.restore { ix with objects := Function.update ix.objects id new } =
      state.restore ix := by
    rw [restore, restore, Indexes.mk.injEq, hnext]
    exact ⟨funext fun k ↦ (hmark' k).2, rfl⟩
  refine ⟨h.of_restore_eq hr (fun k ↦ (hmark' k).1) (fun k hk ↦ ?_) (fun i ↦ le_rfl), hr⟩
  rw [hmark] at hk
  split_ifs at hk with hki
  · subst hki
    exact Or.inl (hnew hk)
  · exact Or.inl hk

theorem UndoState.Coherent.onModify {state : UndoState V} {ix : Indexes V}
    (h : state.Coherent ix) {id : ObjectId} {was : V} (hid : ix.objects id = some was) (obj : V) :
    (state.onModify id was).Coherent
        { ix with objects := Function.update ix.objects id (some obj) } ∧
      (state.onModify id was).restore
        { ix with objects := Function.update ix.objects id (some obj) } = state.restore ix := by
  refine h.of_mark_eq (m := (state.mark id).modify was) (fun k ↦ ?_) ?_ ?_ ?_
  · rw [mark_onModify]
    split_ifs with hk
    · rw [hk]
    · rfl
  · rw [UndoState.onModify]
    split_ifs <;> rfl
  · rw [hid]
    exact Mark.modify_spec (hid ▸ h.fits id) obj
  · rw [Mark.modify_isNew]
    exact fun hn ↦ hn

theorem UndoState.Coherent.onRemove {state : UndoState V} {ix : Indexes V}
    (h : state.Coherent ix) {id : ObjectId} {was : V} (hid : ix.objects id = some was) :
    (state.onRemove id was).Coherent
        { ix with objects := Function.update ix.objects id none } ∧
      (state.onRemove id was).restore
        { ix with objects := Function.update ix.objects id none } = state.restore ix := by
  refine h.of_mark_eq (m := (state.mark id).remove was) (fun k ↦ ?_) ?_ ?_ Mark.isNew_of_remove
  · rw [mark_onRemove]
    split_ifs with hk
    · rw [hk]
    · rfl
  · rw [UndoState.onRemove]
    split_ifs
    · rfl
    · split <;> rfl
    · split <;> rfl
  · rw [hid]
    exact Mark.remove_spec (hid ▸ h.fits id)

/-- **`merge` composes two records**: undoing the merged state is undoing one after the other. -/
theorem UndoState.Coherent.mergeInto {state prev : UndoState V} {ix : Indexes V}
    (h : state.Coherent ix) (hp : prev.Coherent (state.restore ix)) :
    (state.mergeInto prev).Coherent ix ∧
      (state.mergeInto prev).restore ix = prev.restore (state.restore ix) := by
  have hgone (k : ObjectId) (hk : (state.mark k).isNew = true) : (prev.mark k).gone = none := by
    refine hp.mark_of_unused ?_ ((hp.next_le k.index).trans (h.new_ge k hk))
    simp [restore, Mark.restore, hk]
  have hmark (k : ObjectId) := Mark.mergeInto_spec (h.fits k) (hp.fits k) (hgone k)
  have hr : (state.mergeInto prev).restore ix = prev.restore (state.restore ix) := by
    rw [restore, restore, Indexes.mk.injEq]
    refine ⟨funext fun k ↦ ?_, funext fun i ↦ ?_⟩
    · rw [mark_mergeInto]
      exact (hmark k).2
    · rw [lookup_mergeInto_oldIndexNextIds]
      simp only [restore]
      cases prev.oldIndexNextIds.lookup i <;> rfl
  constructor
  · refine ⟨fun k ↦ ?_, fun k hk ↦ ?_, fun i ↦ ?_, hr ▸ hp.fresh⟩
    · rw [mark_mergeInto]
      exact (hmark k).1
    · rw [hr]
      rw [mark_mergeInto] at hk
      rcases Mark.isNew_of_mergeInto hk with hn | hn
      · exact (hp.next_le k.index).trans (h.new_ge k hn)
      · exact hp.new_ge k hn
    · rw [hr]
      exact (hp.next_le i).trans (h.next_le i)
  · exact hr

/-! ## The copies on the stack -/

/-- The copies the undo states of a stack stand for, newest first: each is read back from the one
above it. -/
def copies : List (UndoState V) → Indexes V → List (Indexes V)
  | [], _ => []
  | state :: rest, ix => state.restore ix :: copies rest (state.restore ix)

/-- Every undo state of a stack is coherent over what the states above it restore. -/
def StackCoherent : List (UndoState V) → Indexes V → Prop
  | [], _ => True
  | state :: rest, ix => state.Coherent ix ∧ StackCoherent rest (state.restore ix)

theorem copies_take (n : ℕ) (stack : List (UndoState V)) (ix : Indexes V) :
    copies (stack.take n) ix = (copies stack ix).take n := by
  induction stack generalizing n ix with
  | nil => simp [copies]
  | cons state rest ih =>
    cases n with
    | zero => rfl
    | succ n => simp [copies, ih]

theorem StackCoherent.take {stack : List (UndoState V)} {ix : Indexes V}
    (h : StackCoherent stack ix) (n : ℕ) : StackCoherent (stack.take n) ix := by
  induction stack generalizing n ix with
  | nil => simpa using h
  | cons state rest ih =>
    cases n with
    | zero => trivial
    | succ n => exact ⟨h.1, ih h.2 n⟩

@[simp] theorem length_copies (stack : List (UndoState V)) (ix : Indexes V) :
    (copies stack ix).length = stack.length := by
  induction stack generalizing ix with
  | nil => rfl
  | cons state rest ih => simp [copies, ih]

@[simp] theorem UndoDatabase.activeSessions_recordIn (u : UndoDatabase V)
    (f : UndoState V → UndoState V) : (u.recordIn f).activeSessions = u.activeSessions := by
  rw [recordIn]
  split_ifs
  · rfl
  · cases u.stack <;> rfl

namespace ObjectDatabase

/-- The states the undo stack can take the database back to, newest first. -/
def history (db : ObjectDatabase V) : List (Indexes V) := copies db.undoDb.stack db.indexes

/-- The database as a machine that keeps whole copies. -/
def toCheckpoints (db : ObjectDatabase V) : Checkpoints (Indexes V) := ⟨db.indexes, db.history⟩

/-- The invariant of a database whose changes are being recorded. -/
structure WF (db : ObjectDatabase V) : Prop where
  /-- The undo database is enabled. -/
  enabled : db.undoDb.disabled = false
  /-- No id is ahead of its index. -/
  fresh : db.indexes.Fresh
  /-- The stack is a record of how the database came about. -/
  coherent : StackCoherent db.undoDb.stack db.indexes

@[simp] theorem length_history (db : ObjectDatabase V) :
    db.history.length = db.undoDb.stack.length := length_copies _ _

@[simp] theorem cur_toCheckpoints (db : ObjectDatabase V) : db.toCheckpoints.cur = db.indexes :=
  rfl

@[simp] theorem saved_toCheckpoints (db : ObjectDatabase V) :
    db.toCheckpoints.saved = db.history := rfl

/-- A mutator that records what it does with `f` keeps every copy. -/
theorem WF.record {db : ObjectDatabase V} (h : db.WF) {f : UndoState V → UndoState V}
    {ix' : Indexes V} (hfresh : ix'.Fresh)
    (hf : ∀ state : UndoState V, state.Coherent db.indexes →
      (f state).Coherent ix' ∧ (f state).restore ix' = state.restore db.indexes) :
    (ObjectDatabase.mk ix' (db.undoDb.recordIn f)).WF ∧
      (ObjectDatabase.mk ix' (db.undoDb.recordIn f)).toCheckpoints =
        db.toCheckpoints.edit ix' := by
  have hcoh := h.coherent
  rw [UndoDatabase.recordIn, if_neg (by simp [h.enabled])]
  cases hst : db.undoDb.stack with
  | nil =>
    obtain ⟨hc, hr⟩ := hf {} (UndoState.coherent_empty h.fresh)
    refine ⟨⟨h.enabled, hfresh, hc, trivial⟩, ?_⟩
    ext1
    · rfl
    · simp [Checkpoints.edit, Checkpoints.recorded, toCheckpoints, history, copies, hst, hr]
  | cons state rest =>
    rw [hst] at hcoh
    obtain ⟨hc, hr⟩ := hf state hcoh.1
    refine ⟨⟨h.enabled, hfresh, hc, hr ▸ hcoh.2⟩, ?_⟩
    ext1
    · rfl
    · simp [Checkpoints.edit, Checkpoints.recorded, toCheckpoints, history, copies, hst, hr]

theorem fresh_create {ix ix' : Indexes V} (h : ix.Fresh) {index : IndexId} {obj : V}
    (hc : ix.create index obj = some ix') : ix'.Fresh := by
  intro id hid
  rw [Indexes.create] at hc
  split_ifs at hc
  obtain rfl := Option.some_inj.1 hc
  by_cases hk : id = ⟨index, ix.nextId index⟩
  · subst hk
    simp
  · simp only [Function.update_of_ne hk] at hid
    have hlt := h id hid
    by_cases hi : id.index = index
    · subst hi
      simp only [Function.update_self]
      omega
    · simpa only [Function.update_of_ne hi] using hlt

/-- `create`, as an edit: nothing a session has to put back is lost. -/
theorem WF.create {db db' : ObjectDatabase V} (h : db.WF) {index : IndexId} {obj : V}
    (hc : db.create index obj = some db') :
    db'.WF ∧ db'.toCheckpoints = db.toCheckpoints.edit db'.indexes ∧
      db.indexes.create index obj = some db'.indexes := by
  obtain ⟨ix', hix', hdb'⟩ := Option.bind_eq_some_iff.1 hc
  obtain rfl := Option.some_inj.1 hdb'
  obtain ⟨hwf, heq⟩ := h.record (fresh_create h.fresh hix') fun state hs ↦
    hs.onCreate h.fresh hix'
  exact ⟨hwf, heq, hix'⟩

theorem fresh_update {ix : Indexes V} (h : ix.Fresh) {id : ObjectId}
    (hid : (ix.objects id).isSome) (new : Option V) :
    Indexes.Fresh { ix with objects := Function.update ix.objects id new } := by
  intro k hk
  by_cases hki : k = id
  · rw [hki]
    exact h id hid
  · exact h k (by simpa only [Function.update_of_ne hki] using hk)

/-- `modify`, as an edit. -/
theorem WF.modify {db db' : ObjectDatabase V} (h : db.WF) {id : ObjectId} {obj : V}
    (hm : db.modify id obj = some db') :
    db'.WF ∧ db'.toCheckpoints = db.toCheckpoints.edit db'.indexes ∧
      db.indexes.modify id obj = some db'.indexes := by
  rw [ObjectDatabase.modify] at hm
  cases hid : db.indexes.objects id with
  | none => simp [hid] at hm
  | some was =>
    have hix : db.indexes.modify id obj =
        some { db.indexes with objects := Function.update db.indexes.objects id (some obj) } := by
      rw [Indexes.modify, if_pos (by rw [hid]; rfl)]
    rw [hid, hix] at hm
    obtain rfl := Option.some_inj.1 hm
    obtain ⟨hwf, heq⟩ := h.record (fresh_update h.fresh (by rw [hid]; rfl) (some obj))
      fun state hs ↦ hs.onModify hid obj
    exact ⟨hwf, heq, hix⟩

/-- `remove`, as an edit. -/
theorem WF.remove {db db' : ObjectDatabase V} (h : db.WF) {id : ObjectId}
    (hr : db.remove id = some db') :
    db'.WF ∧ db'.toCheckpoints = db.toCheckpoints.edit db'.indexes ∧
      db.indexes.remove id = some db'.indexes := by
  rw [ObjectDatabase.remove] at hr
  cases hid : db.indexes.objects id with
  | none => simp [hid] at hr
  | some was =>
    have hix : db.indexes.remove id =
        some { db.indexes with objects := Function.update db.indexes.objects id none } := by
      rw [Indexes.remove, if_pos (by rw [hid]; rfl)]
    rw [hid, hix] at hr
    obtain rfl := Option.some_inj.1 hr
    obtain ⟨hwf, heq⟩ := h.record (fresh_update h.fresh (by rw [hid]; rfl) none)
      fun state hs ↦ hs.onRemove hid
    exact ⟨hwf, heq, hix⟩

/-- Starting a session takes a copy. -/
theorem WF.push {db : ObjectDatabase V} (h : db.WF) :
    (ObjectDatabase.mk db.indexes db.undoDb.push).WF ∧
      (ObjectDatabase.mk db.indexes db.undoDb.push).toCheckpoints =
        db.toCheckpoints.start db.undoDb.maxSize := by
  refine ⟨⟨rfl, h.fresh, UndoState.coherent_empty h.fresh, ?_⟩, ?_⟩
  · rw [UndoState.restore_empty]
    exact h.coherent.take _
  · ext1
    · rfl
    · simp [toCheckpoints, history, UndoDatabase.push, copies, copies_take]

/-- **`undo` puts the newest copy back**, and gets stuck only at its own assertions. -/
theorem WF.undo {db : ObjectDatabase V} (h : db.WF) (hactive : db.undoDb.activeSessions ≠ 0)
    {ix : Indexes V} {rest : List (Indexes V)} (hh : db.history = ix :: rest) :
    ∃ db', db.undo = some db' ∧ db'.WF ∧ db'.indexes = ix ∧
      db'.history = (if rest.isEmpty then [ix] else rest) ∧
      db'.undoDb.activeSessions = db.undoDb.activeSessions - 1 ∧
      db'.undoDb.maxSize = db.undoDb.maxSize := by
  have hcoh := h.coherent
  cases hst : db.undoDb.stack with
  | nil => simp [history, hst, copies] at hh
  | cons state states =>
    rw [hst] at hcoh
    simp only [history, hst, copies, List.cons.injEq] at hh
    obtain ⟨rfl, rfl⟩ := hh
    have hundo : db.undo = some
        { indexes := state.restore db.indexes
          undoDb := { db.undoDb with
                      stack := if states.isEmpty then [{}] else states
                      activeSessions := db.undoDb.activeSessions - 1 } } := by
      rw [ObjectDatabase.undo, if_neg (by simp [h.enabled]), if_neg hactive, hst]
      simp only [UndoState.rewind_eq hcoh.1]
      rfl
    refine ⟨_, hundo, ⟨h.enabled, hcoh.1.fresh, ?_⟩, rfl, ?_, rfl, rfl⟩
    · cases states with
      | nil => exact ⟨UndoState.coherent_empty hcoh.1.fresh, trivial⟩
      | cons => exact hcoh.2
    · cases states with
      | nil => simp [history, copies]
      | cons => simp [history, copies]

/-- **`pop_commit` puts the newest copy back**, and gets stuck only at its own assertions. -/
theorem WF.popCommit {db : ObjectDatabase V} (h : db.WF) (hactive : db.undoDb.activeSessions = 0)
    {ix : Indexes V} {rest : List (Indexes V)} (hh : db.history = ix :: rest) :
    ∃ db', db.popCommit = some db' ∧ db'.WF ∧ db'.indexes = ix ∧ db'.history = rest ∧
      db'.undoDb.activeSessions = 0 ∧ db'.undoDb.maxSize = db.undoDb.maxSize := by
  have hcoh := h.coherent
  cases hst : db.undoDb.stack with
  | nil => simp [history, hst, copies] at hh
  | cons state states =>
    rw [hst] at hcoh
    simp only [history, hst, copies, List.cons.injEq] at hh
    obtain ⟨rfl, rfl⟩ := hh
    have hpop : db.popCommit = some
        { indexes := state.restore db.indexes
          undoDb := { db.undoDb with stack := states, disabled := false } } := by
      rw [ObjectDatabase.popCommit, if_neg (by simp [hactive]), hst]
      simp only [UndoState.rewind_eq hcoh.1]
      rfl
    exact ⟨_, hpop, ⟨rfl, hcoh.1.fresh, hcoh.2⟩, rfl, rfl, hactive, rfl⟩

/-- **`merge` forgets the newest copy.** -/
theorem WF.merge {db : ObjectDatabase V} (h : db.WF) (hactive : db.undoDb.activeSessions ≠ 0)
    {ix ix' : Indexes V} {rest : List (Indexes V)} (hh : db.history = ix :: ix' :: rest) :
    ∃ db', db.merge = some db' ∧ db'.WF ∧ db'.indexes = db.indexes ∧
      db'.history = ix' :: rest ∧
      db'.undoDb.activeSessions = db.undoDb.activeSessions - 1 ∧
      db'.undoDb.maxSize = db.undoDb.maxSize := by
  have hcoh := h.coherent
  rcases hst : db.undoDb.stack with - | ⟨state, - | ⟨prev, states⟩⟩
  · simp [history, hst, copies] at hh
  · simp [history, hst, copies] at hh
  · rw [hst] at hcoh
    simp only [history, hst, copies, List.cons.injEq] at hh
    obtain ⟨rfl, rfl, rfl⟩ := hh
    obtain ⟨hc, hr⟩ := hcoh.1.mergeInto hcoh.2.1
    have hmerge : db.merge = some
        { db with undoDb := { db.undoDb with
                              stack := state.mergeInto prev :: states
                              activeSessions := db.undoDb.activeSessions - 1 } } := by
      rw [ObjectDatabase.merge, if_neg hactive, hst]
    refine ⟨_, hmerge, ⟨h.enabled, h.fresh, hc, ?_⟩, rfl, ?_, rfl, rfl⟩
    · rw [hr]
      exact hcoh.2.2
    · simp [history, copies, hr]

end ObjectDatabase

end Graphene
