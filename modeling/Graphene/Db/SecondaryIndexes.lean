import Graphene.Db.Script
import Graphene.Db.UndoSessions
import Mathlib.Data.Finset.Erase
import Mathlib.Data.Finset.SDiff

/-!
# Secondary indexes

`primary_index` tells its secondary indexes about every object it creates, loads, modifies and
removes.  It does not override `insert`, by which `undo` and `pop_commit` put removed objects back,
so that of these the secondary indexes hear nothing; and a secondary index need not do anything
about an object that is modified.

* `Hooks` — the callbacks of a secondary index; `Hooks.rewind`, the loops of `undo` and `pop_commit`
  with the callbacks they cause.
* `IndexedRun` — a run of undo sessions, with a secondary index.
* `Maintains` — what the callbacks have to make sure of; `coherent_of_reaches` — then the index is
  coherent along every run in which nothing goes unnoticed.
* `SecondaryIndex` — the ids of the objects each member belongs to.
-/

set_option autoImplicit false

namespace Graphene

variable {V S M : Type}

/-! ## Callbacks -/

/-- `secondary_index`. -/
structure Hooks (V S : Type) where
  /-- `object_inserted`. -/
  inserted : ObjectId → V → S → S
  /-- `object_removed`. -/
  removed : ObjectId → V → S → S
  /-- `about_to_modify` and `object_modified`: the value before and the value after. -/
  modified : ObjectId → V → V → S → S

/-- The primary indexes and a secondary index. -/
structure Indexed (V S : Type) where
  /-- The objects. -/
  indexes : Indexes V
  /-- The secondary index. -/
  sindex : S

namespace Hooks

variable (H : Hooks V S)

/-- `primary_index::create`. -/
def create (x : Indexed V S) (index : IndexId) (obj : V) : Option (Indexed V S) :=
  (x.indexes.create index obj).map fun indexes ↦
    { indexes, sindex := H.inserted ⟨index, x.indexes.nextId index⟩ obj x.sindex }

/-- `primary_index::modify`. -/
def modify (x : Indexed V S) (id : ObjectId) (obj : V) : Option (Indexed V S) :=
  (x.indexes.objects id).bind fun was ↦ (x.indexes.modify id obj).map fun indexes ↦
    { indexes, sindex := H.modified id was obj x.sindex }

/-- `primary_index::remove`. -/
def remove (x : Indexed V S) (id : ObjectId) : Option (Indexed V S) :=
  (x.indexes.objects id).bind fun was ↦ (x.indexes.remove id).map fun indexes ↦
    { indexes, sindex := H.removed id was x.sindex }

/-- `insert`, which `primary_index` does not override: no callback. -/
def insert (x : Indexed V S) (id : ObjectId) (obj : V) : Option (Indexed V S) :=
  (x.indexes.insert id obj).map fun indexes ↦ { x with indexes }

/-- The loops of `undo` and `pop_commit`. -/
def rewind (state : UndoState V) (x : Indexed V S) : Option (Indexed V S) := do
  let x ← state.oldValues.entries.foldlM (fun x item ↦ H.modify x item.1 item.2) x
  let x ← state.newIds.entries.foldlM (fun x item ↦ H.remove x item.1) x
  let indexes := state.oldIndexNextIds.entries.foldl
    (fun ix item ↦ ix.setNextId item.1 item.2) x.indexes
  state.removed.entries.foldlM (fun x item ↦ insert x item.1 item.2) { x with indexes }

/-- `object_inserted` for every object of a list, from an index that is empty. -/
def rebuild (empty : S) (objects : List (ObjectId × V)) : S :=
  objects.foldl (fun s entry ↦ H.inserted entry.1 entry.2 s) empty

end Hooks

/-- A run of undo sessions, with a secondary index. -/
structure IndexedRun (V S : Type) where
  /-- The database and the sessions. -/
  run : UndoRun V
  /-- The secondary index. -/
  sindex : S

namespace IndexedRun

variable (H : Hooks V S) (x : IndexedRun V S)

/-- The objects and the secondary index. -/
def indexed : Indexed V S := ⟨x.run.db.indexes, x.sindex⟩

/-- What taking back the state on top of the undo stack makes of the secondary index. -/
def rewound : Option S :=
  match x.run.db.undoDb.stack with
  | [] => none
  | state :: _ => (H.rewind state x.indexed).map Indexed.sindex

/-- What a call makes of the secondary index. -/
def notified : UndoCall V → Option S
  | .startUndoSession | .merge _ | .commit _ => some x.sindex
  | .undo h => do
    let s ← x.run.sessions[h]?
    if s.applyUndo then x.rewound H else some x.sindex
  | .popCommit => x.rewound H
  | .create index obj => (H.create x.indexed index obj).map Indexed.sindex
  | .modify id obj => (H.modify x.indexed id obj).map Indexed.sindex
  | .remove id => (H.remove x.indexed id).map Indexed.sindex

/-- One call. -/
def step (call : UndoCall V) : Option (IndexedRun V S) := do
  let run ← x.run.step call
  let sindex ← x.notified H call
  return { run, sindex }

/-- The runs whose calls `Ok` admits, from `x₀`. -/
inductive Reaches (H : Hooks V S) (Ok : UndoRun V → UndoCall V → Prop) (x₀ : IndexedRun V S) :
    IndexedRun V S → Prop
  /-- No call. -/
  | refl : Reaches H Ok x₀ x₀
  /-- One more call. -/
  | call {x x' : IndexedRun V S} (h : Reaches H Ok x₀ x) (call : UndoCall V) (hok : Ok x.run call)
    (hstep : x.step H call = some x') : Reaches H Ok x₀ x'

/-- A sequence of calls. -/
def steps (H : Hooks V S) (x : IndexedRun V S) (calls : List (UndoCall V)) :
    Option (IndexedRun V S) :=
  calls.foldlM (step H) x

end IndexedRun

/-! ## Coherence -/

/-- What the callbacks make sure of: `Coherent` holds of the objects and the index whenever an
object is created, modified to a value with the `SameKeys`, or removed, and need not be told of
objects that are `Unindexed`. -/
structure Maintains (H : Hooks V S) (Coherent : (ObjectId → Option V) → S → Prop)
    (SameKeys : V → V → Prop) (Unindexed : V → Prop) : Prop where
  /-- `object_inserted`. -/
  inserted : ∀ objects s id obj, Coherent objects s → objects id = none →
    Coherent (Function.update objects id (some obj)) (H.inserted id obj s)
  /-- `object_removed`. -/
  removed : ∀ objects s id was, Coherent objects s → objects id = some was →
    Coherent (Function.update objects id none) (H.removed id was s)
  /-- `object_modified`. -/
  modified : ∀ objects s id was obj, Coherent objects s → objects id = some was →
    SameKeys was obj → Coherent (Function.update objects id (some obj)) (H.modified id was obj s)
  /-- No callback. -/
  unindexed : ∀ objects s id obj, Coherent objects s → objects id = none → Unindexed obj →
    Coherent (Function.update objects id (some obj)) s

section Coherence

variable {H : Hooks V S} {Coherent : (ObjectId → Option V) → S → Prop}
  {SameKeys : V → V → Prop} {Unindexed : V → Prop} {x x' x₀ : Indexed V S}

/-- What an undo state puts back has the keys that are there now, and none that are not. -/
structure Unnoticed (SameKeys : V → V → Prop) (Unindexed : V → Prop) (ix : Indexes V)
    (state : UndoState V) : Prop where
  /-- The values that are put back. -/
  oldValues : ∀ id was, state.oldValues.lookup id = some was → ∀ obj, ix.objects id = some obj →
    SameKeys obj was
  /-- The objects that are put back. -/
  removed : ∀ id was, state.removed.lookup id = some was → Unindexed was

theorem Hooks.modify_spec {id : ObjectId} {obj : V} (h : H.modify x id obj = some x') :
    ∃ was, x.indexes.objects id = some was ∧
      x' = ⟨{ x.indexes with objects := Function.update x.indexes.objects id (some obj) },
        H.modified id was obj x.sindex⟩ := by
  obtain ⟨was, hwas, hmap⟩ := Option.bind_eq_some_iff.1 h
  obtain ⟨ix, hix, rfl⟩ := Option.map_eq_some_iff.1 hmap
  rw [Indexes.modify, hwas] at hix
  obtain rfl := Option.some_inj.1 hix
  exact ⟨was, hwas, rfl⟩

theorem Hooks.remove_spec {id : ObjectId} (h : H.remove x id = some x') :
    ∃ was, x.indexes.objects id = some was ∧
      x' = ⟨{ x.indexes with objects := Function.update x.indexes.objects id none },
        H.removed id was x.sindex⟩ := by
  obtain ⟨was, hwas, hmap⟩ := Option.bind_eq_some_iff.1 h
  obtain ⟨ix, hix, rfl⟩ := Option.map_eq_some_iff.1 hmap
  rw [Indexes.remove, hwas] at hix
  obtain rfl := Option.some_inj.1 hix
  exact ⟨was, hwas, rfl⟩

theorem Hooks.insert_spec {id : ObjectId} {obj : V} (h : insert x id obj = some x') :
    x.indexes.objects id = none ∧
      x' = ⟨{ x.indexes with objects := Function.update x.indexes.objects id (some obj) },
        x.sindex⟩ := by
  obtain ⟨ix, hix, rfl⟩ := Option.map_eq_some_iff.1 h
  rw [Indexes.insert] at hix
  split_ifs at hix with hfree
  obtain rfl := Option.some_inj.1 hix
  exact ⟨by simpa using hfree, rfl⟩

/-- The loops do to the objects what they do without a secondary index. -/
theorem foldlM_indexes {I : Type} {f : Indexed V S → I → Option (Indexed V S)}
    {g : Indexes V → I → Option (Indexes V)}
    (hf : ∀ x item, (f x item).map Indexed.indexes = g x.indexes item) (items : List I)
    (x : Indexed V S) : (items.foldlM f x).map Indexed.indexes = items.foldlM g x.indexes := by
  induction items generalizing x with
  | nil => rfl
  | cons item items ih =>
    rw [List.foldlM_cons, List.foldlM_cons, ← hf]
    cases hitem : f x item with
    | none => rfl
    | some x' => exact ih x'

theorem Hooks.create_indexes (x : Indexed V S) (index : IndexId) (obj : V) :
    (H.create x index obj).map Indexed.indexes = x.indexes.create index obj := by
  rw [create]
  cases x.indexes.create index obj <;> rfl

theorem Hooks.modify_indexes (x : Indexed V S) (id : ObjectId) (obj : V) :
    (H.modify x id obj).map Indexed.indexes = x.indexes.modify id obj := by
  rw [modify, Indexes.modify]
  cases x.indexes.objects id <;> rfl

theorem Hooks.remove_indexes (x : Indexed V S) (id : ObjectId) :
    (H.remove x id).map Indexed.indexes = x.indexes.remove id := by
  rw [remove, Indexes.remove]
  cases x.indexes.objects id <;> rfl

theorem Hooks.insert_indexes (x : Indexed V S) (id : ObjectId) (obj : V) :
    (insert x id obj).map Indexed.indexes = x.indexes.insert id obj := by
  rw [insert]
  cases x.indexes.insert id obj <;> rfl

theorem Hooks.rewind_indexes (state : UndoState V) (x : Indexed V S) :
    (H.rewind state x).map Indexed.indexes = state.rewind x.indexes := by
  have hmodifyAll := foldlM_indexes (g := fun ix item ↦ ix.modify item.1 item.2)
    (fun x item ↦ H.modify_indexes x item.1 item.2) state.oldValues.entries x
  simp only [rewind, UndoState.rewind, Option.bind_eq_bind]
  rw [← hmodifyAll]
  cases state.oldValues.entries.foldlM (fun x item ↦ H.modify x item.1 item.2) x with
  | none => rfl
  | some x₁ =>
    have hremoveAll := foldlM_indexes (g := fun ix item ↦ ix.remove item.1)
      (fun x item ↦ H.remove_indexes x item.1) state.newIds.entries x₁
    simp only [Option.bind_some, Option.map_some]
    rw [← hremoveAll]
    cases state.newIds.entries.foldlM (fun x item ↦ H.remove x item.1) x₁ with
    | none => rfl
    | some x₂ =>
      exact foldlM_indexes (g := fun ix item ↦ ix.insert item.1 item.2)
        (fun x item ↦ Hooks.insert_indexes x item.1 item.2) state.removed.entries _

/-- The first loop, over values that are put back. -/
theorem coherent_modifyAll (hH : Maintains H Coherent SameKeys Unindexed)
    {items : List (Sigma fun _ : ObjectId ↦ V)} (hnodup : items.NodupKeys)
    (hkeys : ∀ item ∈ items, ∀ obj, x.indexes.objects item.1 = some obj → SameKeys obj item.2)
    (hx : Coherent x.indexes.objects x.sindex)
    (h : items.foldlM (fun x item ↦ H.modify x item.1 item.2) x = some x') :
    Coherent x'.indexes.objects x'.sindex := by
  induction items generalizing x with
  | nil =>
    obtain rfl := Option.some_inj.1 h
    exact hx
  | cons item items ih =>
    rw [List.foldlM_cons] at h
    obtain ⟨x₁, h₁, hrest⟩ := Option.bind_eq_some_iff.1 h
    obtain ⟨was, hwas, rfl⟩ := Hooks.modify_spec h₁
    have hnotin : ∀ item' ∈ items, item'.1 ≠ item.1 := by
      rw [List.nodupKeys_cons] at hnodup
      intro item' hmem heq
      exact hnodup.1 (heq ▸ List.mem_keys_of_mem hmem)
    refine ih (List.nodupKeys_cons.1 hnodup).2 (fun item' hmem obj hobj ↦ ?_)
      (hH.modified _ _ _ _ _ hx hwas (hkeys item List.mem_cons_self was hwas)) hrest
    -- every object is modified once
    have hobj' : Function.update x.indexes.objects item.1 (some item.2) item'.1 = some obj := hobj
    rw [Function.update_of_ne (hnotin item' hmem)] at hobj'
    exact hkeys item' (List.mem_cons_of_mem _ hmem) obj hobj'

/-- The second loop, over objects that were created. -/
theorem coherent_removeAll (hH : Maintains H Coherent SameKeys Unindexed)
    {items : List (Sigma fun _ : ObjectId ↦ Unit)} (hx : Coherent x.indexes.objects x.sindex)
    (h : items.foldlM (fun x item ↦ H.remove x item.1) x = some x') :
    Coherent x'.indexes.objects x'.sindex := by
  induction items generalizing x with
  | nil =>
    obtain rfl := Option.some_inj.1 h
    exact hx
  | cons item items ih =>
    rw [List.foldlM_cons] at h
    obtain ⟨x₁, h₁, hrest⟩ := Option.bind_eq_some_iff.1 h
    obtain ⟨was, hwas, rfl⟩ := Hooks.remove_spec h₁
    exact ih (hH.removed _ _ _ _ hx hwas) hrest

/-- The last loop, over objects that were removed. -/
theorem coherent_insertAll (hH : Maintains H Coherent SameKeys Unindexed)
    {items : List (Sigma fun _ : ObjectId ↦ V)} (hunindexed : ∀ item ∈ items, Unindexed item.2)
    (hx : Coherent x.indexes.objects x.sindex)
    (h : items.foldlM (fun x item ↦ Hooks.insert x item.1 item.2) x = some x') :
    Coherent x'.indexes.objects x'.sindex := by
  induction items generalizing x with
  | nil =>
    obtain rfl := Option.some_inj.1 h
    exact hx
  | cons item items ih =>
    rw [List.foldlM_cons] at h
    obtain ⟨x₁, h₁, hrest⟩ := Option.bind_eq_some_iff.1 h
    obtain ⟨hfree, rfl⟩ := Hooks.insert_spec h₁
    exact ih (fun item' hmem ↦ hunindexed item' (List.mem_cons_of_mem _ hmem))
      (hH.unindexed _ _ _ _ hx hfree (hunindexed item List.mem_cons_self)) hrest

/-- **Taking changes back** keeps the index coherent, if nothing goes unnoticed. -/
theorem Maintains.rewind (hH : Maintains H Coherent SameKeys Unindexed) {state : UndoState V}
    (hunnoticed : Unnoticed SameKeys Unindexed x.indexes state)
    (hx : Coherent x.indexes.objects x.sindex) (h : H.rewind state x = some x') :
    Coherent x'.indexes.objects x'.sindex := by
  obtain ⟨x₁, hmodify, h⟩ := Option.bind_eq_some_iff.1 h
  obtain ⟨x₂, hremove, hinsert⟩ := Option.bind_eq_some_iff.1 h
  have hx₁ := coherent_modifyAll hH state.oldValues.nodupKeys (fun item hmem ↦
    hunnoticed.oldValues item.1 item.2 (AList.mem_lookup_iff.2 hmem)) hx hmodify
  have hx₂ := coherent_removeAll hH hx₁ hremove
  refine coherent_insertAll hH (fun item hmem ↦
    hunnoticed.removed item.1 item.2 (AList.mem_lookup_iff.2 hmem)) ?_ hinsert
  rw [foldl_setNextId]
  exact hx₂

end Coherence

/-! ## Runs -/

namespace IndexedRun

variable {H : Hooks V S} {Coherent : (ObjectId → Option V) → S → Prop}
  {SameKeys : V → V → Prop} {Unindexed : V → Prop} {x x' x₀ : IndexedRun V S}

/-- Taking back the state on top of the undo stack goes unnoticed by no index. -/
def TopUnnoticed (SameKeys : V → V → Prop) (Unindexed : V → Prop) (r : UndoRun V) : Prop :=
  ∀ state ∈ r.db.undoDb.stack.head?, Unnoticed SameKeys Unindexed r.db.indexes state

/-- A call that modifies no keys, and puts no removed object back. -/
def Tracked (SameKeys : V → V → Prop) (Unindexed : V → Prop) (r : UndoRun V) :
    UndoCall V → Prop
  | .modify id obj => ∀ was ∈ r.db.indexes.objects id, SameKeys was obj
  | .undo h => ∀ s ∈ r.sessions[h]?, s.applyUndo = true → TopUnnoticed SameKeys Unindexed r
  | .popCommit => TopUnnoticed SameKeys Unindexed r
  | _ => True

/-- The invariant of a run. -/
def Ok (Coherent : (ObjectId → Option V) → S → Prop) (x : IndexedRun V S) : Prop :=
  Coherent x.run.db.indexes.objects x.sindex

/-- Taking back the state on top of the stack. -/
theorem rewound_ok (hH : Maintains H Coherent SameKeys Unindexed) (hx : x.Ok Coherent)
    (htop : TopUnnoticed SameKeys Unindexed x.run) {state : UndoState V}
    {rest : List (UndoState V)} (hstack : x.run.db.undoDb.stack = state :: rest) {ix : Indexes V}
    (hrewind : state.rewind x.run.db.indexes = some ix) {sindex : S}
    (h : x.rewound H = some sindex) : Coherent ix.objects sindex := by
  rw [rewound, hstack] at h
  obtain ⟨y, hy, rfl⟩ := Option.map_eq_some_iff.1 h
  have hix := Hooks.rewind_indexes (H := H) state x.indexed
  have heq : y.indexes = ix := by
    have hsome : some y.indexes = state.rewind x.run.db.indexes := by
      rw [← Option.map_some (f := Indexed.indexes), ← hy]
      exact hix
    rw [hrewind] at hsome
    exact Option.some_inj.1 hsome
  rw [← heq]
  have hx' : Coherent x.indexed.indexes.objects x.indexed.sindex := hx
  exact hH.rewind (htop state (by simp [hstack])) hx' hy

theorem indexes_undo {db db' : ObjectDatabase V} (h : db.undo = some db') :
    ∃ state rest, db.undoDb.stack = state :: rest ∧ state.rewind db.indexes = some db'.indexes := by
  rw [ObjectDatabase.undo] at h
  split_ifs at h
  cases hstack : db.undoDb.stack with
  | nil => simp [hstack] at h
  | cons state rest =>
    simp only [hstack] at h
    obtain ⟨ix, hix, hdb'⟩ := Option.bind_eq_some_iff.1 h
    obtain rfl := Option.some_inj.1 hdb'
    exact ⟨state, rest, rfl, hix⟩

theorem indexes_popCommit {db db' : ObjectDatabase V} (h : db.popCommit = some db') :
    ∃ state rest, db.undoDb.stack = state :: rest ∧ state.rewind db.indexes = some db'.indexes := by
  rw [ObjectDatabase.popCommit] at h
  split_ifs at h
  cases hstack : db.undoDb.stack with
  | nil => simp [hstack] at h
  | cons state rest =>
    simp only [hstack] at h
    obtain ⟨ix, hix, hdb'⟩ := Option.bind_eq_some_iff.1 h
    obtain rfl := Option.some_inj.1 hdb'
    exact ⟨state, rest, rfl, hix⟩

theorem indexes_merge {db db' : ObjectDatabase V} (h : db.merge = some db') :
    db'.indexes = db.indexes := by
  rw [ObjectDatabase.merge] at h
  split_ifs at h
  split at h
  · obtain rfl := Option.some_inj.1 h
    rfl
  · cases h

/-- A mutator leaves the objects that the callbacks were told of. -/
theorem indexes_edit (e : Edit V) {notified : Option (Indexed V S)}
    (h : notified.map Indexed.indexes = e.eval x.run.db.indexes) {run' : UndoRun V} {sindex : S}
    (hrun : (do let db ← e.exec x.run.db
                return { x.run with db, owners := UndoRun.recorded x.run.owners }) = some run')
    (hsindex : notified.map Indexed.sindex = some sindex) :
    notified = some ⟨run'.db.indexes, sindex⟩ := by
  obtain ⟨db, hdb, rfl⟩ := UndoRun.step_edit hrun
  obtain ⟨y, hy, rfl⟩ := Option.map_eq_some_iff.1 hsindex
  rw [← e.exec_isSome, hdb, hy, Option.map_some, Option.map_some] at h
  rw [hy, ← Option.some_inj.1 h]

/-- **One call** keeps the index coherent. -/
theorem step_ok (hH : Maintains H Coherent SameKeys Unindexed) (hx : x.Ok Coherent)
    {call : UndoCall V} (hcall : Tracked SameKeys Unindexed x.run call)
    (h : x.step H call = some x') : x'.Ok Coherent := by
  obtain ⟨run', hrun, h⟩ := Option.bind_eq_some_iff.1 h
  obtain ⟨sindex, hsindex, h⟩ := Option.bind_eq_some_iff.1 h
  obtain rfl := Option.some_inj.1 h
  show Coherent run'.db.indexes.objects sindex
  cases call with
  | startUndoSession =>
    obtain rfl := Option.some_inj.1 hsindex
    obtain rfl := Option.some_inj.1 hrun
    show Coherent (x.run.db.startUndoSession).1.indexes.objects x.sindex
    rw [ObjectDatabase.startUndoSession]
    split <;> exact hx
  | merge k =>
    obtain rfl := Option.some_inj.1 hsindex
    obtain ⟨s, db, -, hdb, rfl⟩ := UndoRun.step_merge hrun
    have hindexes : db.indexes = x.run.db.indexes := by
      split_ifs at hdb
      · exact indexes_merge hdb
      · rw [← Option.some_inj.1 hdb]
    show Coherent db.indexes.objects x.sindex
    rw [hindexes]
    exact hx
  | commit k =>
    obtain rfl := Option.some_inj.1 hsindex
    obtain ⟨s, db, -, hdb, rfl⟩ := UndoRun.step_commit hrun
    show Coherent db.indexes.objects x.sindex
    rw [(UndoRun.activeSessions_commit hdb).1]
    exact hx
  | undo k =>
    obtain ⟨s, db, hs, hdb, rfl⟩ := UndoRun.step_undo hrun
    obtain ⟨s', hs', hsindex⟩ := Option.bind_eq_some_iff.1 hsindex
    obtain rfl := Option.some_inj.1 (hs.symm.trans hs')
    show Coherent db.indexes.objects sindex
    split_ifs at hdb hsindex with happly
    · obtain ⟨state, rest, hstack, hrewind⟩ := indexes_undo hdb
      exact rewound_ok hH hx (hcall s hs happly) hstack hrewind hsindex
    · obtain rfl := Option.some_inj.1 hdb
      obtain rfl := Option.some_inj.1 hsindex
      exact hx
  | popCommit =>
    obtain ⟨db, hdb, rfl⟩ := UndoRun.step_popCommit hrun
    obtain ⟨state, rest, hstack, hrewind⟩ := indexes_popCommit hdb
    exact rewound_ok hH hx hcall hstack hrewind hsindex
  | create index obj =>
    have hcreate := indexes_edit (.create index obj) (H.create_indexes x.indexed index obj) hrun
      hsindex
    obtain ⟨ix, hix, heq⟩ := Option.map_eq_some_iff.1 hcreate
    rw [Indexes.create] at hix
    split_ifs at hix with hfree
    obtain rfl := Option.some_inj.1 hix
    obtain ⟨hindexes, rfl⟩ := Indexed.mk.inj heq
    rw [← hindexes]
    exact hH.inserted _ _ _ _ hx (by simpa using hfree)
  | modify id obj =>
    have hmodify := indexes_edit (.modify id obj) (H.modify_indexes x.indexed id obj) hrun hsindex
    obtain ⟨was, hwas, heq⟩ := Hooks.modify_spec hmodify
    obtain ⟨hindexes, rfl⟩ := Indexed.mk.inj heq
    rw [hindexes]
    exact hH.modified _ _ _ _ _ hx hwas (hcall was hwas)
  | remove id =>
    have hremove := indexes_edit (.remove id) (H.remove_indexes x.indexed id) hrun hsindex
    obtain ⟨was, hwas, heq⟩ := Hooks.remove_spec hremove
    obtain ⟨hindexes, rfl⟩ := Indexed.mk.inj heq
    rw [hindexes]
    exact hH.removed _ _ _ _ hx hwas

/-- **A secondary index is coherent** along every run in which nothing goes unnoticed. -/
theorem coherent_of_reaches (hH : Maintains H Coherent SameKeys Unindexed) (h₀ : x₀.Ok Coherent)
    (h : Reaches H (Tracked SameKeys Unindexed) x₀ x) : x.Ok Coherent := by
  induction h with
  | refl => exact h₀
  | call _ call hok hstep ih => exact step_ok hH ih hok hstep

end IndexedRun

/-! ## Rebuilding an index -/

/-- The objects in the primary index, each once. -/
structure Listing (objects : ObjectId → Option V) (l : List (ObjectId × V)) : Prop where
  /-- Every id once. -/
  nodup : (l.map Prod.fst).Nodup
  /-- What is listed is what is there. -/
  mem_iff : ∀ id obj, (id, obj) ∈ l ↔ objects id = some obj

theorem listing_empty : Listing (fun _ ↦ (none : Option V)) [] := by
  refine ⟨List.nodup_nil, fun id obj ↦ ?_⟩
  simp

theorem listing_singleton {objects : ObjectId → Option V} {id : ObjectId} {obj : V}
    (h : objects = Function.update (fun _ ↦ none) id (some obj)) : Listing objects [(id, obj)] := by
  subst h
  refine ⟨by simp, fun id' obj' ↦ ?_⟩
  by_cases hid : id' = id
  · subst hid
    simp [eq_comm]
  · simp [hid]

section Rebuild

variable {H : Hooks V S} {Coherent : (ObjectId → Option V) → S → Prop}
  {SameKeys : V → V → Prop} {Unindexed : V → Prop} {objects : ObjectId → Option V}
  {l : List (ObjectId × V)} {s : S}

/-- Add every object of the list. -/
def addAll (objects : ObjectId → Option V) (l : List (ObjectId × V)) : ObjectId → Option V :=
  l.foldl (fun objects entry ↦ Function.update objects entry.1 (some entry.2)) objects

theorem addAll_apply (hnodup : (l.map Prod.fst).Nodup) (id : ObjectId) (obj : V) :
    addAll objects l id = some obj ↔
      (id, obj) ∈ l ∨ id ∉ l.map Prod.fst ∧ objects id = some obj := by
  induction l generalizing objects with
  | nil => simp [addAll]
  | cons entry l ih =>
    obtain ⟨id', obj'⟩ := entry
    rw [List.map_cons, List.nodup_cons] at hnodup
    rw [addAll, List.foldl_cons, ← addAll, ih hnodup.2]
    by_cases hid : id = id'
    · subst hid
      have hnot : (id, obj) ∉ l := fun hmem ↦ hnodup.1 (List.mem_map.2 ⟨_, hmem, rfl⟩)
      simp [hnot, hnodup.1, eq_comm]
    · simp [hid]

theorem Listing.addAll_eq (h : Listing objects l) : addAll (fun _ ↦ none) l = objects := by
  funext id
  apply Option.ext
  intro obj
  rw [addAll_apply h.nodup, h.mem_iff]
  simp

theorem Maintains.foldl_inserted (hH : Maintains H Coherent SameKeys Unindexed)
    (hnodup : (l.map Prod.fst).Nodup) (hfree : ∀ entry ∈ l, objects entry.1 = none)
    (hs : Coherent objects s) : Coherent (addAll objects l) (H.rebuild s l) := by
  induction l generalizing objects s with
  | nil => exact hs
  | cons entry l ih =>
    rw [List.map_cons, List.nodup_cons] at hnodup
    refine ih hnodup.2 (fun entry' hmem ↦ ?_)
      (hH.inserted _ _ entry.1 entry.2 hs (hfree entry List.mem_cons_self))
    have hne : entry'.1 ≠ entry.1 := fun heq ↦ hnodup.1 (List.mem_map.2 ⟨entry', hmem, heq⟩)
    exact (Function.update_of_ne hne _ _).trans (hfree entry' (List.mem_cons_of_mem _ hmem))

theorem Maintains.mono (hH : Maintains H Coherent SameKeys Unindexed)
    {SameKeys' : V → V → Prop} {Unindexed' : V → Prop}
    (hsame : ∀ was obj, SameKeys' was obj → SameKeys was obj)
    (hunindexed : ∀ obj, Unindexed' obj → Unindexed obj) :
    Maintains H Coherent SameKeys' Unindexed' where
  inserted := hH.inserted
  removed := hH.removed
  modified objects s id was obj hs hwas hkeys :=
    hH.modified objects s id was obj hs hwas (hsame was obj hkeys)
  unindexed objects s id obj hs hfree hobj :=
    hH.unindexed objects s id obj hs hfree (hunindexed obj hobj)

end Rebuild

/-! ## Two indexes -/

/-- Two secondary indexes, one after the other. -/
def Hooks.prod {S' : Type} (H : Hooks V S) (H' : Hooks V S') : Hooks V (S × S') where
  inserted id obj s := (H.inserted id obj s.1, H'.inserted id obj s.2)
  removed id obj s := (H.removed id obj s.1, H'.removed id obj s.2)
  modified id was obj s := (H.modified id was obj s.1, H'.modified id was obj s.2)

theorem Maintains.prod {S' : Type} {H : Hooks V S} {H' : Hooks V S'}
    {Coherent : (ObjectId → Option V) → S → Prop} {Coherent' : (ObjectId → Option V) → S' → Prop}
    {SameKeys SameKeys' : V → V → Prop} {Unindexed Unindexed' : V → Prop}
    (h : Maintains H Coherent SameKeys Unindexed)
    (h' : Maintains H' Coherent' SameKeys' Unindexed') :
    Maintains (H.prod H') (fun objects s ↦ Coherent objects s.1 ∧ Coherent' objects s.2)
      (fun was obj ↦ SameKeys was obj ∧ SameKeys' was obj)
      (fun obj ↦ Unindexed obj ∧ Unindexed' obj) where
  inserted objects s id obj hs hfree :=
    ⟨h.inserted objects s.1 id obj hs.1 hfree, h'.inserted objects s.2 id obj hs.2 hfree⟩
  removed objects s id was hs hwas :=
    ⟨h.removed objects s.1 id was hs.1 hwas, h'.removed objects s.2 id was hs.2 hwas⟩
  modified objects s id was obj hs hwas hkeys :=
    ⟨h.modified objects s.1 id was obj hs.1 hwas hkeys.1,
      h'.modified objects s.2 id was obj hs.2 hwas hkeys.2⟩
  unindexed objects s id obj hs hfree hobj :=
    ⟨h.unindexed objects s.1 id obj hs.1 hfree hobj.1,
      h'.unindexed objects s.2 id obj hs.2 hfree hobj.2⟩

/-! ## Members -/

/-- `map< M, set<object_id_type> >`; an entry that is not there counts as an empty set. -/
abbrev Memberships (M : Type) := M → Finset ObjectId

/-- A secondary index that lists the objects each member belongs to. -/
structure SecondaryIndex (V M : Type) where
  /-- The members of an object. -/
  members : V → Finset M
  /-- Whether `about_to_modify` and `object_modified` do anything. -/
  followsModify : Bool

namespace SecondaryIndex

variable [DecidableEq M] (I : SecondaryIndex V M)

/-- Insert the id for each of the members. -/
def insertAll (ms : Finset M) (id : ObjectId) (s : Memberships M) : Memberships M := fun m ↦
  if m ∈ ms then insert id (s m) else s m

/-- Erase the id for each of the members. -/
def eraseAll (ms : Finset M) (id : ObjectId) (s : Memberships M) : Memberships M := fun m ↦
  if m ∈ ms then (s m).erase id else s m

/-- The callbacks. -/
def hooks : Hooks V (Memberships M) where
  inserted id obj s := insertAll (I.members obj) id s
  removed id obj s := eraseAll (I.members obj) id s
  modified id was obj s :=
    if I.followsModify then
      insertAll (I.members obj \ I.members was) id (eraseAll (I.members was \ I.members obj) id s)
    else s

/-- Every member has exactly the objects it belongs to. -/
def Lists (objects : ObjectId → Option V) (s : Memberships M) : Prop :=
  ∀ m id, id ∈ s m ↔ ∃ obj, objects id = some obj ∧ m ∈ I.members obj

variable {I}

theorem mem_insertAll {ms : Finset M} {id id' : ObjectId} {s : Memberships M} {m : M} :
    id' ∈ insertAll ms id s m ↔ id' ∈ s m ∨ id' = id ∧ m ∈ ms := by
  rw [insertAll]
  split_ifs with hm
  · simp [hm, or_comm]
  · simp [hm]

theorem mem_eraseAll {ms : Finset M} {id id' : ObjectId} {s : Memberships M} {m : M} :
    id' ∈ eraseAll ms id s m ↔ id' ∈ s m ∧ ¬ (id' = id ∧ m ∈ ms) := by
  rw [eraseAll]
  split_ifs with hm
  · simp [hm, and_comm]
  · simp [hm]

omit [DecidableEq M] in
/-- What a member has at an id depends on the object there. -/
theorem lists_update {objects : ObjectId → Option V} {s s' : Memberships M} {id : ObjectId}
    {obj : Option V} (hs : I.Lists objects s)
    (hother : ∀ m id', id' ≠ id → (id' ∈ s' m ↔ id' ∈ s m))
    (hid : ∀ m, id ∈ s' m ↔ ∃ o, obj = some o ∧ m ∈ I.members o) :
    I.Lists (Function.update objects id obj) s' := by
  intro m id'
  by_cases heq : id' = id
  · subst heq
    rw [Function.update_self]
    exact hid m
  · rw [Function.update_of_ne heq, hother m id' heq]
    exact hs m id'

/-- The callbacks keep the lists, but for what an index without `object_modified` misses. -/
theorem maintains : Maintains I.hooks I.Lists
    (fun was obj ↦ I.followsModify = true ∨ I.members was = I.members obj)
    (fun obj ↦ I.members obj = ∅) where
  inserted objects s id obj hs hfree := by
    refine lists_update hs (fun m id' hne ↦ ?_) fun m ↦ ?_
    · simp [hooks, mem_insertAll, hne]
    · have hold := hs m id
      rw [hfree] at hold
      simp [hooks, mem_insertAll, hold]
  removed objects s id was hs hwas := by
    refine lists_update hs (fun m id' hne ↦ ?_) fun m ↦ ?_
    · simp [hooks, mem_eraseAll, hne]
    · have hold := hs m id
      rw [hwas] at hold
      simp [hooks, mem_eraseAll, hold]
  modified objects s id was obj hs hwas hkeys := by
    refine lists_update hs (fun m id' hne ↦ ?_) fun m ↦ ?_
    · rw [hooks]
      split_ifs
      · simp [mem_insertAll, mem_eraseAll, hne]
      · rfl
    · have hold := hs m id
      rw [hwas] at hold
      have hold' : id ∈ s m ↔ m ∈ I.members was := by simp [hold]
      rw [hooks]
      split_ifs with hfollows
      · simp only [mem_insertAll, mem_eraseAll, hold', Finset.mem_sdiff, Option.some.injEq,
          exists_eq_left', true_and]
        tauto
      · rcases hkeys with htrue | heq
        · exact absurd htrue hfollows
        · simp [hold', heq]
  unindexed objects s id obj hs hfree hobj := by
    refine lists_update hs (fun m id' hne ↦ Iff.rfl) fun m ↦ ?_
    have hold := hs m id
    rw [hfree] at hold
    simp [hold, hobj]

omit [DecidableEq M] in
theorem lists_unique {objects : ObjectId → Option V} {s s' : Memberships M}
    (hs : I.Lists objects s) (hs' : I.Lists objects s') : s = s' := by
  funext m
  ext id
  rw [hs m id, hs' m id]

omit [DecidableEq M] in
theorem lists_empty : I.Lists (fun _ ↦ none) (fun _ ↦ ∅) := by
  intro m id
  simp

end SecondaryIndex

end Graphene
