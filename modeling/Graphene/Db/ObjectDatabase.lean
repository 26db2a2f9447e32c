import Mathlib.Data.List.AList
import Mathlib.Logic.Function.Basic

/-!
# The object database and its undo database

`object_database` (`libraries/db`) keeps every object of the chain state under its `object_id`,
and one `next_id` counter for each index (a pair of space and type).  Every mutation goes through
`create`, `modify` and `remove`, and each of these first tells the `undo_database` about it, which
records in the `undo_state` on top of its stack whatever is needed to take the change back:

* `UndoState` — the four containers of `undo_state`;
* `ObjectDatabase.create`, `modify`, `remove` — the mutators, with `onCreate`, `onModify` and
  `onRemove` of the undo database;
* `ObjectDatabase.startUndoSession`, `undo`, `merge`, `commit`, `popCommit` — the operations of
  `undo_database.cpp`;
* `Session` — the handle `start_undo_session` returns, and its `undo`, `merge`, `commit` and
  destructor.

An `FC_ASSERT` that fails is a `none`: every assertion below is checked before anything is
changed, so the state a throw leaves is the one the call started from.  The loops of `undo` and
`pop_commit` can refuse as well (`get_object` on an id that is not there, `insert` on one that
is); `Graphene.Db.UndoRefinement` shows that they never do.

The stack is a list with the top of the deque first, so `pop_front` drops from the end of it.
-/

set_option autoImplicit false

namespace Graphene

/-- The space and type an index is registered under. -/
structure IndexId where
  /-- `object_id_type::space()`. -/
  space : ℕ
  /-- `object_id_type::type()`. -/
  type : ℕ
deriving DecidableEq, Repr

/-- `object_id_type`: the index the object lives in and its instance number there. -/
structure ObjectId where
  /-- The index. -/
  index : IndexId
  /-- `object_id_type::instance()`. -/
  inst : ℕ
deriving DecidableEq, Repr

/-- All the primary indexes at once: what `find_object` answers, and the `_next_id` of each. -/
structure Indexes (V : Type) where
  /-- The object with a given id, if there is one. -/
  objects : ObjectId → Option V
  /-- The instance number the next object created in an index is given. -/
  nextId : IndexId → ℕ

/-- "All indexes assume that there exists an object ID space that will grow forever in a
sequential manner" (`index.hpp`): no live object has an id its index has yet to give out. -/
def Indexes.Fresh {V : Type} (ix : Indexes V) : Prop :=
  ∀ id, (ix.objects id).isSome → id.inst < ix.nextId id.index

/-- `unordered_map< object_id_type, unique_ptr<object> >`. -/
abbrev ObjectMap (V : Type) := AList fun _ : ObjectId ↦ V

/-- `undo_state`: what one undo session has to put back. -/
structure UndoState (V : Type) where
  /-- The values objects had before this session first modified them. -/
  oldValues : ObjectMap V := ∅
  /-- The `next_id` an index had before this session first created an object in it. -/
  oldIndexNextIds : AList fun _ : IndexId ↦ ℕ := ∅
  /-- The objects this session created. -/
  newIds : ObjectMap Unit := ∅
  /-- The objects this session removed, with the values they had before it. -/
  removed : ObjectMap V := ∅

/-- `undo_database`, less the reference to the objects it watches. -/
structure UndoDatabase (V : Type) where
  /-- `_active_sessions`. -/
  activeSessions : ℕ := 0
  /-- `_disabled`; `object_database::object_database` enables the undo database. -/
  disabled : Bool := false
  /-- `_stack`, the back of the deque first. -/
  stack : List (UndoState V) := []
  /-- `_max_size`. -/
  maxSize : ℕ := 256

/-- `object_database`: the indexes and the undo database that watches them. -/
structure ObjectDatabase (V : Type) where
  /-- The primary indexes. -/
  indexes : Indexes V
  /-- `_undo_db`. -/
  undoDb : UndoDatabase V := {}

variable {V : Type}

/-! ## Recording changes -/

/-- The undo state `on_create`, `on_modify` and `on_remove` write to: `_stack.back()`, after
`_stack.emplace_back()` if the stack is empty. -/
def UndoDatabase.recordIn (u : UndoDatabase V) (f : UndoState V → UndoState V) :
    UndoDatabase V :=
  if u.disabled then u
  else
    match u.stack with
    | [] => { u with stack := [f {}] }
    | state :: rest => { u with stack := f state :: rest }

/-- What `on_create` writes: the id, and the `next_id` of its index if this is the first object
created there. -/
def UndoState.onCreate (id : ObjectId) (state : UndoState V) : UndoState V :=
  { state with
    oldIndexNextIds :=
      if id.index ∈ state.oldIndexNextIds then state.oldIndexNextIds
      else state.oldIndexNextIds.insert id.index id.inst
    newIds := state.newIds.insert id () }

/-- What `on_modify` writes: the value before the modification, unless the object is new here or
an earlier value is already kept. -/
def UndoState.onModify (id : ObjectId) (obj : V) (state : UndoState V) : UndoState V :=
  if id ∈ state.newIds then state
  else if id ∈ state.oldValues then state
  else { state with oldValues := state.oldValues.insert id obj }

/-- What `on_remove` writes: an object created here is forgotten, one modified here moves with its
old value from `old_values` to `removed`, any other is kept as it is. -/
def UndoState.onRemove (id : ObjectId) (obj : V) (state : UndoState V) : UndoState V :=
  if id ∈ state.newIds then { state with newIds := state.newIds.erase id }
  else
    match state.oldValues.lookup id with
    | some was =>
      { state with
        removed := state.removed.insert id was
        oldValues := state.oldValues.erase id }
    | none =>
      if id ∈ state.removed then state
      else { state with removed := state.removed.insert id obj }

/-! ## The mutators -/

/-- `index::create`: insert `obj` under the next id and advance the counter; throws if the id is
taken. -/
def Indexes.create (ix : Indexes V) (index : IndexId) (obj : V) : Option (Indexes V) :=
  let id : ObjectId := ⟨index, ix.nextId index⟩
  if (ix.objects id).isSome then none
  else some
    { objects := Function.update ix.objects id (some obj)
      nextId := Function.update ix.nextId index (ix.nextId index + 1) }

/-- `index::modify`, on the object `get_object` finds. -/
def Indexes.modify (ix : Indexes V) (id : ObjectId) (obj : V) : Option (Indexes V) :=
  if (ix.objects id).isSome then
    some { ix with objects := Function.update ix.objects id (some obj) }
  else none

/-- `index::remove`, on the object `get_object` finds. -/
def Indexes.remove (ix : Indexes V) (id : ObjectId) : Option (Indexes V) :=
  if (ix.objects id).isSome then
    some { ix with objects := Function.update ix.objects id none }
  else none

/-- `index::insert`: throws if the id is taken. -/
def Indexes.insert (ix : Indexes V) (id : ObjectId) (obj : V) : Option (Indexes V) :=
  if (ix.objects id).isSome then none
  else some { ix with objects := Function.update ix.objects id (some obj) }

/-- `index::set_next_id`. -/
def Indexes.setNextId (ix : Indexes V) (index : IndexId) (next : ℕ) : Indexes V :=
  { ix with nextId := Function.update ix.nextId index next }

/-- `primary_index::create`: the undo database is told just after the object is added. -/
def ObjectDatabase.create (db : ObjectDatabase V) (index : IndexId) (obj : V) :
    Option (ObjectDatabase V) := do
  let ix ← db.indexes.create index obj
  return { indexes := ix
           undoDb := db.undoDb.recordIn (UndoState.onCreate ⟨index, db.indexes.nextId index⟩) }

/-- `primary_index::modify`: the undo database is told just before, with the value before. -/
def ObjectDatabase.modify (db : ObjectDatabase V) (id : ObjectId) (obj : V) :
    Option (ObjectDatabase V) := do
  let was ← db.indexes.objects id
  let ix ← db.indexes.modify id obj
  return { indexes := ix, undoDb := db.undoDb.recordIn (UndoState.onModify id was) }

/-- `primary_index::remove`: the undo database is told just before. -/
def ObjectDatabase.remove (db : ObjectDatabase V) (id : ObjectId) : Option (ObjectDatabase V) := do
  let was ← db.indexes.objects id
  let ix ← db.indexes.remove id
  return { indexes := ix, undoDb := db.undoDb.recordIn (UndoState.onRemove id was) }

/-! ## Undo, merge, commit -/

/-- The four loops `undo` and `pop_commit` share: put back the modified values, remove what is
new, reset the `next_id`s, insert what was removed.  The undo database is disabled while they
run, so they act on the indexes alone. -/
def UndoState.rewind (state : UndoState V) (ix : Indexes V) : Option (Indexes V) := do
  let ix ← state.oldValues.entries.foldlM (fun ix item ↦ ix.modify item.1 item.2) ix
  let ix ← state.newIds.entries.foldlM (fun ix item ↦ ix.remove item.1) ix
  let ix := state.oldIndexNextIds.entries.foldl (fun ix item ↦ ix.setNextId item.1 item.2) ix
  state.removed.entries.foldlM (fun ix item ↦ ix.insert item.1 item.2) ix

/-- `start_undo_session( force_enable )`, after the early return for a disabled undo database:
drop the oldest states while there are more than `max_size`, then push an empty one. -/
def UndoDatabase.push (u : UndoDatabase V) : UndoDatabase V :=
  { u with
    stack := {} :: u.stack.take u.maxSize
    activeSessions := u.activeSessions + 1
    disabled := false }

/-- `undo_database::undo`. -/
def ObjectDatabase.undo (db : ObjectDatabase V) : Option (ObjectDatabase V) :=
  if db.undoDb.disabled then none
  else if db.undoDb.activeSessions = 0 then none
  else
    match db.undoDb.stack with
    | [] => none
    | state :: rest => do
      let ix ← state.rewind db.indexes
      return { indexes := ix
               undoDb := { db.undoDb with
                           stack := if rest.isEmpty then [{}] else rest
                           activeSessions := db.undoDb.activeSessions - 1 } }

/-- The loop over `state.old_values` in `merge`, at one entry. -/
def UndoState.mergeOldValue (prev : UndoState V) (id : ObjectId) (was : V) : UndoState V :=
  if id ∈ prev.newIds then prev             -- new+upd -> new, type A
  else if id ∈ prev.oldValues then prev     -- upd(was=X) + upd(was=Y) -> upd(was=X), type A
  else { prev with oldValues := prev.oldValues.insert id was }

/-- The loop over `state.new_ids` in `merge`, at one entry. -/
def UndoState.mergeNewId (prev : UndoState V) (id : ObjectId) : UndoState V :=
  { prev with newIds := prev.newIds.insert id () }

/-- The loop over `state.old_index_next_ids` in `merge`, at one entry. -/
def UndoState.mergeNextId (prev : UndoState V) (index : IndexId) (next : ℕ) : UndoState V :=
  if index ∈ prev.oldIndexNextIds then prev
  else { prev with oldIndexNextIds := prev.oldIndexNextIds.insert index next }

/-- The loop over `state.removed` in `merge`, at one entry. -/
def UndoState.mergeRemoved (prev : UndoState V) (id : ObjectId) (was : V) : UndoState V :=
  if id ∈ prev.newIds then { prev with newIds := prev.newIds.erase id }  -- new + del -> nop
  else
    match prev.oldValues.lookup id with
    | some old =>                           -- upd(was=X) + del(was=Y) -> del(was=X)
      { prev with removed := prev.removed.insert id old, oldValues := prev.oldValues.erase id }
    | none => { prev with removed := prev.removed.insert id was }

/-- The composition of `prev_state` and `state` that `merge` builds in `prev_state`. -/
def UndoState.mergeInto (state prev : UndoState V) : UndoState V :=
  let prev := state.oldValues.entries.foldl (fun p item ↦ p.mergeOldValue item.1 item.2) prev
  let prev := state.newIds.entries.foldl (fun p item ↦ p.mergeNewId item.1) prev
  let prev := state.oldIndexNextIds.entries.foldl (fun p item ↦ p.mergeNextId item.1 item.2) prev
  state.removed.entries.foldl (fun p item ↦ p.mergeRemoved item.1 item.2) prev

/-- `undo_database::merge`. -/
def ObjectDatabase.merge (db : ObjectDatabase V) : Option (ObjectDatabase V) :=
  if db.undoDb.activeSessions = 0 then none
  else
    match db.undoDb.stack with
    | state :: prev :: rest =>
      some { db with undoDb := { db.undoDb with
                                 stack := state.mergeInto prev :: rest
                                 activeSessions := db.undoDb.activeSessions - 1 } }
    | _ => none

/-- `undo_database::commit`. -/
def ObjectDatabase.commit (db : ObjectDatabase V) : Option (ObjectDatabase V) :=
  if db.undoDb.activeSessions = 0 then none
  else some { db with undoDb := { db.undoDb with
                                  activeSessions := db.undoDb.activeSessions - 1 } }

/-- `undo_database::pop_commit`; it leaves the undo database enabled. -/
def ObjectDatabase.popCommit (db : ObjectDatabase V) : Option (ObjectDatabase V) :=
  if db.undoDb.activeSessions ≠ 0 then none
  else
    match db.undoDb.stack with
    | [] => none
    | state :: rest => do
      let ix ← state.rewind db.indexes
      return { indexes := ix, undoDb := { db.undoDb with stack := rest, disabled := false } }

/-! ## Session handles -/

/-- `undo_database::session`. -/
structure Session where
  /-- `_apply_undo`: the destructor will undo. -/
  applyUndo : Bool := true
  /-- `_disable_on_exit`: the destructor will disable the undo database again. -/
  disableOnExit : Bool := false
deriving DecidableEq, Repr

/-- `undo_database::start_undo_session( force_enable )`. -/
def ObjectDatabase.startUndoSession (db : ObjectDatabase V) (forceEnable : Bool := false) :
    ObjectDatabase V × Session :=
  if db.undoDb.disabled && !forceEnable then (db, {})
  else ({ db with undoDb := db.undoDb.push },
        { disableOnExit := db.undoDb.disabled && forceEnable })

/-- `session::undo`. -/
def Session.undo (s : Session) (db : ObjectDatabase V) : Option (ObjectDatabase V × Session) :=
  (if s.applyUndo then db.undo else some db).map fun db ↦ (db, { s with applyUndo := false })

/-- `session::merge`. -/
def Session.merge (s : Session) (db : ObjectDatabase V) : Option (ObjectDatabase V × Session) :=
  (if s.applyUndo then db.merge else some db).map fun db ↦ (db, { s with applyUndo := false })

/-- `session::commit`. -/
def Session.commit (s : Session) (db : ObjectDatabase V) :
    Option (ObjectDatabase V × Session) :=
  db.commit.map fun db ↦ (db, { s with applyUndo := false })

/-- `session::~session`. -/
def Session.destroy (s : Session) (db : ObjectDatabase V) : Option (ObjectDatabase V) :=
  (if s.applyUndo then db.undo else some db).map fun db ↦
    if s.disableOnExit then { db with undoDb := { db.undoDb with disabled := true } } else db

end Graphene
