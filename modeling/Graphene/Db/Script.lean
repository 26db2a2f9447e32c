import Graphene.Db.UndoRefinement

/-!
# Evaluations as scripts of database calls

Whatever a transaction, a proposal or a block means, all it does to the objects is a sequence of
`create`, `modify` and `remove`, some of them inside the undo session of a nested proposal, until
it either ends or throws.  `Script` is that sequence.

* `Script.exec` runs it on a database, undo states and all; a nested proposal gets the session
  `push_proposal` starts, which is merged if the proposal goes through and undone if it throws.
* `Script.eval` is what it means for the objects alone: a nested proposal that throws changes
  nothing.
* `Script.exec_spec` — the two agree, and the copies under the sessions that were already open
  stay, as long as no more than `max_size` sessions are ever nested.  Starting a session drops the
  oldest copies beyond `max_size`, so a script loses as many as it nests sessions deep.
-/

set_option autoImplicit false

namespace Graphene

variable {V : Type}

/-- One mutation. -/
inductive Edit (V : Type) where
  /-- `create` an object in an index. -/
  | create (index : IndexId) (obj : V)
  /-- `modify` an object. -/
  | modify (id : ObjectId) (obj : V)
  /-- `remove` an object. -/
  | remove (id : ObjectId)

/-- The mutation, on the objects alone. -/
def Edit.eval : Edit V → Indexes V → Option (Indexes V)
  | .create index obj, ix => ix.create index obj
  | .modify id obj, ix => ix.modify id obj
  | .remove id, ix => ix.remove id

/-- The mutation, on the database. -/
def Edit.exec : Edit V → ObjectDatabase V → Option (ObjectDatabase V)
  | .create index obj, db => db.create index obj
  | .modify id obj, db => db.modify id obj
  | .remove id, db => db.remove id

/-- What an evaluation does. -/
inductive Script (V : Type) where
  /-- It has returned. -/
  | done
  /-- It throws. -/
  | throw
  /-- It mutates an object, throwing if the database refuses, and goes on. -/
  | edit (e : Edit V) (rest : Script V)
  /-- It executes a proposal, whose exception it catches, and goes on. -/
  | proposal (body rest : Script V)

namespace Script

/-- How deep the script nests undo sessions. -/
def depth : Script V → ℕ
  | done | throw => 0
  | edit _ rest => rest.depth
  | proposal body rest => max (body.depth + 1) rest.depth

/-- What the script makes of the objects; `none` if it throws. -/
def eval : Script V → Indexes V → Option (Indexes V)
  | done, ix => some ix
  | throw, _ => none
  | edit e rest, ix => (e.eval ix).bind rest.eval
  | proposal body rest, ix => rest.eval ((body.eval ix).getD ix)

/-- The session of a nested proposal at its end: merged if the proposal went through, undone by
its destructor if the proposal, or the merge, threw. -/
def endProposal (ok : Bool) (s : Session) (db : ObjectDatabase V) : ObjectDatabase V :=
  match if ok then s.merge db else none with
  | some (db, s) => (s.destroy db).getD db
  | none => (s.destroy db).getD db

/-- Run the script; `true` if it returned, `false` if it threw. -/
def exec : Script V → ObjectDatabase V → Bool × ObjectDatabase V
  | done, db => (true, db)
  | throw, db => (false, db)
  | edit e rest, db =>
    match e.exec db with
    | some db => rest.exec db
    | none => (false, db)
  | proposal body rest, db =>
    let (db, s) := db.startUndoSession true
    let (ok, db) := body.exec db
    rest.exec (endProposal ok s db)

end Script

/-! ## Mutations -/

/-- `edit` on the copies: a mutator on a non-empty stack keeps every copy. -/
theorem ObjectDatabase.history_of_edit {db db' : ObjectDatabase V} (hne : db.history ≠ [])
    (he : db'.toCheckpoints = db.toCheckpoints.edit db'.indexes) : db'.history = db.history := by
  have hh : db'.history = db.toCheckpoints.recorded := congrArg Checkpoints.saved he
  rw [hh, Checkpoints.recorded, saved_toCheckpoints]
  cases h : db.history with
  | nil => exact absurd h hne
  | cons _ _ => rfl

@[simp] theorem UndoDatabase.maxSize_recordIn (u : UndoDatabase V)
    (f : UndoState V → UndoState V) : (u.recordIn f).maxSize = u.maxSize := by
  rw [recordIn]
  split_ifs
  · rfl
  · cases u.stack <;> rfl

/-- What the undo database writes down of an edit. -/
def Edit.record (ix : Indexes V) : Edit V → UndoState V → UndoState V
  | .create index _, state => state.onCreate ⟨index, ix.nextId index⟩
  | .modify id _, state => (ix.objects id).elim state fun was ↦ state.onModify id was
  | .remove id, state => (ix.objects id).elim state fun was ↦ state.onRemove id was

theorem Edit.exec_eq (e : Edit V) (db : ObjectDatabase V) :
    e.exec db =
      (e.eval db.indexes).map fun ix ↦ ⟨ix, db.undoDb.recordIn (e.record db.indexes)⟩ := by
  cases e with
  | create index obj =>
    simp only [exec, eval, ObjectDatabase.create]
    cases db.indexes.create index obj <;> rfl
  | modify id obj =>
    simp only [exec, eval, ObjectDatabase.modify, Indexes.modify]
    cases hwas : db.indexes.objects id with
    | none => rfl
    | some was =>
      have hrecord : (modify id obj).record db.indexes = UndoState.onModify id was := by
        funext state
        rw [record, hwas]
        rfl
      rw [hrecord]
      rfl
  | remove id =>
    simp only [exec, eval, ObjectDatabase.remove, Indexes.remove]
    cases hwas : db.indexes.objects id with
    | none => rfl
    | some was =>
      have hrecord : (remove (V := V) id).record db.indexes = UndoState.onRemove id was := by
        funext state
        rw [record, hwas]
        rfl
      rw [hrecord]
      rfl

/-- A mutator refuses on the database exactly when it does on the objects. -/
theorem Edit.exec_isSome (e : Edit V) (db : ObjectDatabase V) :
    (e.exec db).map ObjectDatabase.indexes = e.eval db.indexes := by
  rw [exec_eq, Option.map_map]
  exact Option.map_id'

theorem Edit.exec_undoDb {e : Edit V} {db db' : ObjectDatabase V} (h : e.exec db = some db') :
    db'.undoDb.activeSessions = db.undoDb.activeSessions ∧
      db'.undoDb.maxSize = db.undoDb.maxSize := by
  cases e with
  | create index obj =>
    obtain ⟨ix, -, hdb'⟩ := Option.bind_eq_some_iff.1 h
    obtain rfl := Option.some_inj.1 hdb'
    simp
  | modify id obj =>
    obtain ⟨was, -, h⟩ := Option.bind_eq_some_iff.1 h
    obtain ⟨ix, -, hdb'⟩ := Option.bind_eq_some_iff.1 h
    obtain rfl := Option.some_inj.1 hdb'
    simp
  | remove id =>
    obtain ⟨was, -, h⟩ := Option.bind_eq_some_iff.1 h
    obtain ⟨ix, -, hdb'⟩ := Option.bind_eq_some_iff.1 h
    obtain rfl := Option.some_inj.1 hdb'
    simp

/-- A mutator, as an edit of the objects that leaves the copies alone. -/
theorem Edit.exec_spec {e : Edit V} {db db' : ObjectDatabase V} (h : db.WF)
    (hne : db.history ≠ []) (he : e.exec db = some db') :
    db'.WF ∧ db'.history = db.history ∧ e.eval db.indexes = some db'.indexes := by
  cases e with
  | create index obj =>
    obtain ⟨hwf, hedit, hix⟩ := h.create he
    exact ⟨hwf, ObjectDatabase.history_of_edit hne hedit, hix⟩
  | modify id obj =>
    obtain ⟨hwf, hedit, hix⟩ := h.modify he
    exact ⟨hwf, ObjectDatabase.history_of_edit hne hedit, hix⟩
  | remove id =>
    obtain ⟨hwf, hedit, hix⟩ := h.remove he
    exact ⟨hwf, ObjectDatabase.history_of_edit hne hedit, hix⟩

/-! ## Scripts -/

/-- Starting a session, on the copies. -/
theorem ObjectDatabase.WF.startUndoSession {db : ObjectDatabase V} (h : db.WF) (force : Bool) :
    ∃ db', db.startUndoSession force = (db', {}) ∧ db'.WF ∧ db'.indexes = db.indexes ∧
      db'.history = db.indexes :: db.history.take db.undoDb.maxSize ∧
      db'.undoDb.activeSessions = db.undoDb.activeSessions + 1 ∧
      db'.undoDb.maxSize = db.undoDb.maxSize := by
  refine ⟨⟨db.indexes, db.undoDb.push⟩, ?_, h.push.1, rfl, ?_, rfl, rfl⟩
  · rw [ObjectDatabase.startUndoSession, h.enabled]
    rfl
  · exact congrArg Checkpoints.saved h.push.2

/-- Ending the session of a proposal that went through keeps the objects and drops the session's
copy; ending that of one that threw puts the copy back.  Either way the copies below it stay. -/
theorem Script.endProposal_spec {db : ObjectDatabase V} (h : db.WF)
    (hactive : db.undoDb.activeSessions ≠ 0) {ix ix' : Indexes V} {rest : List (Indexes V)}
    (hh : db.history = ix :: ix' :: rest) (ok : Bool) :
    (endProposal ok {} db).WF ∧
      (endProposal ok {} db).indexes = (if ok then db.indexes else ix) ∧
      (endProposal ok {} db).history = ix' :: rest ∧
      (endProposal ok {} db).undoDb.activeSessions = db.undoDb.activeSessions - 1 ∧
      (endProposal ok {} db).undoDb.maxSize = db.undoDb.maxSize := by
  cases ok with
  | true =>
    obtain ⟨db', hmerge, hwf, hix, hhist, hactive', hmax⟩ := h.merge hactive hh
    have hend : endProposal true {} db = db' := by
      simp [endProposal, Session.merge, Session.destroy, hmerge]
    rw [hend]
    exact ⟨hwf, hix, hhist, hactive', hmax⟩
  | false =>
    obtain ⟨db', hundo, hwf, hix, hhist, hactive', hmax⟩ := h.undo hactive hh
    have hend : endProposal false {} db = db' := by
      simp [endProposal, Session.destroy, hundo]
    rw [hend]
    exact ⟨hwf, hix, hhist, hactive', hmax⟩

/-- **Running a script does what it means**, and keeps the newest of the copies that were there:
all but as many of the oldest as the script nests sessions deep, counted down from the bound. -/
theorem Script.exec_spec (s : Script V) {db : ObjectDatabase V} (h : db.WF)
    (hne : db.history ≠ []) (hd : s.depth ≤ db.undoDb.maxSize) :
    (s.exec db).2.WF ∧
      s.eval db.indexes = (if (s.exec db).1 then some (s.exec db).2.indexes else none) ∧
      (∃ k, (s.exec db).2.history = db.history.take k ∧ db.undoDb.maxSize + 1 ≤ k + s.depth) ∧
      (s.exec db).2.undoDb.activeSessions = db.undoDb.activeSessions ∧
      (s.exec db).2.undoDb.maxSize = db.undoDb.maxSize := by
  induction s generalizing db with
  | done =>
    refine ⟨h, rfl, ⟨db.history.length + db.undoDb.maxSize + 1, ?_, by omega⟩, rfl, rfl⟩
    rw [List.take_of_length_le (by omega)]
    rfl
  | throw =>
    refine ⟨h, rfl, ⟨db.history.length + db.undoDb.maxSize + 1, ?_, by omega⟩, rfl, rfl⟩
    rw [List.take_of_length_le (by omega)]
    rfl
  | edit e rest ih =>
    have hsome := e.exec_isSome db
    cases he : e.exec db with
    | none =>
      rw [he, Option.map_none] at hsome
      simp only [exec, eval, he, ← hsome]
      refine ⟨h, rfl, ⟨db.history.length + db.undoDb.maxSize + 1, ?_, by omega⟩, trivial, trivial⟩
      rw [List.take_of_length_le (by omega)]
    | some db' =>
      obtain ⟨hwf, hhist, hix⟩ := Edit.exec_spec h hne he
      obtain ⟨hactive, hmax⟩ := Edit.exec_undoDb he
      have hih := ih hwf (hhist ▸ hne) (hmax ▸ hd)
      simp only [exec, eval, he, hix, Option.bind_some]
      rw [hhist, hactive, hmax] at hih
      exact hih
  | proposal body rest ihBody ihRest =>
    simp only [depth] at hd
    obtain ⟨db₁, hstart, hwf₁, hix₁, hhist₁, hactive₁, hmax₁⟩ := h.startUndoSession true
    obtain ⟨hwf₂, heval₂, ⟨k₂, hhist₂, hk₂⟩, hactive₂, hmax₂⟩ :=
      ihBody hwf₁ (by rw [hhist₁]; exact List.cons_ne_nil _ _) (by omega)
    simp only [exec, eval, hstart, depth]
    generalize body.exec db₁ = r at heval₂ hwf₂ hhist₂ hactive₂ hmax₂ ⊢
    obtain ⟨ok, db₂⟩ := r
    dsimp only at heval₂ hwf₂ hhist₂ hactive₂ hmax₂ ⊢
    -- the proposal's own copy and at least one below it are still there
    obtain ⟨ix', older, hold⟩ : ∃ ix' older, db.history.take (min (k₂ - 1) db.undoDb.maxSize) =
        ix' :: older := by
      cases hcase : db.history.take (min (k₂ - 1) db.undoDb.maxSize) with
      | nil =>
        rcases List.take_eq_nil_iff.1 hcase with h0 | h0
        · omega
        · exact absurd h0 hne
      | cons ix' older => exact ⟨ix', older, rfl⟩
    have hh₂ : db₂.history = db.indexes :: ix' :: older := by
      obtain ⟨j, rfl⟩ : ∃ j, k₂ = j + 1 := ⟨k₂ - 1, by omega⟩
      rw [hhist₂, hhist₁, List.take_succ_cons, List.take_take, ← hold]
      rfl
    obtain ⟨hwf₃, hix₃, hhist₃, hactive₃, hmax₃⟩ :=
      endProposal_spec hwf₂ (by omega) hh₂ ok
    obtain ⟨hwf₄, heval₄, ⟨k₄, hhist₄, hk₄⟩, hactive₄, hmax₄⟩ :=
      ihRest hwf₃ (by rw [hhist₃]; exact List.cons_ne_nil _ _) (by omega)
    have hix : (body.eval db.indexes).getD db.indexes = (endProposal ok {} db₂).indexes := by
      rw [hix₃, ← hix₁, heval₂]
      cases ok <;> rfl
    refine ⟨hwf₄, ?_, ⟨min k₄ (min (k₂ - 1) db.undoDb.maxSize), ?_, by omega⟩, by omega, by omega⟩
    · rw [hix, heval₄]
    · rw [hhist₄, hhist₃, ← hold, List.take_take]

end Graphene
