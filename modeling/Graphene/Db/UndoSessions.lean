import Graphene.Db.UndoRefinement
import Mathlib.Data.List.Forall2

/-!
# Whole runs of undo sessions

A caller of the object database holds session handles and calls `undo`, `merge` and `commit` on
them, in any order the assertions of the undo database admit.  The undo database does not know the
handles: `session::undo` undoes whatever is on top of the stack.  `UndoRun` is a database with the
handles its caller holds, numbered in the order in which they were handed out, and two records
kept for the proof only: what the indexes were when each session was started, and which session
pushed each undo state of the stack.

* `UndoRun.Inv` and `inv_run` — at every point of every run, the undo state a session pushed
  stands for the indexes that session was started on, however many others were merged into it.
* `undo_restores_session_start` — hence undoing a session, or popping its commit, puts exactly
  these indexes back, provided the state on top of the stack is its own.
* `undo_outer_after_inner_commit` — the proviso is needed: the assertions admit committing an
  inner session and then undoing the outer one, which undoes the wrong state.
* `top_of_nested` — callers that end sessions innermost first, and commit only when no other
  session is open, always meet it.
-/

set_option autoImplicit false

namespace Graphene

variable {V : Type}

/-- The calls a user of the object database makes; sessions are named by their number. -/
inductive UndoCall (V : Type) where
  /-- `_undo_db.start_undo_session()`. -/
  | startUndoSession
  /-- `session::undo`. -/
  | undo (session : ℕ)
  /-- `session::merge`. -/
  | merge (session : ℕ)
  /-- `session::commit`. -/
  | commit (session : ℕ)
  /-- `_undo_db.pop_commit()`. -/
  | popCommit
  /-- `create` of an object in an index. -/
  | create (index : IndexId) (obj : V)
  /-- `modify` of an object to a new value. -/
  | modify (id : ObjectId) (obj : V)
  /-- `remove` of an object. -/
  | remove (id : ObjectId)

/-- A database, the session handles handed out so far, and a record of where they came from. -/
structure UndoRun (V : Type) where
  /-- The database. -/
  db : ObjectDatabase V
  /-- The session handles, oldest first. -/
  sessions : List Session := []
  /-- The indexes each session was started on. -/
  startedAt : List (Indexes V) := []
  /-- The session that pushed each undo state, top of the stack first; `none` for the base states
  the undo database pushes onto an empty stack by itself. -/
  owners : List (Option ℕ) := []

/-- A caller that holds no session yet, on a database with an empty undo stack. -/
def UndoRun.init (ix : Indexes V) (maxSize : ℕ) : UndoRun V :=
  { db := { indexes := ix, undoDb := { maxSize := maxSize } } }

namespace UndoRun

/-- The owners after something is recorded: an empty stack gets a base state. -/
def recorded (owners : List (Option ℕ)) : List (Option ℕ) :=
  if owners.isEmpty then [none] else owners

/-- One call; `none` when an assertion of the code refuses it. -/
def step (r : UndoRun V) : UndoCall V → Option (UndoRun V)
  | .startUndoSession =>
    let (db, s) := r.db.startUndoSession
    some { db, sessions := r.sessions ++ [s], startedAt := r.startedAt ++ [r.db.indexes]
           owners := some r.sessions.length :: r.owners.take r.db.undoDb.maxSize }
  | .undo h => do
    let s ← r.sessions[h]?
    let (db, s') ← s.undo r.db
    return { r with db, sessions := r.sessions.set h s'
                    owners := if s.applyUndo then recorded r.owners.tail else r.owners }
  | .merge h => do
    let s ← r.sessions[h]?
    let (db, s') ← s.merge r.db
    return { r with db, sessions := r.sessions.set h s'
                    owners := if s.applyUndo then r.owners.tail else r.owners }
  | .commit h => do
    let s ← r.sessions[h]?
    let (db, s') ← s.commit r.db
    return { r with db, sessions := r.sessions.set h s' }
  | .popCommit => do
    let db ← r.db.popCommit
    return { r with db, owners := r.owners.tail }
  | .create index obj => do
    let db ← r.db.create index obj
    return { r with db, owners := recorded r.owners }
  | .modify id obj => do
    let db ← r.db.modify id obj
    return { r with db, owners := recorded r.owners }
  | .remove id => do
    let db ← r.db.remove id
    return { r with db, owners := recorded r.owners }

/-- A sequence of calls. -/
def run (r : UndoRun V) (calls : List (UndoCall V)) : Option (UndoRun V) := calls.foldlM step r

/-- The session `h` has been started and neither undone, merged nor committed. -/
def Live (r : UndoRun V) (h : ℕ) : Prop := ∃ s, r.sessions[h]? = some s ∧ s.applyUndo = true

/-- The undo state on top of the stack is the one the session `h` pushed. -/
def Top (r : UndoRun V) (h : ℕ) : Prop := r.owners.head? = some (some h)

/-! ## The invariant -/

/-- The copy an undo state stands for is what the session that pushed it was started on. -/
def Owns (startedAt : List (Indexes V)) (copy : Indexes V) (owner : Option ℕ) : Prop :=
  ∀ h, owner = some h → startedAt[h]? = some copy

/-- The invariant of every run. -/
structure Inv (r : UndoRun V) : Prop where
  /-- The undo database is a record of how the indexes came about. -/
  wf : r.db.WF
  /-- Every undo state stands for the indexes its session was started on. -/
  owns : List.Forall₂ (Owns r.startedAt) r.db.history r.owners
  /-- Every session's start has been noted. -/
  length_eq : r.startedAt.length = r.sessions.length

theorem inv_init {ix : Indexes V} (h : ix.Fresh) (maxSize : ℕ) : (init ix maxSize).Inv where
  wf := ⟨rfl, h, trivial⟩
  owns := List.Forall₂.nil
  length_eq := rfl

/-- Recording a change keeps every copy, and adds the base state to an empty stack. -/
theorem forall₂_edit {startedAt : List (Indexes V)} {db db' : ObjectDatabase V}
    {owners : List (Option ℕ)} (h : List.Forall₂ (Owns startedAt) db.history owners)
    (he : db'.toCheckpoints = db.toCheckpoints.edit db'.indexes) :
    List.Forall₂ (Owns startedAt) db'.history (recorded owners) := by
  have hh : db'.history = db.toCheckpoints.recorded := congrArg Checkpoints.saved he
  rw [hh, Checkpoints.recorded, recorded, ObjectDatabase.saved_toCheckpoints]
  generalize db.history = copies at h
  cases h with
  | nil => exact List.Forall₂.cons (fun _ hn ↦ absurd hn (by simp)) List.Forall₂.nil
  | cons hc hrest => exact List.Forall₂.cons hc hrest

theorem Owns.mono {startedAt extra : List (Indexes V)} {copy : Indexes V} {owner : Option ℕ}
    (h : Owns startedAt copy owner) : Owns (startedAt ++ extra) copy owner := by
  intro k hk
  have hsome := h k hk
  have hlt : k < startedAt.length := (List.getElem?_eq_some_iff.1 hsome).1
  rw [List.getElem?_append_left hlt]
  exact hsome

theorem forall₂_tail {α β : Type*} {R : α → β → Prop} {a : α} {l : List α} {l' : List β}
    (h : List.Forall₂ R (a :: l) l') : List.Forall₂ R l l'.tail := by
  cases h with
  | cons _ hrest => exact hrest

theorem inv_start {r r' : UndoRun V} (h : r.Inv) (hs : r.step .startUndoSession = some r') :
    r'.Inv := by
  have hpush := h.wf.push
  have hstart : r.db.startUndoSession = (⟨r.db.indexes, r.db.undoDb.push⟩, {}) := by
    simp [ObjectDatabase.startUndoSession, h.wf.enabled]
  rw [step, hstart] at hs
  obtain rfl := Option.some_inj.1 hs
  refine ⟨hpush.1, ?_, by simp [h.length_eq]⟩
  have hh : (ObjectDatabase.mk r.db.indexes r.db.undoDb.push).history =
      r.db.indexes :: r.db.history.take r.db.undoDb.maxSize :=
    congrArg Checkpoints.saved hpush.2
  rw [hh]
  refine List.Forall₂.cons (fun k hk ↦ ?_) ?_
  · rw [← Option.some_inj.1 hk, ← h.length_eq]
    simp
  · exact (List.forall₂_take _ h.owns).imp fun _ _ ho ↦ ho.mono

/-- What the calls on a session handle do. -/
theorem step_undo {r r' : UndoRun V} {k : ℕ} (hs : r.step (.undo k) = some r') :
    ∃ s db, r.sessions[k]? = some s ∧ (if s.applyUndo then r.db.undo else some r.db) = some db ∧
      r' = { r with db, sessions := r.sessions.set k { s with applyUndo := false }
                    owners := if s.applyUndo then recorded r.owners.tail else r.owners } := by
  simp only [step, Option.bind_eq_bind, Option.bind_eq_some_iff] at hs
  obtain ⟨s, hsk, ⟨db', s'⟩, hundo, hr'⟩ := hs
  obtain ⟨db, hdb, hpair⟩ := Option.map_eq_some_iff.1 hundo
  obtain ⟨rfl, rfl⟩ := Prod.mk.inj hpair
  exact ⟨s, db, hsk, hdb, (Option.some_inj.1 hr').symm⟩

theorem step_merge {r r' : UndoRun V} {k : ℕ} (hs : r.step (.merge k) = some r') :
    ∃ s db, r.sessions[k]? = some s ∧ (if s.applyUndo then r.db.merge else some r.db) = some db ∧
      r' = { r with db, sessions := r.sessions.set k { s with applyUndo := false }
                    owners := if s.applyUndo then r.owners.tail else r.owners } := by
  simp only [step, Option.bind_eq_bind, Option.bind_eq_some_iff] at hs
  obtain ⟨s, hsk, ⟨db', s'⟩, hmerge, hr'⟩ := hs
  obtain ⟨db, hdb, hpair⟩ := Option.map_eq_some_iff.1 hmerge
  obtain ⟨rfl, rfl⟩ := Prod.mk.inj hpair
  exact ⟨s, db, hsk, hdb, (Option.some_inj.1 hr').symm⟩

theorem step_commit {r r' : UndoRun V} {k : ℕ} (hs : r.step (.commit k) = some r') :
    ∃ s db, r.sessions[k]? = some s ∧ r.db.commit = some db ∧
      r' = { r with db, sessions := r.sessions.set k { s with applyUndo := false } } := by
  simp only [step, Option.bind_eq_bind, Option.bind_eq_some_iff] at hs
  obtain ⟨s, hsk, ⟨db', s'⟩, hcommit, hr'⟩ := hs
  obtain ⟨db, hdb, hpair⟩ := Option.map_eq_some_iff.1 hcommit
  obtain ⟨rfl, rfl⟩ := Prod.mk.inj hpair
  exact ⟨s, db, hsk, hdb, (Option.some_inj.1 hr').symm⟩

theorem step_popCommit {r r' : UndoRun V} (hs : r.step .popCommit = some r') :
    ∃ db, r.db.popCommit = some db ∧ r' = { r with db, owners := r.owners.tail } := by
  simp only [step, Option.bind_eq_bind, Option.bind_eq_some_iff] at hs
  obtain ⟨db, hdb, hr'⟩ := hs
  exact ⟨db, hdb, (Option.some_inj.1 hr').symm⟩

/-- A mutator that has changed the database recorded the change. -/
theorem step_edit {r r' : UndoRun V} {edited : Option (ObjectDatabase V)}
    (hs : (do let db ← edited; return { r with db, owners := recorded r.owners }) = some r') :
    ∃ db, edited = some db ∧ r' = { r with db, owners := recorded r.owners } := by
  obtain ⟨db, hdb, hr'⟩ := Option.bind_eq_some_iff.1 hs
  exact ⟨db, hdb, (Option.some_inj.1 hr').symm⟩

theorem activeSessions_undo {db db' : ObjectDatabase V} (h : db.undo = some db') :
    db.undoDb.activeSessions ≠ 0 ∧ db.undoDb.stack ≠ [] ∧
      db'.undoDb.activeSessions = db.undoDb.activeSessions - 1 := by
  rw [ObjectDatabase.undo] at h
  split_ifs at h with hdis hactive
  cases hst : db.undoDb.stack with
  | nil => simp [hst] at h
  | cons state rest =>
    simp only [hst] at h
    obtain ⟨ix, -, hdb'⟩ := Option.bind_eq_some_iff.1 h
    obtain rfl := Option.some_inj.1 hdb'
    exact ⟨hactive, by simp, rfl⟩

theorem activeSessions_merge {db db' : ObjectDatabase V} (h : db.merge = some db') :
    db.undoDb.activeSessions ≠ 0 ∧ 2 ≤ db.undoDb.stack.length ∧
      db'.undoDb.activeSessions = db.undoDb.activeSessions - 1 := by
  rw [ObjectDatabase.merge] at h
  split_ifs at h with hactive
  split at h
  · obtain rfl := Option.some_inj.1 h
    rename_i hst
    exact ⟨hactive, by simp [hst], rfl⟩
  · cases h

theorem activeSessions_commit {db db' : ObjectDatabase V} (h : db.commit = some db') :
    db'.indexes = db.indexes ∧ db'.undoDb.disabled = db.undoDb.disabled ∧
      db'.undoDb.stack = db.undoDb.stack ∧
      db'.undoDb.activeSessions = db.undoDb.activeSessions - 1 := by
  rw [ObjectDatabase.commit] at h
  split_ifs at h
  obtain rfl := Option.some_inj.1 h
  exact ⟨rfl, rfl, rfl, rfl⟩

theorem activeSessions_popCommit {db db' : ObjectDatabase V} (h : db.popCommit = some db') :
    db.undoDb.activeSessions = 0 ∧ db.undoDb.stack ≠ [] ∧ db'.undoDb.activeSessions = 0 := by
  rw [ObjectDatabase.popCommit] at h
  split_ifs at h with hactive
  cases hst : db.undoDb.stack with
  | nil => simp [hst] at h
  | cons state rest =>
    simp only [hst] at h
    obtain ⟨ix, -, hdb'⟩ := Option.bind_eq_some_iff.1 h
    obtain rfl := Option.some_inj.1 hdb'
    exact ⟨not_not.1 hactive, by simp, not_not.1 hactive⟩

theorem inv_undo {r r' : UndoRun V} (h : r.Inv) {k : ℕ} (hs : r.step (.undo k) = some r') :
    r'.Inv := by
  obtain ⟨s, db, hsk, hdb, rfl⟩ := step_undo hs
  by_cases happly : s.applyUndo
  · rw [if_pos happly] at hdb
    obtain ⟨hactive, hstack, -⟩ := activeSessions_undo hdb
    have howns := h.owns
    cases hh : r.db.history with
    | nil =>
      refine absurd ?_ hstack
      rw [← List.length_eq_zero_iff, ← ObjectDatabase.length_history, hh, List.length_nil]
    | cons ix rest =>
      obtain ⟨db', hdb', hwf, -, hhist, -⟩ := h.wf.undo hactive hh
      obtain rfl := Option.some_inj.1 (hdb'.symm.trans hdb)
      rw [hh] at howns
      refine ⟨hwf, ?_, by simpa using h.length_eq⟩
      simp only [happly, if_true, hhist]
      have hrest := forall₂_tail howns
      generalize r.owners.tail = owners at hrest
      cases hrest with
      | nil => exact List.Forall₂.cons (fun _ hn ↦ absurd hn (by simp)) List.Forall₂.nil
      | cons hc hrest => exact List.Forall₂.cons hc hrest
  · rw [if_neg happly] at hdb
    obtain rfl := Option.some_inj.1 hdb
    exact ⟨h.wf, by simpa [happly] using h.owns, by simpa using h.length_eq⟩

theorem inv_merge {r r' : UndoRun V} (h : r.Inv) {k : ℕ} (hs : r.step (.merge k) = some r') :
    r'.Inv := by
  obtain ⟨s, db, hsk, hdb, rfl⟩ := step_merge hs
  by_cases happly : s.applyUndo
  · rw [if_pos happly] at hdb
    obtain ⟨hactive, hstack, -⟩ := activeSessions_merge hdb
    rw [← ObjectDatabase.length_history] at hstack
    have howns := h.owns
    rcases hh : r.db.history with - | ⟨ix, - | ⟨ix', rest⟩⟩
    · simp [hh] at hstack
    · simp [hh] at hstack
    · obtain ⟨db', hdb', hwf, -, hhist, -⟩ := h.wf.merge hactive hh
      obtain rfl := Option.some_inj.1 (hdb'.symm.trans hdb)
      rw [hh] at howns
      refine ⟨hwf, ?_, by simpa using h.length_eq⟩
      simp only [happly, if_true, hhist]
      exact forall₂_tail howns
  · rw [if_neg happly] at hdb
    obtain rfl := Option.some_inj.1 hdb
    exact ⟨h.wf, by simpa [happly] using h.owns, by simpa using h.length_eq⟩

theorem inv_commit {r r' : UndoRun V} (h : r.Inv) {k : ℕ} (hs : r.step (.commit k) = some r') :
    r'.Inv := by
  obtain ⟨s, db, hsk, hdb, rfl⟩ := step_commit hs
  obtain ⟨hix, hdis, hst, -⟩ := activeSessions_commit hdb
  have hwf : db.WF := ⟨hdis.trans h.wf.enabled, hix ▸ h.wf.fresh, by
    rw [hix, hst]
    exact h.wf.coherent⟩
  refine ⟨hwf, ?_, by simpa using h.length_eq⟩
  rw [ObjectDatabase.history, hix, hst]
  exact h.owns

theorem inv_popCommit {r r' : UndoRun V} (h : r.Inv) (hs : r.step .popCommit = some r') :
    r'.Inv := by
  obtain ⟨db, hdb, rfl⟩ := step_popCommit hs
  obtain ⟨hactive, hstack, -⟩ := activeSessions_popCommit hdb
  have howns := h.owns
  cases hh : r.db.history with
  | nil =>
    refine absurd ?_ hstack
    rw [← List.length_eq_zero_iff, ← ObjectDatabase.length_history, hh, List.length_nil]
  | cons ix rest =>
    obtain ⟨db', hdb', hwf, -, hhist, -⟩ := h.wf.popCommit hactive hh
    obtain rfl := Option.some_inj.1 (hdb'.symm.trans hdb)
    rw [hh] at howns
    refine ⟨hwf, ?_, h.length_eq⟩
    rw [hhist]
    exact forall₂_tail howns

/-- **Every call keeps the invariant.** -/
theorem inv_step {r r' : UndoRun V} {call : UndoCall V} (h : r.Inv) (hs : r.step call = some r') :
    r'.Inv := by
  cases call with
  | startUndoSession => exact inv_start h hs
  | undo k => exact inv_undo h hs
  | merge k => exact inv_merge h hs
  | commit k => exact inv_commit h hs
  | popCommit => exact inv_popCommit h hs
  | create index obj =>
    obtain ⟨db, hdb, rfl⟩ := step_edit hs
    obtain ⟨hwf, he, -⟩ := h.wf.create hdb
    exact ⟨hwf, forall₂_edit h.owns he, h.length_eq⟩
  | modify id obj =>
    obtain ⟨db, hdb, rfl⟩ := step_edit hs
    obtain ⟨hwf, he, -⟩ := h.wf.modify hdb
    exact ⟨hwf, forall₂_edit h.owns he, h.length_eq⟩
  | remove id =>
    obtain ⟨db, hdb, rfl⟩ := step_edit hs
    obtain ⟨hwf, he, -⟩ := h.wf.remove hdb
    exact ⟨hwf, forall₂_edit h.owns he, h.length_eq⟩

theorem inv_run {r r' : UndoRun V} {calls : List (UndoCall V)} (h : r.Inv)
    (hr : r.run calls = some r') : r'.Inv := by
  induction calls generalizing r with
  | nil =>
    obtain rfl := Option.some_inj.1 hr
    exact h
  | cons call calls ih =>
    rw [run, List.foldlM_cons] at hr
    obtain ⟨r₁, h₁, hr₁⟩ := Option.bind_eq_some_iff.1 hr
    exact ih (inv_step h h₁) hr₁

/-! ## Undoing a session -/

/-- The copy that was made for the session whose undo state is on top. -/
theorem history_of_top {r : UndoRun V} (hinv : r.Inv) {h : ℕ} (htop : r.Top h) :
    ∃ copy rest, r.db.history = copy :: rest ∧ r.startedAt[h]? = some copy := by
  obtain ⟨owners, hown⟩ : ∃ owners, r.owners = some h :: owners := by
    rw [Top] at htop
    exact List.head?_eq_some_iff.1 htop
  have howns := hinv.owns
  rw [hown] at howns
  cases hh : r.db.history with
  | nil =>
    rw [hh] at howns
    cases howns
  | cons copy rest =>
    rw [hh] at howns
    refine ⟨copy, rest, rfl, ?_⟩
    cases howns with
    | cons hc _ => exact hc h rfl

/-- A live session whose undo state is on top can be undone, if the database counts one. -/
theorem undo_of_top {r : UndoRun V} (hinv : r.Inv) {h : ℕ} (htop : r.Top h) (hlive : r.Live h)
    (hactive : r.db.undoDb.activeSessions ≠ 0) {copy : Indexes V}
    (hcopy : r.startedAt[h]? = some copy) :
    ∃ r', r.step (.undo h) = some r' ∧ r'.db.indexes = copy := by
  obtain ⟨copy', rest, hh, hcopy'⟩ := history_of_top hinv htop
  obtain rfl := Option.some.inj (hcopy.symm.trans hcopy')
  obtain ⟨s, hs, happly⟩ := hlive
  obtain ⟨db', hdb', -, hix', -⟩ := hinv.wf.undo hactive hh
  have hundo : s.undo r.db = some (db', { s with applyUndo := false }) := by
    rw [Session.undo, if_pos happly, hdb', Option.map_some]
  refine ⟨{ r with db := db', sessions := r.sessions.set h { s with applyUndo := false }
                   owners := recorded r.owners.tail }, ?_, hix'⟩
  simp [step, hs, hundo, happly]

/-- **Undoing a session restores the database it was started on.**  In every run from a database
whose ids are in order, when the undo state on top of the stack is the one the session `h` pushed:
undoing `h`, if it is still live, leaves exactly the objects and the `next_id`s the database had
when `h` was started, and so does popping its commit when no session is active. -/
theorem undo_restores_session_start {ix : Indexes V} (hix : ix.Fresh) {maxSize : ℕ}
    {calls : List (UndoCall V)} {r : UndoRun V} (hr : (init ix maxSize).run calls = some r)
    {h : ℕ} (htop : r.Top h) :
    ∃ copy, r.startedAt[h]? = some copy ∧
      (r.Live h → r.db.undoDb.activeSessions ≠ 0 →
        ∃ r', r.step (.undo h) = some r' ∧ r'.db.indexes = copy) ∧
      (r.db.undoDb.activeSessions = 0 →
        ∃ r', r.step .popCommit = some r' ∧ r'.db.indexes = copy) := by
  have hinv := inv_run (inv_init hix maxSize) hr
  obtain ⟨copy, rest, hh, hcopy⟩ := history_of_top hinv htop
  refine ⟨copy, hcopy, fun hlive hactive ↦ undo_of_top hinv htop hlive hactive hcopy,
    fun hactive ↦ ?_⟩
  obtain ⟨db', hdb', -, hix', -⟩ := hinv.wf.popCommit hactive hh
  refine ⟨{ r with db := db', owners := r.owners.tail }, ?_, hix'⟩
  simp [step, hdb']

/-- The empty indexes. -/
def emptyIndexes (V : Type) : Indexes V := { objects := fun _ ↦ none, nextId := fun _ ↦ 0 }

theorem fresh_emptyIndexes : (emptyIndexes V).Fresh := fun _ h ↦ absurd h (by simp [emptyIndexes])

/-- A session, an object created in it, and a second session modifying the object that is merged
into the first. -/
def mergedCalls : List (UndoCall ℕ) :=
  [.startUndoSession, .create ⟨1, 2⟩ 7, .startUndoSession, .modify ⟨⟨1, 2⟩, 0⟩ 8, .merge 1]

theorem undo_restores_session_start_merged :
    ∃ r, (init (emptyIndexes ℕ) 256).run mergedCalls = some r ∧ r.Top 0 ∧
      ∃ copy, r.startedAt[0]? = some copy ∧
        (r.Live 0 → r.db.undoDb.activeSessions ≠ 0 →
          ∃ r', r.step (.undo 0) = some r' ∧ r'.db.indexes = copy) ∧
        (r.db.undoDb.activeSessions = 0 →
          ∃ r', r.step .popCommit = some r' ∧ r'.db.indexes = copy) := by
  have howners : ((init (emptyIndexes ℕ) 256).run mergedCalls).map owners = some [some 0] := by
    decide
  obtain ⟨r, hr, hown⟩ := Option.map_eq_some_iff.1 howners
  have htop : r.Top 0 := by rw [Top, hown]; rfl
  exact ⟨r, hr, htop, undo_restores_session_start fresh_emptyIndexes hr htop⟩

/-- **The assertions alone do not pair sessions with undo states.**  Commit a session that was
started inside another, then undo the outer one: the state that is undone is the inner session's,
and what was created before it stays. -/
theorem undo_outer_after_inner_commit :
    ¬ ∀ (calls : List (UndoCall ℕ)) (r r' : UndoRun ℕ) (h : ℕ),
      (init (emptyIndexes ℕ) 256).run calls = some r → r.Live h → r.step (.undo h) = some r' →
        r.startedAt[h]? = some r'.db.indexes := by
  intro hall
  let calls : List (UndoCall ℕ) :=
    [.startUndoSession, .create ⟨1, 2⟩ 7, .startUndoSession, .commit 1]
  have hrun : (((init (emptyIndexes ℕ) 256).run calls).bind fun r ↦ (r.step (.undo 0)).map fun r' ↦
      (r.sessions.map Session.applyUndo, r.startedAt.map fun ix ↦ ix.objects ⟨⟨1, 2⟩, 0⟩,
        r'.db.indexes.objects ⟨⟨1, 2⟩, 0⟩)) =
      some ([true, false], [none, some 7], some 7) := by
    decide
  obtain ⟨r, hr, hrun⟩ := Option.bind_eq_some_iff.1 hrun
  obtain ⟨r', hr', hrun⟩ := Option.map_eq_some_iff.1 hrun
  obtain ⟨hsessions, hstarted, hobj⟩ : _ ∧ _ ∧ _ := by simpa using hrun
  obtain ⟨s, hs, happly⟩ : ∃ s, r.sessions[0]? = some s ∧ s.applyUndo = true := by
    have := congrArg (·[0]?) hsessions
    simpa using this
  have hstart := hall calls r r' 0 hr ⟨s, hs, happly⟩ hr'
  have hnone := congrArg (·[0]?) hstarted
  rw [List.getElem?_map, hstart, Option.map_some, hobj] at hnone
  exact absurd hnone (by decide)

/-! ## Callers that nest their sessions -/

/-- A call a caller makes that ends its sessions innermost first, commits a session only when it
is the only one, and starts one only when the stack is within `max_size`. -/
def Nested (r : UndoRun V) : UndoCall V → Prop
  | .startUndoSession => r.db.undoDb.stack.length ≤ r.db.undoDb.maxSize
  | .undo h | .merge h => r.Live h ∧ ∀ k, r.Live k → k ≤ h
  | .commit h => r.Live h ∧ ∀ k, r.Live k → k = h
  | _ => True

/-- What such a caller can reach. -/
inductive NestedReach (ix : Indexes V) (maxSize : ℕ) : UndoRun V → Prop
  | init : NestedReach ix maxSize (init ix maxSize)
  | step {r r' : UndoRun V} {call : UndoCall V} (hr : NestedReach ix maxSize r)
      (hn : r.Nested call) (hs : r.step call = some r') : NestedReach ix maxSize r'

/-- The live sessions are the ones the top of the stack belongs to, in order. -/
structure Open (r : UndoRun V) (live : List ℕ) : Prop where
  /-- The newest session comes first. -/
  sorted : live.Pairwise (· > ·)
  /-- These are the live sessions. -/
  mem_iff : ∀ k, k ∈ live ↔ r.Live k
  /-- Their undo states are on top of the stack. -/
  top : ∃ rest, r.owners = live.map some ++ rest
  /-- Each of them counts as active. -/
  active : r.db.undoDb.activeSessions = live.length

theorem open_init (ix : Indexes V) (maxSize : ℕ) : (init ix maxSize).Open [] where
  sorted := List.Pairwise.nil
  mem_iff := fun k ↦ by simp [Live, init]
  top := ⟨[], rfl⟩
  active := rfl

theorem top_recorded {owners rest : List (Option ℕ)} {live : List ℕ}
    (h : owners = live.map some ++ rest) : ∃ rest', recorded owners = live.map some ++ rest' := by
  rw [recorded]
  split_ifs with hempty
  · rw [List.isEmpty_iff.1 hempty] at h
    obtain ⟨hlive, -⟩ := List.append_eq_nil_iff.1 h.symm
    exact ⟨[none], by rw [hlive, List.nil_append]⟩
  · exact ⟨rest, h⟩

/-- The innermost of the live sessions heads the list of them. -/
theorem Open.eq_cons {r : UndoRun V} {live : List ℕ} (ho : r.Open live) {h : ℕ} (hl : r.Live h)
    (hmax : ∀ k, r.Live k → k ≤ h) : ∃ rest, live = h :: rest := by
  have hmem := (ho.mem_iff h).2 hl
  cases live with
  | nil => simp at hmem
  | cons k rest =>
    have hk := hmax k ((ho.mem_iff k).1 (List.mem_cons_self ..))
    rcases List.mem_cons.1 hmem with rfl | hrest
    · exact ⟨rest, rfl⟩
    · have := List.rel_of_pairwise_cons ho.sorted hrest
      omega

theorem live_set {r : UndoRun V} {h : ℕ} {s : Session} (hs : s.applyUndo = false)
    (db : ObjectDatabase V) (owners : List (Option ℕ)) (k : ℕ) :
    Live { r with db, sessions := r.sessions.set h s, owners } k ↔ k ≠ h ∧ r.Live k := by
  simp only [Live, List.getElem?_set]
  rcases eq_or_ne h k with rfl | hne
  · simp only [if_true, ne_eq, not_true_eq_false, false_and, iff_false]
    rintro ⟨s', hs', happly⟩
    split_ifs at hs'
    obtain rfl := Option.some_inj.1 hs'
    rw [hs] at happly
    cases happly
  · simp [hne, hne.symm]

/-- Ending the innermost session uncovers the next one. -/
theorem Open.close {r : UndoRun V} {h : ℕ} {live : List ℕ} (ho : r.Open (h :: live))
    {s : Session} (hs : s.applyUndo = false) {db : ObjectDatabase V}
    (hactive : db.undoDb.activeSessions = r.db.undoDb.activeSessions - 1)
    {owners : List (Option ℕ)} (htop : ∃ rest, owners = live.map some ++ rest) :
    Open { r with db, sessions := r.sessions.set h s, owners } live where
  sorted := ho.sorted.of_cons
  mem_iff := fun k ↦ by
    have hnot : h ∉ live := fun hmem ↦
      absurd (List.rel_of_pairwise_cons ho.sorted hmem) (lt_irrefl h)
    rw [live_set hs, ← ho.mem_iff, List.mem_cons]
    constructor
    · exact fun hk ↦ ⟨fun hkh ↦ hnot (hkh ▸ hk), Or.inr hk⟩
    · rintro ⟨hne, rfl | hk⟩
      · exact absurd rfl hne
      · exact hk
  top := htop
  active := by rw [hactive, ho.active, List.length_cons, Nat.add_sub_cancel]

/-- Creating, modifying or removing an object leaves the live sessions on top. -/
theorem Open.edit {r : UndoRun V} {live : List ℕ} (ho : r.Open live) {db : ObjectDatabase V}
    (hactive : db.undoDb.activeSessions = r.db.undoDb.activeSessions) :
    Open { r with db, owners := recorded r.owners } live where
  sorted := ho.sorted
  mem_iff := ho.mem_iff
  top := top_recorded ho.top.choose_spec
  active := hactive.trans ho.active

theorem open_start {r r' : UndoRun V} (h : r.Inv) {live : List ℕ} (ho : r.Open live)
    (hn : r.Nested .startUndoSession) (hs : r.step .startUndoSession = some r') :
    r'.Open (r.sessions.length :: live) := by
  have hstart : r.db.startUndoSession = (⟨r.db.indexes, r.db.undoDb.push⟩, {}) := by
    simp [ObjectDatabase.startUndoSession, h.wf.enabled]
  rw [step, hstart] at hs
  obtain rfl := Option.some_inj.1 hs
  have hlt : ∀ k ∈ live, k < r.sessions.length := fun k hk ↦ by
    obtain ⟨s, hk, -⟩ := (ho.mem_iff k).1 hk
    exact (List.getElem?_eq_some_iff.1 hk).1
  have htake : r.owners.take r.db.undoDb.maxSize = r.owners := by
    rw [List.take_of_length_le]
    rw [← h.owns.length_eq, ObjectDatabase.length_history]
    exact hn
  refine ⟨List.pairwise_cons.2 ⟨hlt, ho.sorted⟩, fun k ↦ ?_, ?_, ?_⟩
  · rw [List.mem_cons, ho.mem_iff]
    simp only [Live, List.getElem?_append]
    constructor
    · rintro (rfl | ⟨s, hk, happly⟩)
      · exact ⟨{}, by simp, rfl⟩
      · exact ⟨s, by rw [if_pos (List.getElem?_eq_some_iff.1 hk).1, hk], happly⟩
    · rintro ⟨s, hk, happly⟩
      split_ifs at hk with hlen
      · exact Or.inr ⟨s, hk, happly⟩
      · have := (List.getElem?_eq_some_iff.1 hk).1
        simp only [List.length_singleton] at this
        exact Or.inl (by omega)
  · obtain ⟨rest, hrest⟩ := ho.top
    exact ⟨rest, by rw [htake, hrest]; rfl⟩
  · simp [UndoDatabase.push, ho.active]

/-- **Sessions stay on top of the stack** as long as the caller nests them. -/
theorem open_of_nested {ix : Indexes V} (hix : ix.Fresh) {maxSize : ℕ} {r : UndoRun V}
    (hr : NestedReach ix maxSize r) : r.Inv ∧ ∃ live, r.Open live := by
  induction hr with
  | init => exact ⟨inv_init hix maxSize, [], open_init ix maxSize⟩
  | @step r r' call _ hn hs ih =>
    obtain ⟨hinv, live, ho⟩ := ih
    refine ⟨inv_step hinv hs, ?_⟩
    cases call with
    | startUndoSession => exact ⟨_, open_start hinv ho hn hs⟩
    | undo k =>
      obtain ⟨rest, rfl⟩ := ho.eq_cons hn.1 hn.2
      obtain ⟨owners, hown⟩ := ho.top
      obtain ⟨s, db, hsk, hdb, rfl⟩ := step_undo hs
      obtain ⟨s₀, hs₀, happly⟩ := hn.1
      obtain rfl := Option.some_inj.1 (hsk.symm.trans hs₀)
      rw [if_pos happly] at hdb
      refine ⟨rest, ho.close rfl (activeSessions_undo hdb).2.2 ?_⟩
      rw [if_pos happly]
      exact top_recorded (by rw [hown]; rfl)
    | merge k =>
      obtain ⟨rest, rfl⟩ := ho.eq_cons hn.1 hn.2
      obtain ⟨owners, hown⟩ := ho.top
      obtain ⟨s, db, hsk, hdb, rfl⟩ := step_merge hs
      obtain ⟨s₀, hs₀, happly⟩ := hn.1
      obtain rfl := Option.some_inj.1 (hsk.symm.trans hs₀)
      rw [if_pos happly] at hdb
      refine ⟨rest, ho.close rfl (activeSessions_merge hdb).2.2 ⟨owners, ?_⟩⟩
      rw [if_pos happly, hown]
      rfl
    | commit k =>
      obtain ⟨rest, rfl⟩ := ho.eq_cons hn.1 fun k hk ↦ (hn.2 k hk).le
      obtain ⟨owners, hown⟩ := ho.top
      obtain ⟨s, db, hsk, hdb, rfl⟩ := step_commit hs
      -- no other session is live, so the committed state can stay on top
      have hrest : rest = [] := by
        rw [List.eq_nil_iff_forall_not_mem]
        intro j hj
        have hlt := List.rel_of_pairwise_cons ho.sorted hj
        have heq := hn.2 j ((ho.mem_iff j).1 (List.mem_cons_of_mem _ hj))
        omega
      subst hrest
      exact ⟨[], ho.close rfl (activeSessions_commit hdb).2.2.2 ⟨_, rfl⟩⟩
    | popCommit =>
      obtain ⟨db, hdb, rfl⟩ := step_popCommit hs
      obtain ⟨hactive, -, hactive'⟩ := activeSessions_popCommit hdb
      have hlive : live = [] := List.length_eq_zero_iff.1 (ho.active.symm.trans hactive)
      subst hlive
      exact ⟨[], ho.sorted, ho.mem_iff, ⟨_, rfl⟩, hactive'⟩
    | create index obj =>
      obtain ⟨db, hdb, rfl⟩ := step_edit hs
      obtain ⟨ix', -, hdb'⟩ := Option.bind_eq_some_iff.1 hdb
      obtain rfl := Option.some_inj.1 hdb'
      exact ⟨live, ho.edit (UndoDatabase.activeSessions_recordIn _ _)⟩
    | modify id obj =>
      obtain ⟨db, hdb, rfl⟩ := step_edit hs
      obtain ⟨was, -, hdb'⟩ := Option.bind_eq_some_iff.1 hdb
      obtain ⟨ix', -, hdb'⟩ := Option.bind_eq_some_iff.1 hdb'
      obtain rfl := Option.some_inj.1 hdb'
      exact ⟨live, ho.edit (UndoDatabase.activeSessions_recordIn _ _)⟩
    | remove id =>
      obtain ⟨db, hdb, rfl⟩ := step_edit hs
      obtain ⟨was, -, hdb'⟩ := Option.bind_eq_some_iff.1 hdb
      obtain ⟨ix', -, hdb'⟩ := Option.bind_eq_some_iff.1 hdb'
      obtain rfl := Option.some_inj.1 hdb'
      exact ⟨live, ho.edit (UndoDatabase.activeSessions_recordIn _ _)⟩

/-- A caller that nests its sessions finds the state of its innermost session on top. -/
theorem top_of_nested {ix : Indexes V} (hix : ix.Fresh) {maxSize : ℕ} {r : UndoRun V}
    (hr : NestedReach ix maxSize r) {h : ℕ} (hl : r.Live h) (hmax : ∀ k, r.Live k → k ≤ h) :
    r.Top h := by
  obtain ⟨-, live, ho⟩ := open_of_nested hix hr
  obtain ⟨rest, rfl⟩ := ho.eq_cons hl hmax
  obtain ⟨owners, hown⟩ := ho.top
  rw [Top, hown]
  rfl

end UndoRun

end Graphene
