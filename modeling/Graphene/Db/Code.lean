import Graphene.Db.Script

/-!
# Code that runs on the database

A `Script` is what an evaluation comes to on given objects.  Where two runs of the same code are to
be compared that need not come to the same, what is given is the code: it looks at the objects
before it goes on, and it is told whether a proposal it has executed went through.

* `Code` — the code.
* `Code.exec` — running it.  There is no result if a session's destructor throws, which ends the
  process.
* `Code.Supported` — wherever it executes a proposal on an empty undo stack, the proposal fails.
-/

set_option autoImplicit false

namespace Graphene

variable {V : Type}

/-- Code on the database. -/
inductive Code (V : Type) where
  /-- It has returned. -/
  | done
  /-- It throws. -/
  | throw
  /-- It goes on as the objects tell it to. -/
  | look (k : Indexes V → Code V)
  /-- It mutates an object, throwing if the database refuses, and goes on. -/
  | edit (e : Edit V) (rest : Code V)
  /-- It calls `set_max_size` of the undo database, and goes on. -/
  | setMaxSize (size : ℕ) (rest : Code V)
  /-- It catches what `body` throws, and goes on; `true` if nothing was thrown. -/
  | attempt (body : Code V) (rest : Bool → Code V)
  /-- It executes a proposal by `push_proposal`, catches what is thrown, and goes on; `true` if
  nothing was thrown. -/
  | proposal (body : Code V) (rest : Bool → Code V)

/-- `undo_database::set_max_size`. -/
def ObjectDatabase.setMaxSize (db : ObjectDatabase V) (size : ℕ) : ObjectDatabase V :=
  { db with undoDb := { db.undoDb with maxSize := size } }

namespace Code

/-- The end of the session of a proposal whose operations returned if `ok`.  It is merged, or else
undone by its destructor. -/
def endSession (ok : Bool) (s : Session) (db : ObjectDatabase V) :
    Option (Bool × ObjectDatabase V) :=
  match if ok then s.merge db else none with
  | some (db, s) => (s.destroy db).map (true, ·)
  | none => (s.destroy db).map (false, ·)

/-- `push_proposal`, around the operations of the proposal and its removal. -/
def pushProposal (body : ObjectDatabase V → Option (Bool × ObjectDatabase V))
    (db : ObjectDatabase V) : Option (Bool × ObjectDatabase V) :=
  (body (db.startUndoSession true).1).bind fun r ↦ endSession r.1 (db.startUndoSession true).2 r.2

/-- Run the code; `true` if it returned, `false` if it threw. -/
def exec : Code V → ObjectDatabase V → Option (Bool × ObjectDatabase V)
  | done, db => some (true, db)
  | throw, db => some (false, db)
  | look k, db => (k db.indexes).exec db
  | edit e rest, db =>
    match e.exec db with
    | some db => rest.exec db
    | none => some (false, db)
  | setMaxSize size rest, db => rest.exec (db.setMaxSize size)
  | attempt body rest, db => (body.exec db).bind fun r ↦ (rest r.1).exec r.2
  | proposal body rest, db => (pushProposal body.exec db).bind fun r ↦ (rest r.1).exec r.2

/-- One piece of code after another. -/
def andThen (c next : Code V) : Code V := attempt c fun ok ↦ if ok then next else throw

/-- Wherever the code executes a proposal on an empty undo stack, the proposal fails. -/
def Supported : Code V → ObjectDatabase V → Prop
  | done, _ | throw, _ => True
  | look k, db => (k db.indexes).Supported db
  | edit e rest, db => ∀ db' ∈ e.exec db, rest.Supported db'
  | setMaxSize size rest, db => rest.Supported (db.setMaxSize size)
  | attempt body rest, db => body.Supported db ∧ ∀ r ∈ body.exec db, (rest r.1).Supported r.2
  | proposal body rest, db =>
    (db.undoDb.stack = [] → ∀ r ∈ body.exec (db.startUndoSession true).1, r.1 = false) ∧
      ∀ r ∈ pushProposal body.exec db, (rest r.1).Supported r.2

instance decidableSupported : (c : Code V) → (db : ObjectDatabase V) → Decidable (c.Supported db)
  | done, _ | throw, _ => isTrue trivial
  | look k, db => decidableSupported (k db.indexes) db
  | edit e rest, db =>
    have (db' : ObjectDatabase V) : Decidable (rest.Supported db') := decidableSupported rest db'
    inferInstanceAs (Decidable (∀ db' ∈ e.exec db, rest.Supported db'))
  | setMaxSize size rest, db => decidableSupported rest (db.setMaxSize size)
  | attempt body rest, db =>
    have := decidableSupported body db
    have (r : Bool × ObjectDatabase V) : Decidable ((rest r.1).Supported r.2) :=
      decidableSupported (rest r.1) r.2
    inferInstanceAs (Decidable (_ ∧ ∀ r ∈ body.exec db, (rest r.1).Supported r.2))
  | proposal body rest, db =>
    have (r : Bool × ObjectDatabase V) : Decidable ((rest r.1).Supported r.2) :=
      decidableSupported (rest r.1) r.2
    have : Decidable (db.undoDb.stack = []) := decidable_of_iff _ List.isEmpty_iff
    inferInstanceAs (Decidable
      ((db.undoDb.stack = [] → ∀ r ∈ body.exec (db.startUndoSession true).1, r.1 = false) ∧
        ∀ r ∈ pushProposal body.exec db, (rest r.1).Supported r.2))

end Code

end Graphene
