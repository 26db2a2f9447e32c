import Mathlib.Data.List.Basic

/-!
# A stack of saved copies

The plainest way to make a state recoverable is to keep copies of it: take one before a group of
edits, and put it back to undo the group.  `Checkpoints S` is that machine for an arbitrary type
of states — what a database that stores *differences* has to be indistinguishable from.

* `start` takes a copy, first dropping the oldest ones beyond a bound;
* `edit` changes the current state; on a stack without any copy it takes one first, so that the
  change has somewhere to be recorded;
* `undo` and `pop` put the newest copy back; after an `undo` the stack is never empty;
* `merge` forgets the newest copy, so that its edits now belong to the copy before it.
-/

set_option autoImplicit false

/-- The current state and the saved copies of earlier ones, newest first. -/
@[ext] structure Checkpoints (S : Type*) where
  /-- The current state. -/
  cur : S
  /-- The saved copies, newest first. -/
  saved : List S

namespace Checkpoints

variable {S : Type*}

/-- The copies after an edit. -/
def recorded (c : Checkpoints S) : List S :=
  match c.saved with
  | [] => [c.cur]
  | s :: rest => s :: rest

/-- Change the current state. -/
def edit (c : Checkpoints S) (s : S) : Checkpoints S := { cur := s, saved := c.recorded }

/-- Take a copy, keeping at most `bound` of the earlier ones. -/
def start (bound : ℕ) (c : Checkpoints S) : Checkpoints S :=
  { c with saved := c.cur :: c.saved.take bound }

/-- Put the newest copy back; it stays as the base of the stack if there is no other. -/
def undo (c : Checkpoints S) : Option (Checkpoints S) :=
  match c.saved with
  | [] => none
  | s :: rest => some { cur := s, saved := if rest.isEmpty then [s] else rest }

/-- Put the newest copy back. -/
def pop (c : Checkpoints S) : Option (Checkpoints S) :=
  match c.saved with
  | [] => none
  | s :: rest => some { cur := s, saved := rest }

/-- Forget the newest copy, if there is one before it. -/
def merge (c : Checkpoints S) : Option (Checkpoints S) :=
  match c.saved with
  | _ :: s :: rest => some { c with saved := s :: rest }
  | _ => none

@[simp] theorem cur_edit (c : Checkpoints S) (s : S) : (c.edit s).cur = s := rfl

@[simp] theorem saved_start (bound : ℕ) (c : Checkpoints S) :
    (c.start bound).saved = c.cur :: c.saved.take bound := rfl

end Checkpoints
