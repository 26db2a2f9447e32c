import Mathlib.Data.List.GetD
import Mathlib.Order.Bounds.Basic
import Mathlib.Tactic.Common

/-!
# Files of records

A file of records of one size, addressed by number.  Writing past the end leaves a gap, which reads
as a record of its own.

* `writeRecord` — writing a record, and what is read afterwards.
* `searchBack` — going back through the records until one is not dead.
-/

set_option autoImplicit false

namespace Graphene

variable {α : Type} {gap : α} {l : List α}

/-- The file after `a` was written as record `n`. -/
def writeRecord (gap : α) (l : List α) (n : ℕ) (a : α) : List α :=
  (l ++ List.replicate (n + 1 - l.length) gap).set n a

@[simp] theorem length_writeRecord (n : ℕ) (a : α) :
    (writeRecord gap l n a).length = max l.length (n + 1) := by
  simp only [writeRecord, List.length_set, List.length_append, List.length_replicate]
  omega

theorem getD_append_replicate (n m : ℕ) :
    (l ++ List.replicate m gap).getD n gap = l.getD n gap := by
  rcases Nat.lt_or_ge n l.length with hlt | hge
  · rw [List.getD_append _ _ _ _ hlt]
  · rw [List.getD_append_right _ _ _ _ hge, List.getD_eq_default _ _ hge]
    rcases Nat.lt_or_ge (n - l.length) m with hm | hm
    · rw [List.getD_replicate _ hm]
    · rw [List.getD_eq_default _ _ (by simpa using hm)]

/-- The record that was written is read, and the others as before. -/
theorem getD_writeRecord (n m : ℕ) (a : α) :
    (writeRecord gap l n a).getD m gap = if m = n then a else l.getD m gap := by
  have hlen : n < (l ++ List.replicate (n + 1 - l.length) gap).length := by
    rw [List.length_append, List.length_replicate]
    omega
  split_ifs with h
  · rw [h, List.getD_eq_getElem?_getD, writeRecord, List.getElem?_set_self hlen]
    rfl
  · rw [List.getD_eq_getElem?_getD, writeRecord, List.getElem?_set_ne (Ne.symm h),
      ← List.getD_eq_getElem?_getD, getD_append_replicate]

/-! ## Going back -/

/-- The first record before `pos`, going back, that is not dead; the last one that was read if
there is none.  `e` was read before. -/
def searchBack (dead : α → Bool) (gap : α) (l : List α) (e : α) : ℕ → α
  | 0 => e
  | pos + 1 => if dead e then searchBack dead gap l (l.getD pos gap) pos else e

variable {dead : α → Bool}

theorem searchBack_of_live {e : α} (h : dead e = false) (pos : ℕ) :
    searchBack dead gap l e pos = e := by
  cases pos with
  | zero => rfl
  | succ pos => simp [searchBack, h]

/-- **The search** stops at the last record that is not dead. -/
theorem searchBack_eq {e : α} {n pos : ℕ} (hdead : dead e = true) (hpos : n < pos)
    (hlive : dead (l.getD n gap) = false)
    (hafter : ∀ m, n < m → m < pos → dead (l.getD m gap) = true) :
    searchBack dead gap l e pos = l.getD n gap := by
  induction pos generalizing e with
  | zero => omega
  | succ pos ih =>
    rw [searchBack, if_pos hdead]
    rcases Nat.lt_succ_iff_lt_or_eq.1 hpos with hlt | rfl
    · exact ih (hafter pos hlt (Nat.lt_succ_self pos)) hlt fun m hm hmp ↦
        hafter m hm (Nat.lt_succ_of_lt hmp)
    · exact searchBack_of_live hlive n

/-- Where every record is dead, so is what the search finds. -/
theorem searchBack_dead {e : α} {pos : ℕ} (hdead : dead e = true)
    (hall : ∀ m < pos, dead (l.getD m gap) = true) :
    dead (searchBack dead gap l e pos) = true := by
  induction pos generalizing e with
  | zero => exact hdead
  | succ pos ih =>
    rw [searchBack, if_pos hdead]
    exact ih (hall pos (Nat.lt_succ_self pos)) fun m hm ↦ hall m (Nat.lt_succ_of_lt hm)

/-- The search that begins at the last record of the file finds the last one that is not dead. -/
theorem searchBack_last {n : ℕ} (hgap : dead gap = true)
    (hn : IsGreatest {m | dead (l.getD m gap) = false} n) :
    searchBack dead gap l (l.getD (l.length - 1) gap) l.length = l.getD n gap := by
  have hlive : dead (l.getD n gap) = false := hn.1
  have hlt : n < l.length := by
    by_contra hle
    rw [List.getD_eq_default _ _ (Nat.not_lt.1 hle), hgap] at hlive
    cases hlive
  have hafter : ∀ m, n < m → dead (l.getD m gap) = true := fun m hm ↦ by
    by_contra hm'
    exact absurd (hn.2 (Bool.eq_false_of_not_eq_true hm')) (Nat.not_le.2 hm)
  rcases Nat.eq_or_lt_of_le (show n ≤ l.length - 1 by omega) with heq | hlast
  · rw [← heq]
    exact searchBack_of_live hlive _
  · exact searchBack_eq (hafter _ hlast) hlt hlive fun m hm _ ↦ hafter m hm

end Graphene
