import Mathlib.Algebra.BigOperators.Group.List.Basic
import Mathlib.Algebra.Group.Basic
import Mathlib.Data.List.AList

/-!
# Tables of objects, and what they hold together

A table has an object for each of finitely many ids.  A quantity that every object contributes to
is counted over the whole table, and kept up to date as objects are stored and removed.

* `Table` — the objects by their ids.
* `AList.sumOf` — what the objects contribute together.
* `AList.of_lookup_erase` — what is left when an object is removed.
* `AList.sumOf_erase`, `AList.sumOf_insert`, `AList.sumOf_insert_new` — the same as objects are
  removed and stored.
-/

set_option autoImplicit false

/-- Objects by their ids. -/
abbrev Table (α : Type*) := AList fun _ : ℕ ↦ α

namespace AList

variable {α M : Type*} [AddCommGroup M]

/-- What the objects contribute together. -/
def sumOf (t : AList fun _ : ℕ ↦ α) (f : α → M) : M := (t.entries.map fun e ↦ f e.2).sum

variable {t : AList fun _ : ℕ ↦ α} {id : ℕ} {a : α}

/-- What is left was there, under another id. -/
theorem of_lookup_erase {j : ℕ} {b : α} (h : (t.erase id).lookup j = some b) :
    j ≠ id ∧ t.lookup j = some b := by
  have hj : j ≠ id := by
    rintro rfl
    rw [lookup_erase] at h
    cases h
  rw [lookup_erase_ne hj] at h
  exact ⟨hj, h⟩

/-- What is removed contributes no longer. -/
theorem sumOf_erase (h : t.lookup id = some a) (f : α → M) :
    (t.erase id).sumOf f = t.sumOf f - f a := by
  have hmem : id ∈ t.entries.keys := lookup_isSome.1 (Option.isSome_of_eq_some h)
  obtain ⟨b, l₁, l₂, hid, hentries, herase⟩ := List.exists_of_kerase hmem
  have hb : t.lookup id = some b := by
    show t.entries.dlookup id = some b
    refine List.mem_dlookup t.nodupKeys ?_
    rw [hentries]
    exact List.mem_append_right _ List.mem_cons_self
  obtain rfl : b = a := Option.some.inj (hb.symm.trans h)
  show (List.map _ (List.kerase id t.entries)).sum = (List.map _ t.entries).sum - f b
  rw [herase, hentries]
  simp only [List.map_append, List.map_cons, List.sum_append, List.sum_cons]
  rw [add_left_comm, add_sub_cancel_left]

/-- What is stored contributes in place of what was there. -/
theorem sumOf_insert (h : t.lookup id = some a) (b : α) (f : α → M) :
    (t.insert id b).sumOf f = t.sumOf f - f a + f b := by
  rw [← sumOf_erase h]
  show (List.map _ (List.kinsert id b t.entries)).sum =
    (List.map _ (List.kerase id t.entries)).sum + f b
  rw [List.kinsert_def, List.map_cons, List.sum_cons, add_comm]

/-- What is stored under a new id contributes in addition to what was there. -/
theorem sumOf_insert_new (h : t.lookup id = none) (b : α) (f : α → M) :
    (t.insert id b).sumOf f = t.sumOf f + f b := by
  show (List.map _ (t.insert id b).entries).sum = (List.map _ t.entries).sum + f b
  rw [entries_insert_of_notMem (lookup_eq_none.1 h), List.map_cons, List.sum_cons, add_comm]

end AList
