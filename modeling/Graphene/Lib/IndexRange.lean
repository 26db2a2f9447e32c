import Mathlib.Data.List.AList

/-!
# Ranges of an index whose objects change

An index keeps the objects of a table in the order of their keys.  A walk through a range of it goes
on while the objects change, and may meet one that is gone.  This file says what it takes that it
does not.

* `IndexRange` — the ids that are ahead are those of the range, in its order.
* `IndexRange.head` — the first of them is there, and none of the range comes before it.
* `IndexRange.next`, `IndexRange.modify` — the first of them is removed, or no key changes;
* `IndexRange.Advances`, `IndexRange.advance` — a step of the walk is one of the two.
-/

set_option autoImplicit false

variable {ι α κ : Type*} [DecidableEq ι]

/-- **The ids that are ahead** are those of the objects of a table whose keys have a property, in
the order of the keys. -/
structure IndexRange (t : AList fun _ : ι ↦ α) (key : α → κ) (P : κ → Prop) (r : κ → κ → Prop)
    (ids : List ι) : Prop where
  /-- No object is met twice. -/
  nodup : ids.Nodup
  /-- The objects that are met are those of the range. -/
  mem : ∀ i, i ∈ ids ↔ ∃ x ∈ t.lookup i, P (key x)
  /-- They are met in order. -/
  sorted : ids.Pairwise fun i j ↦ ∀ x ∈ t.lookup i, ∀ y ∈ t.lookup j, r (key x) (key y)

namespace IndexRange

variable {t t' : AList fun _ : ι ↦ α} {key : α → κ} {P : κ → Prop} {r : κ → κ → Prop}
  {ids : List ι} {i : ι}

/-- The range as the index has it. -/
theorem of_entries {l : List ((_ : ι) × α)} (hnodup : (l.map Sigma.fst).Nodup)
    (hmem : ∀ e, e ∈ l ↔ t.lookup e.1 = some e.2 ∧ P (key e.2))
    (hsorted : l.Pairwise fun a b ↦ r (key a.2) (key b.2)) :
    IndexRange t key P r (l.map Sigma.fst) where
  nodup := hnodup
  mem i := by
    rw [List.mem_map]
    constructor
    · rintro ⟨e, he, rfl⟩
      obtain ⟨hlookup, hP⟩ := (hmem e).1 he
      exact ⟨e.2, hlookup, hP⟩
    · rintro ⟨x, hx, hP⟩
      exact ⟨⟨i, x⟩, (hmem ⟨i, x⟩).2 ⟨hx, hP⟩, rfl⟩
  sorted := by
    rw [List.pairwise_map]
    refine hsorted.imp_of_mem fun {a b} ha hb hab x hx y hy ↦ ?_
    obtain rfl := Option.some.inj (((hmem a).1 ha).1.symm.trans hx)
    obtain rfl := Option.some.inj (((hmem b).1 hb).1.symm.trans hy)
    exact hab

/-- **The first object** is there, and none of the range comes before it. -/
theorem head (h : IndexRange t key P r (i :: ids)) (hrefl : ∀ k, r k k) :
    ∃ x, t.lookup i = some x ∧ P (key x) ∧
      ∀ j, ∀ y ∈ t.lookup j, P (key y) → r (key x) (key y) := by
  obtain ⟨x, hx, hP⟩ := (h.mem i).1 List.mem_cons_self
  refine ⟨x, hx, hP, fun j y hy hy' ↦ ?_⟩
  rcases List.mem_cons.1 ((h.mem j).2 ⟨y, hy, hy'⟩) with rfl | hj
  · obtain rfl := Option.some.inj (Option.mem_def.1 hx ▸ Option.mem_def.1 hy)
    exact hrefl _
  · exact (List.pairwise_cons.1 h.sorted).1 j hj x hx y hy

/-- Nothing is ahead, and so there is nothing in the range. -/
theorem nil (h : IndexRange t key P r []) (j : ι) {y : α} (hy : t.lookup j = some y) :
    ¬P (key y) := fun hP ↦ List.not_mem_nil ((h.mem j).2 ⟨y, hy, hP⟩)

/-- **The first object is removed**, and the walk goes on with the next. -/
theorem next (h : IndexRange t key P r (i :: ids)) (hgone : t'.lookup i = none)
    (hothers : ∀ j ≠ i, t'.lookup j = t.lookup j) : IndexRange t' key P r ids := by
  obtain ⟨hi, hnodup⟩ := List.nodup_cons.1 h.nodup
  have hne : ∀ j ∈ ids, j ≠ i := fun j hj heq ↦ hi (heq ▸ hj)
  refine ⟨hnodup, fun j ↦ ?_, ?_⟩
  · rcases eq_or_ne j i with rfl | hj
    · rw [hgone]
      exact iff_of_false hi fun ⟨_, hx, _⟩ ↦ by cases hx
    · rw [hothers j hj, ← h.mem j, List.mem_cons, or_iff_right hj]
  · refine (List.pairwise_cons.1 h.sorted).2.imp_of_mem fun {a b} ha hb hab ↦ ?_
    rwa [hothers a (hne a ha), hothers b (hne b hb)]

/-- **The objects change**, but not their keys. -/
theorem modify (h : IndexRange t key P r ids)
    (hkeys : ∀ j, (t'.lookup j).map key = (t.lookup j).map key) : IndexRange t' key P r ids := by
  have hlookup : ∀ j, ∀ x' ∈ t'.lookup j, ∃ x ∈ t.lookup j, key x = key x' := by
    intro j x' hx'
    have hkey := hkeys j
    rw [Option.mem_def.1 hx'] at hkey
    exact Option.map_eq_some_iff.1 hkey.symm
  refine ⟨h.nodup, fun j ↦ (h.mem j).trans ⟨?_, ?_⟩, ?_⟩
  · rintro ⟨x, hx, hP⟩
    have hkey := hkeys j
    rw [Option.mem_def.1 hx] at hkey
    obtain ⟨x', hx', heq⟩ := Option.map_eq_some_iff.1 hkey
    exact ⟨x', hx', heq.symm ▸ hP⟩
  · rintro ⟨x', hx', hP⟩
    obtain ⟨x, hx, heq⟩ := hlookup j x' hx'
    exact ⟨x, hx, heq.symm ▸ hP⟩
  · refine h.sorted.imp fun {a b} hab x' hx' y' hy' ↦ ?_
    obtain ⟨x, hx, heq⟩ := hlookup a x' hx'
    obtain ⟨y, hy, heq'⟩ := hlookup b y' hy'
    exact heq ▸ heq' ▸ hab x hx y hy

/-- **A step of the walk** passes the first object, which is removed, or stays where it is, and no
key changes. -/
inductive Advances (t t' : AList fun _ : ι ↦ α) (key : α → κ) : List ι → List ι → Prop
  | next {i : ι} {ids : List ι} (gone : t'.lookup i = none)
      (others : ∀ j ≠ i, t'.lookup j = t.lookup j) : Advances t t' key (i :: ids) ids
  | modify {ids : List ι} (keys : ∀ j, (t'.lookup j).map key = (t.lookup j).map key) :
      Advances t t' key ids ids

variable {ids' : List ι}

theorem advance (h : IndexRange t key P r ids) (hstep : Advances t t' key ids ids') :
    IndexRange t' key P r ids' := by
  cases hstep with
  | next gone others => exact h.next gone others
  | modify keys => exact h.modify keys

theorem Advances.sublist (h : Advances t t' key ids ids') : ids'.Sublist ids := by
  cases h with
  | next => exact List.sublist_cons_self _ _
  | modify => exact List.Sublist.refl _

/-- The keys are keys that there were. -/
theorem Advances.exists_key (h : Advances t t' key ids ids') {j : ι} {x' : α}
    (hx' : t'.lookup j = some x') : ∃ x, t.lookup j = some x ∧ key x = key x' := by
  cases h with
  | next gone others =>
    have hj : j ≠ _ := fun heq ↦ Option.some_ne_none x' (hx'.symm.trans (heq ▸ gone))
    exact ⟨x', (others j hj).symm.trans hx', rfl⟩
  | modify keys =>
    have hkey := keys j
    rw [hx'] at hkey
    exact Option.map_eq_some_iff.1 hkey.symm

end IndexRange
