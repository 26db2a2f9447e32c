import Mathlib.Algebra.BigOperators.Group.List.Basic
import Mathlib.Algebra.Group.Basic
import Mathlib.Data.List.AList
import Mathlib.Data.Option.Basic

/-!
# Outputs that are created and spent

A set of outputs, each under a key of its own.  Some of them are spent together, and none of these
may be missing; some are created together, and none of their keys may be taken.

* `Outputs` — the outputs by their keys.
* `AList.spend`, `AList.create` — several at once, or none.
* `AList.worth` — what all of them are worth together, in any commutative group.
* `AList.worth_spend`, `AList.worth_create` — how it changes.
-/

set_option autoImplicit false

/-- Outputs by their keys. -/
abbrev Outputs (K α : Type*) := AList fun _ : K ↦ α

namespace AList

variable {K α M : Type*} [AddCommGroup M]

/-- What all outputs are worth together. -/
def worth (t : Outputs K α) (f : K → α → M) : M := (t.entries.map fun e ↦ f e.1 e.2).sum

@[simp]
theorem worth_empty (f : K → α → M) : (∅ : Outputs K α).worth f = 0 := rfl

variable [DecidableEq K]

/-- Spend all of `ks`, if they are there. -/
def spend (t : Outputs K α) : List K → Option (Outputs K α) :=
  List.foldlM (fun t k ↦ if k ∈ t then some (t.erase k) else none) t

/-- Create all of `es`, if none is there. -/
def create (t : Outputs K α) : List (K × α) → Option (Outputs K α) :=
  List.foldlM (fun t e ↦ if e.1 ∈ t then none else some (t.insert e.1 e.2)) t

variable {t t' : Outputs K α} {f : K → α → M} {k : K} {a : α}

/-! ## One output -/

/-- What is left was there, under another key. -/
theorem lookup_of_erase {k' : K} {b : α} (h : (t.erase k).lookup k' = some b) :
    k' ≠ k ∧ t.lookup k' = some b := by
  have hne : k' ≠ k := by
    rintro rfl
    simp at h
  exact ⟨hne, by rwa [AList.lookup_erase_ne hne] at h⟩

theorem worth_erase (h : t.lookup k = some a) : (t.erase k).worth f = t.worth f - f k a := by
  have hmem : k ∈ t.entries.keys := AList.lookup_isSome.1 (Option.isSome_of_eq_some h)
  obtain ⟨b, l₁, l₂, hnot, hentries, herase⟩ := List.exists_of_kerase hmem
  have hb : t.lookup k = some b := by
    show t.entries.dlookup k = some b
    refine List.mem_dlookup t.nodupKeys ?_
    rw [hentries]
    simp
  obtain rfl : b = a := Option.some.inj (hb.symm.trans h)
  show (List.map _ (List.kerase k t.entries)).sum = (List.map _ t.entries).sum - f k b
  rw [herase, hentries]
  simp only [List.map_append, List.map_cons, List.sum_append, List.sum_cons]
  rw [add_left_comm, add_sub_cancel_left]

theorem worth_insert (h : k ∉ t) (a : α) : (t.insert k a).worth f = t.worth f + f k a := by
  show (List.map _ (t.insert k a).entries).sum = (List.map _ t.entries).sum + f k a
  rw [AList.entries_insert_of_notMem h, List.map_cons, List.sum_cons, add_comm]

/-! ## Several -/

theorem spend_cons {ks : List K} :
    t.spend (k :: ks) = some t' ↔ k ∈ t ∧ spend (t.erase k) ks = some t' := by
  by_cases hk : k ∈ t <;> simp [spend, hk]

theorem create_cons {e : K × α} {es : List (K × α)} :
    t.create (e :: es) = some t' ↔ e.1 ∉ t ∧ create (t.insert e.1 e.2) es = some t' := by
  by_cases he : e.1 ∈ t <;> simp [create, he]

/-- **What is spent is worth that much less**: `g` is what the spent outputs are worth by their keys
alone. -/
theorem worth_spend {ks : List K} {g : K → M} (h : t.spend ks = some t')
    (hg : ∀ k ∈ ks, ∀ a, t.lookup k = some a → f k a = g k) :
    t'.worth f = t.worth f - (ks.map g).sum := by
  induction ks generalizing t with
  | nil =>
    obtain rfl := Option.some.inj h
    simp
  | cons k ks ih =>
    obtain ⟨hk, hrest⟩ := spend_cons.1 h
    obtain ⟨a, ha⟩ := Option.isSome_iff_exists.1 (AList.lookup_isSome.2 hk)
    have hworth := ih hrest fun k' hk' b hb ↦
      hg k' (List.mem_cons_of_mem _ hk') b (lookup_of_erase hb).2
    rw [hworth, worth_erase ha, hg k List.mem_cons_self a ha, List.map_cons, List.sum_cons,
      sub_sub]

/-- **What is created is worth that much more.** -/
theorem worth_create {es : List (K × α)} (h : t.create es = some t') :
    t'.worth f = t.worth f + (es.map fun e ↦ f e.1 e.2).sum := by
  induction es generalizing t with
  | nil =>
    obtain rfl := Option.some.inj h
    simp
  | cons e es ih =>
    obtain ⟨he, hrest⟩ := create_cons.1 h
    rw [ih hrest, worth_insert he, List.map_cons, List.sum_cons, add_assoc]

end AList
