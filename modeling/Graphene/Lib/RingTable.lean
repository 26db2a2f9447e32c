import Mathlib.Data.List.Basic
import Mathlib.Data.Nat.Init
import Mathlib.Logic.Function.Basic
import Mathlib.Tactic.Common

/-!
# A table that is written round and round

Elements that come one after the other go into a table by their number, counted around, so that each
overwrites the one that came `m` before.  The table then has the last `m` of them.

* `RingTable.stored` — the table after a list of elements, newest first.
* `RingTable.Keyed` — the elements have the places of consecutive numbers; `RingTable.Cyclic` — of
  which those `m` apart have the same.
* `RingTable.holds_iff` — what can be said of an entry; `RingTable.stored_eq_iff` — which elements
  are there: the last `m`.
-/

set_option autoImplicit false

namespace RingTable

variable {α ι : Type} [DecidableEq ι]

/-- The table after a list of elements, newest first; `blank` is what was there before. -/
def stored (key : α → ι) (blank : α) : List α → ι → α
  | [] => fun _ ↦ blank
  | a :: l => Function.update (stored key blank l) (key a) a

/-- The elements have the places of the numbers from 1 on. -/
def Keyed (key : α → ι) (place : ℕ → ι) : List α → Prop
  | [] => True
  | a :: l => key a = place (l.length + 1) ∧ Keyed key place l

/-- There are `m` places. -/
def Cyclic (m : ℕ) (place : ℕ → ι) : Prop := ∀ i j, place i = place j ↔ i % m = j % m

variable {key : α → ι} {place : ℕ → ι} {blank : α} {l : List α} {m : ℕ}

/-- An entry is the newest element of its place. -/
theorem stored_apply (r : ι) :
    stored key blank l r = (l.find? fun a ↦ key a = r).getD blank := by
  induction l with
  | nil => rfl
  | cons a l ih =>
    rw [stored, List.find?_cons]
    rcases eq_or_ne (key a) r with rfl | hne
    · simp
    · simp [hne, Function.update_of_ne hne.symm, ih]

omit [DecidableEq ι] in
theorem Keyed.getElem (h : Keyed key place l) {i : ℕ} (hi : i < l.length) :
    key l[i] = place (l.length - i) := by
  induction l generalizing i with
  | nil => exact absurd hi (Nat.not_lt_zero i)
  | cons a l ih =>
    cases i with
    | zero => exact h.1
    | succ i =>
      rw [List.getElem_cons_succ, ih h.2 (Nat.lt_of_succ_lt_succ hi)]
      congr 1
      simp

omit [DecidableEq ι] in
/-- No two of the last `m` elements have the same place. -/
theorem Keyed.eq_of_key_eq (h : Keyed key place l) (hplace : Cyclic m place) {a b : α}
    (ha : a ∈ l.take m) (hb : b ∈ l.take m) (hab : key a = key b) : a = b := by
  obtain ⟨i, hi, rfl⟩ := List.getElem_of_mem ha
  obtain ⟨j, hj, rfl⟩ := List.getElem_of_mem hb
  rw [List.length_take] at hi hj
  rw [List.getElem_take, List.getElem_take, h.getElem (by omega), h.getElem (by omega),
    hplace] at hab
  have hij := Nat.sub_mod_eq_zero_of_mod_eq hab
  have hji := Nat.sub_mod_eq_zero_of_mod_eq hab.symm
  rw [Nat.mod_eq_of_lt (by omega)] at hij hji
  obtain rfl : i = j := by omega
  rfl

omit [DecidableEq ι] in
/-- An element that is not one of the last `m` has the place of one that is. -/
theorem Keyed.exists_newer (h : Keyed key place l) (hplace : Cyclic m place) (hm : 0 < m) {b : α}
    (hb : b ∈ l) : ∃ a ∈ l.take m, key a = key b := by
  obtain ⟨j, hj, rfl⟩ := List.getElem_of_mem hb
  have hlt : j % m < m := Nat.mod_lt j hm
  have hle : j % m ≤ j := Nat.mod_le j m
  have hi : j % m < (l.take m).length := by
    rw [List.length_take]
    omega
  refine ⟨(l.take m)[j % m], List.getElem_mem hi, ?_⟩
  rw [List.getElem_take]
  have hsplit : l.length - j % m = l.length - j + m * (j / m) := by
    have := Nat.div_add_mod j m
    omega
  rw [h.getElem (by omega), h.getElem hj, hplace, hsplit, Nat.add_mul_mod_self_left]

/-- **What can be said of an entry** can be said of the one of the last `m` elements that has its
place, or of what was there before. -/
theorem Keyed.holds_iff (h : Keyed key place l) (blank : α) (hplace : Cyclic m place) (hm : 0 < m)
    (P : α → Prop) (r : ι) : P (stored key blank l r) ↔
      (∃ a ∈ l.take m, key a = r ∧ P a) ∨ (∀ a ∈ l.take m, key a ≠ r) ∧ P blank := by
  rw [stored_apply]
  cases hfind : l.find? fun a ↦ key a = r with
  | none =>
    have hnone : ∀ a ∈ l.take m, key a ≠ r := fun a ha ↦ by
      simpa using List.find?_eq_none.1 hfind a (List.mem_of_mem_take ha)
    constructor
    · exact fun hP ↦ .inr ⟨hnone, hP⟩
    · rintro (⟨a, ha, hkey, -⟩ | ⟨-, hP⟩)
      · exact absurd hkey (hnone a ha)
      · exact hP
  | some b =>
    have hb : key b = r := by simpa using List.find?_some hfind
    obtain ⟨a, ha, hab⟩ := h.exists_newer hplace hm (List.mem_of_find?_eq_some hfind)
    have htake : b ∈ l.take m := by
      have hsome : ((l.take m).find? fun a ↦ key a = r).isSome :=
        List.find?_isSome.2 ⟨a, ha, by simp [hab, hb]⟩
      obtain ⟨c, hc⟩ := Option.isSome_iff_exists.1 hsome
      rw [← List.take_append_drop m l, List.find?_append, hc] at hfind
      obtain rfl := Option.some.inj hfind
      exact List.mem_of_find?_eq_some hc
    constructor
    · exact fun hP ↦ .inl ⟨b, htake, hb, hP⟩
    · rintro (⟨c, hc, hkey, hP⟩ | ⟨hnone, -⟩)
      · rwa [h.eq_of_key_eq hplace htake hc (hb.trans hkey.symm)]
      · exact absurd hb (hnone b htake)

/-- **The table has the last `m` elements.** -/
theorem Keyed.stored_eq_iff (h : Keyed key place l) (hplace : Cyclic m place) (hm : 0 < m) {a : α}
    (ha : a ≠ blank) : stored key blank l (key a) = a ↔ a ∈ l.take m := by
  rw [h.holds_iff blank hplace hm (· = a)]
  constructor
  · rintro (⟨b, hb, -, rfl⟩ | ⟨-, hblank⟩)
    · exact hb
    · exact absurd hblank.symm ha
  · exact fun hmem ↦ .inl ⟨a, hmem, rfl, rfl⟩

end RingTable
