import Mathlib.Data.List.Nodup
import Mathlib.Data.List.TakeWhile
import Mathlib.Order.Defs.LinearOrder
import Mathlib.Order.Lattice

/-!
# Unique ordered indexes

An index keeps its entries in the order of their keys, and no two of them have the same key.  The
first entry that is not before a key is its lower bound; a loop that starts there removes entries as
long as something holds of them.

* `OrderedIndex` — the entries, in order.
* `lowerBound`, `find`, `insert`, `replace`, `removeFrom` — what is done with them.
* `lowerBound_spec` — the lower bound is the least of the entries that are not before a key.
* `filter_insert`, `removeFrom_entries` — what is there after an insertion, and after the loop.
-/

set_option autoImplicit false

/-! ## What a sorted list starts with -/

section Sorted

variable {α : Type*} {p : α → Bool} {l : List α}

/-- If a property is lost once along a list, what it is dropped for is what does not have it. -/
theorem List.Pairwise.dropWhile_eq_filter (h : l.Pairwise fun a b ↦ p b = true → p a = true) :
    l.dropWhile p = l.filter fun a ↦ !p a := by
  induction l with
  | nil => rfl
  | cons a l ih =>
    obtain ⟨ha, hl⟩ := List.pairwise_cons.1 h
    by_cases hp : p a = true
    · rw [List.dropWhile_cons_of_pos hp, List.filter_cons_of_neg (by simp [hp]), ih hl]
    · have hrest : ∀ b ∈ l, (!p b) = true := fun b hb ↦ by
        simpa using fun hpb ↦ hp (ha b hb hpb)
      rw [List.dropWhile_cons_of_neg hp, List.filter_cons_of_pos (by simp [hp]),
        List.filter_eq_self.2 hrest]

end Sorted

/-- **An index**: its entries in the order of their keys. -/
structure OrderedIndex {α κ : Type*} [LinearOrder κ] (key : α → κ) where
  /-- The entries. -/
  entries : List α
  /-- They are in order, and no two have the same key. -/
  sorted : entries.Pairwise fun a b ↦ key a < key b

namespace OrderedIndex

variable {α κ : Type*} [LinearOrder κ] {key : α → κ}

/-- No entries. -/
def empty : OrderedIndex key := ⟨[], .nil⟩

variable (t : OrderedIndex key) (k : κ)

/-! ## Lookups -/

/-- The first entry that is not before a key; none is the end. -/
def lowerBound : Option α := t.entries.find? fun a ↦ k ≤ key a

/-- The entry with a key. -/
def find : Option α := t.entries.find? fun a ↦ key a = k

variable {t k}

/-- Two entries with one key are the same. -/
theorem eq_of_key {a b : α} (ha : a ∈ t.entries) (hb : b ∈ t.entries) (h : key a = key b) :
    a = b := by
  refine List.inj_on_of_nodup_map ?_ ha hb h
  exact List.pairwise_map.2 (t.sorted.imp fun hlt ↦ hlt.ne)

theorem lowerBound_eq_none : t.lowerBound k = none ↔ ∀ a ∈ t.entries, key a < k := by
  simp [lowerBound, List.find?_eq_none]

/-- The lower bound is the least of the entries that are not before the key. -/
theorem lowerBound_spec {a : α} (h : t.lowerBound k = some a) :
    a ∈ t.entries ∧ k ≤ key a ∧ ∀ b ∈ t.entries, k ≤ key b → key a ≤ key b := by
  obtain ⟨hk, before, after, hentries, hbefore⟩ := List.find?_eq_some_iff_append.1 h
  have hsorted := t.sorted
  rw [hentries, List.pairwise_append, List.pairwise_cons] at hsorted
  refine ⟨by rw [hentries]; simp, by simpa using hk, fun b hb hkb ↦ ?_⟩
  rw [hentries, List.mem_append, List.mem_cons] at hb
  rcases hb with hb | rfl | hb
  · exact absurd hkb (by simpa using hbefore b hb)
  · exact le_rfl
  · exact (hsorted.2.1.1 b hb).le

theorem find_eq_none : t.find k = none ↔ ∀ a ∈ t.entries, key a ≠ k := by
  simp [find, List.find?_eq_none]

theorem find_spec {a : α} (h : t.find k = some a) : a ∈ t.entries ∧ key a = k :=
  ⟨List.mem_of_find?_eq_some h, by simpa using List.find?_some h⟩

/-! ## Parts of an index -/

variable (t k)

/-- The entries before a key. -/
def before : List α := t.entries.takeWhile fun a ↦ key a < k

/-- The entries from the lower bound on. -/
def onwards : List α := t.entries.dropWhile fun a ↦ key a < k

variable {t k}

theorem before_append_onwards : t.before k ++ t.onwards k = t.entries :=
  List.takeWhile_append_dropWhile

theorem lt_of_mem_before {a : α} (h : a ∈ t.before k) : key a < k := by
  simpa using List.mem_takeWhile_imp h

theorem le_of_mem_onwards {a : α} (h : a ∈ t.onwards k) : k ≤ key a := by
  rw [onwards, List.Pairwise.dropWhile_eq_filter] at h
  · simpa using (List.mem_filter.1 h).2
  · exact t.sorted.imp fun {a b} hab hb ↦ by simpa using hab.trans (by simpa using hb)

theorem mem_entries {a : α} : a ∈ t.entries ↔ a ∈ t.before k ∨ a ∈ t.onwards k := by
  rw [← List.mem_append, before_append_onwards]

theorem pairwise_before_onwards : (t.before k).Pairwise (key · < key ·) ∧
    (t.onwards k).Pairwise (key · < key ·) ∧
      ∀ a ∈ t.before k, ∀ b ∈ t.onwards k, key a < key b := by
  rw [← List.pairwise_append, before_append_onwards]
  exact t.sorted

/-! ## Insertions -/

/-- A new entry, if there is none with its key. -/
def insert (t : OrderedIndex key) (x : α) : Option (OrderedIndex key) :=
  if h : t.find (key x) = none then
    some
      { entries := t.before (key x) ++ x :: t.onwards (key x)
        sorted := by
          obtain ⟨hbefore, honwards, hcross⟩ := t.pairwise_before_onwards (k := key x)
          rw [List.pairwise_append, List.pairwise_cons]
          refine ⟨hbefore, ⟨fun b hb ↦ ?_, honwards⟩, fun a ha b hb ↦ ?_⟩
          · refine lt_of_le_of_ne (le_of_mem_onwards hb) (Ne.symm ?_)
            exact find_eq_none.1 h b (mem_entries.2 (.inr hb))
          · rcases List.mem_cons.1 hb with rfl | hb
            · exact lt_of_mem_before ha
            · exact hcross a ha b hb }
  else none

variable {t' : OrderedIndex key} {x : α}

theorem insert_eq_none : t.insert x = none ↔ ∃ a ∈ t.entries, key a = key x := by
  rw [insert]
  split_ifs with h
  · refine iff_of_false (fun hnone ↦ by cases hnone) ?_
    rintro ⟨a, ha, hkey⟩
    exact find_eq_none.1 h a ha hkey
  · obtain ⟨a, ha⟩ := Option.ne_none_iff_exists'.1 h
    exact iff_of_true rfl ⟨a, find_spec ha⟩

theorem insert_entries (h : t.insert x = some t') :
    t'.entries = t.before (key x) ++ x :: t.onwards (key x) := by
  rw [insert] at h
  split_ifs at h
  rw [← Option.some_inj.1 h]

theorem mem_insert (h : t.insert x = some t') {a : α} :
    a ∈ t'.entries ↔ a = x ∨ a ∈ t.entries := by
  rw [insert_entries h, mem_entries (k := key x), List.mem_append, List.mem_cons]
  tauto

/-- Among entries of one kind that are all behind the new one, it is the first. -/
theorem filter_insert (h : t.insert x = some t') {p : α → Bool} (hx : p x = true)
    (hlt : ∀ a ∈ t.entries, p a = true → key x < key a) :
    t'.entries.filter p = x :: t.entries.filter p := by
  have hbefore : (t.before (key x)).filter p = [] := by
    refine List.filter_eq_nil_iff.2 fun a ha hp ↦ ?_
    exact absurd (lt_of_mem_before ha) (hlt a (mem_entries.2 (.inl ha)) hp).not_gt
  rw [insert_entries h, List.filter_append, List.filter_cons_of_pos hx, hbefore, List.nil_append,
    ← t.before_append_onwards (k := key x), List.filter_append, hbefore, List.nil_append]

/-- The entries of another kind stay. -/
theorem filter_insert_of_neg (h : t.insert x = some t') {p : α → Bool} (hx : ¬p x = true) :
    t'.entries.filter p = t.entries.filter p := by
  rw [insert_entries h, List.filter_append, List.filter_cons_of_neg hx, ← List.filter_append,
    before_append_onwards]

/-! ## Changes -/

/-- An entry in place of the one with its key. -/
def replace (t : OrderedIndex key) (x : α) : OrderedIndex key where
  entries := t.entries.map fun a ↦ if key a = key x then x else a
  sorted := by
    have hkey : ∀ a, key (if key a = key x then x else a) = key a := fun a ↦ by
      split_ifs with h
      · exact h.symm
      · rfl
    rw [List.pairwise_map]
    exact t.sorted.imp fun hab ↦ by rwa [hkey, hkey]

theorem mem_replace (hx : ∃ a ∈ t.entries, key a = key x) {b : α} :
    b ∈ (t.replace x).entries ↔ b = x ∨ b ∈ t.entries ∧ key b ≠ key x := by
  obtain ⟨a, ha, hkey⟩ := hx
  rw [replace, List.mem_map]
  constructor
  · rintro ⟨c, hc, rfl⟩
    split_ifs with h
    · exact .inl rfl
    · exact .inr ⟨hc, h⟩
  · rintro (rfl | ⟨hb, hne⟩)
    · exact ⟨a, ha, if_pos hkey⟩
    · exact ⟨b, hb, if_neg hne⟩

/-! ## Removals -/

/-- What is left if the entries from a lower bound on are removed as long as something holds. -/
def removeFrom (t : OrderedIndex key) (k : κ) (p : α → Bool) : OrderedIndex key where
  entries := t.before k ++ (t.onwards k).dropWhile p
  sorted := by
    refine t.sorted.sublist ?_
    rw [← t.before_append_onwards (k := k)]
    exact (List.dropWhile_sublist p).append_left _

/-- What is removed is what the property holds of, if it is lost once from the lower bound on. -/
theorem removeFrom_entries {p : α → Bool}
    (hp : ∀ a b, k ≤ key a → key a < key b → p b = true → p a = true) :
    (t.removeFrom k p).entries = t.entries.filter fun a ↦ !(decide (k ≤ key a) && p a) := by
  have hbefore : (t.before k).filter (fun a ↦ !(decide (k ≤ key a) && p a)) = t.before k := by
    refine List.filter_eq_self.2 fun a ha ↦ ?_
    simp [lt_of_mem_before ha]
  have honwards : (t.onwards k).filter (fun a ↦ !(decide (k ≤ key a) && p a)) =
      (t.onwards k).dropWhile p := by
    rw [List.Pairwise.dropWhile_eq_filter]
    · refine List.filter_congr fun a ha ↦ ?_
      simp [le_of_mem_onwards ha]
    · exact pairwise_before_onwards.2.1.imp_of_mem fun {a b} ha _ hab ↦
        hp a b (le_of_mem_onwards ha) hab
  show t.before k ++ (t.onwards k).dropWhile p = _
  rw [← honwards, ← hbefore, ← List.filter_append, before_append_onwards]

theorem mem_removeFrom {p : α → Bool}
    (hp : ∀ a b, k ≤ key a → key a < key b → p b = true → p a = true) {a : α} :
    a ∈ (t.removeFrom k p).entries ↔ a ∈ t.entries ∧ ¬(k ≤ key a ∧ p a = true) := by
  rw [removeFrom_entries hp, List.mem_filter, Bool.not_eq_true', Bool.and_eq_false_iff,
    decide_eq_false_iff_not, Bool.eq_false_iff, not_and_or]

end OrderedIndex
