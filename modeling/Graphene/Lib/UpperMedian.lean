import Mathlib.Data.List.Perm.Subperm
import Mathlib.Data.List.Sort

/-!
# Selecting by rank, and the upper median

* `StrictWeakOn` — a comparison is a strict weak order on the elements of a list.
* `NthElement` — `std::nth_element`: some rearrangement of a list that has the element of a rank in
  its place, with none before it that is greater and none after it that is less.
* `NthElement.bySorting` — sorting is one.
* `RankedAt`, `IsUpperMedian` — a value is the one at a rank of a list that is sorted.
* `IsUpperMedian.majority` — the upper median lies within the range of any strict majority.
-/

set_option autoImplicit false

namespace Graphene

variable {α : Type*} {κ : Type*} [LinearOrder κ]

/-! ## Comparisons -/

/-- A comparison is a strict weak order on the elements of a list. -/
structure StrictWeakOn (less : α → α → Bool) (l : List α) : Prop where
  /-- Nothing is less than itself. -/
  irrefl : ∀ a ∈ l, less a a = false
  /-- It is transitive. -/
  trans : ∀ a ∈ l, ∀ b ∈ l, ∀ c ∈ l, less a b = true → less b c = true → less a c = true
  /-- So is not telling apart. -/
  incomp : ∀ a ∈ l, ∀ b ∈ l, ∀ c ∈ l, less a b = false → less b a = false → less b c = false →
    less c b = false → less a c = false ∧ less c a = false

namespace StrictWeakOn

variable {less : α → α → Bool} {l : List α}

/-- A comparison of keys is a strict weak order. -/
theorem of_key {key : α → κ} (h : ∀ a ∈ l, ∀ b ∈ l, less a b = true ↔ key a < key b) :
    StrictWeakOn less l := by
  have hfalse : ∀ a ∈ l, ∀ b ∈ l, less a b = false ↔ key b ≤ key a := by
    intro a ha b hb
    rw [← Bool.not_eq_true, h a ha b hb, not_lt]
  refine ⟨fun a ha ↦ (hfalse a ha a ha).2 le_rfl, fun a ha b hb c hc hab hbc ↦ ?_,
    fun a ha b hb c hc hab hba hbc hcb ↦ ?_⟩
  · rw [h a ha b hb] at hab
    rw [h b hb c hc] at hbc
    exact (h a ha c hc).2 (hab.trans hbc)
  · rw [hfalse a ha b hb] at hab
    rw [hfalse b hb a ha] at hba
    rw [hfalse b hb c hc] at hbc
    rw [hfalse c hc b hb] at hcb
    exact ⟨(hfalse a ha c hc).2 (hbc.trans hab), (hfalse c hc a ha).2 (hba.trans hcb)⟩

theorem asymm (h : StrictWeakOn less l) {a b : α} (ha : a ∈ l) (hb : b ∈ l)
    (hab : less a b = true) : less b a = false := by
  by_contra hba
  have haa := h.trans a ha b hb a ha hab (Bool.eq_true_of_not_eq_false hba)
  exact Bool.false_ne_true ((h.irrefl a ha).symm.trans haa)

/-- What is not less is transitive, too. -/
theorem not_less_trans (h : StrictWeakOn less l) {a b c : α} (ha : a ∈ l) (hb : b ∈ l)
    (hc : c ∈ l) (hba : less b a = false) (hcb : less c b = false) : less c a = false := by
  by_contra hca
  replace hca := Bool.eq_true_of_not_eq_false hca
  have hab : less a b = false := by
    by_contra hab
    have := h.trans c hc a ha b hb hca (Bool.eq_true_of_not_eq_false hab)
    exact Bool.false_ne_true (hcb.symm.trans this)
  have hbc : less b c = false := by
    by_contra hbc
    have := h.trans b hb c hc a ha (Bool.eq_true_of_not_eq_false hbc) hca
    exact Bool.false_ne_true (hba.symm.trans this)
  exact Bool.false_ne_true ((h.incomp a ha b hb c hc hab hba hbc hcb).2.symm.trans hca)

end StrictWeakOn

/-! ## Selection -/

/-- `std::nth_element`: how it rearranges a list, for a comparison and a position. -/
structure NthElement (α : Type*) where
  /-- The list afterwards. -/
  run : (α → α → Bool) → ℕ → List α → List α
  /-- It is the same list, rearranged. -/
  perm : ∀ less n l, (run less n l).Perm l
  /-- For a strict weak order, what is before the position is not greater than what is there, and
  what is after it is not less than anything up to it. -/
  split : ∀ less n l, StrictWeakOn less l → n < l.length → ∃ before x after,
    run less n l = before ++ x :: after ∧ before.length = n ∧
      (∀ a ∈ before, ∀ b ∈ x :: after, less b a = false) ∧ ∀ b ∈ after, less b x = false

namespace NthElement

/-- The list, sorted. -/
def sorted (less : α → α → Bool) (l : List α) : List α :=
  (l.attach.insertionSort fun a b ↦ less b.1 a.1 = false).map Subtype.val

theorem perm_sorted (less : α → α → Bool) (l : List α) : (sorted less l).Perm l := by
  have hperm := (List.perm_insertionSort (fun a b : {x // x ∈ l} ↦ less b.1 a.1 = false)
    l.attach).map Subtype.val
  rwa [List.attach_map_subtype_val] at hperm

theorem pairwise_sorted {less : α → α → Bool} {l : List α} (h : StrictWeakOn less l) :
    (sorted less l).Pairwise fun a b ↦ less b a = false := by
  have htotal : Std.Total fun a b : {x // x ∈ l} ↦ less b.1 a.1 = false := ⟨fun a b ↦ by
    by_cases hab : less a.1 b.1 = true
    · exact .inl (h.asymm a.2 b.2 hab)
    · exact .inr (Bool.eq_false_of_not_eq_true hab)⟩
  have htrans : IsTrans {x // x ∈ l} fun a b ↦ less b.1 a.1 = false :=
    ⟨fun a b c hab hbc ↦ h.not_less_trans a.2 b.2 c.2 hab hbc⟩
  exact List.pairwise_map.2
    (List.pairwise_insertionSort (fun a b : {x // x ∈ l} ↦ less b.1 a.1 = false) l.attach)

/-- Sorting the whole list. -/
def bySorting : NthElement α where
  run less _ l := sorted less l
  perm less _ l := perm_sorted less l
  split := by
    intro less n l h hn
    have hlength := (perm_sorted less l).length_eq
    have hsorted := pairwise_sorted h
    refine ⟨(sorted less l).take n, (sorted less l)[n], (sorted less l).drop (n + 1), ?_, ?_, ?_⟩
    · rw [← List.drop_eq_getElem_cons, List.take_append_drop]
    · rw [List.length_take]
      omega
    · rw [← List.drop_eq_getElem_cons (by omega)]
      have hdrop := List.drop_eq_getElem_cons (l := sorted less l) (i := n) (by omega)
      rw [← List.take_append_drop n (sorted less l), List.pairwise_append] at hsorted
      obtain ⟨-, hafter, hcross⟩ := hsorted
      rw [hdrop] at hafter
      exact ⟨hcross, (List.pairwise_cons.1 hafter).1⟩

end NthElement

/-! ## Ranks -/

/-- `m` is at position `n` when `values` are sorted. -/
def RankedAt (values : List κ) (n : ℕ) (m : κ) : Prop :=
  ∃ sorted : List κ, sorted.Perm values ∧ sorted.Pairwise (· ≤ ·) ∧ sorted[n]? = some m

/-- `m` is in the middle when `values` are sorted, or the upper one of the two in the middle. -/
def IsUpperMedian (values : List κ) (m : κ) : Prop := RankedAt values (values.length / 2) m

/-- **What `std::nth_element` selects** has the rank that is asked for. -/
theorem NthElement.rankedAt (N : NthElement α) {less : α → α → Bool} (key : α → κ) {n : ℕ}
    {l : List α} (h : ∀ a ∈ l, ∀ b ∈ l, less a b = true ↔ key a < key b) (hn : n < l.length) :
    ∃ x ∈ l, (N.run less n l)[n]? = some x ∧ RankedAt (l.map key) n (key x) := by
  obtain ⟨before, x, after, hrun, hlength, hbefore, hafter⟩ :=
    N.split less n l (.of_key h) hn
  have hperm := N.perm less n l
  rw [hrun] at hperm
  have hmem : ∀ a ∈ before ++ x :: after, a ∈ l := fun a ha ↦ hperm.mem_iff.1 ha
  have hx : x ∈ l := hmem x (List.mem_append_right _ List.mem_cons_self)
  have hle : ∀ {a b : α}, a ∈ before ++ x :: after → b ∈ before ++ x :: after →
      less b a = false → key a ≤ key b := by
    intro a b ha hb hba
    rw [← Bool.not_eq_true, h b (hmem b hb) a (hmem a ha), not_lt] at hba
    exact hba
  refine ⟨x, hx, ?_, (before.map key).insertionSort (· ≤ ·) ++
    key x :: (after.map key).insertionSort (· ≤ ·), ?_, ?_, ?_⟩
  · rw [hrun, List.getElem?_append_right hlength.le, hlength, Nat.sub_self,
      List.getElem?_cons_zero]
  · refine List.Perm.trans ?_ (hperm.map key)
    rw [List.map_append, List.map_cons]
    exact (List.perm_insertionSort _ _).append ((List.perm_insertionSort _ _).cons _)
  · refine List.pairwise_append.2 ⟨List.pairwise_insertionSort _ _,
      List.pairwise_cons.2 ⟨fun b hb ↦ ?_, List.pairwise_insertionSort _ _⟩, fun a ha b hb ↦ ?_⟩
    · obtain ⟨b', hb', rfl⟩ := List.mem_map.1 ((List.mem_insertionSort _).1 hb)
      exact hle (List.mem_append_right _ List.mem_cons_self)
        (List.mem_append_right _ (List.mem_cons_of_mem x hb')) (hafter b' hb')
    · obtain ⟨a', ha', rfl⟩ := List.mem_map.1 ((List.mem_insertionSort _).1 ha)
      have hrest : ∃ b' ∈ x :: after, key b' = b := by
        rcases List.mem_cons.1 hb with rfl | hlater
        · exact ⟨x, List.mem_cons_self, rfl⟩
        · obtain ⟨b', hb', rfl⟩ := List.mem_map.1 ((List.mem_insertionSort _).1 hlater)
          exact ⟨b', List.mem_cons_of_mem x hb', rfl⟩
      obtain ⟨b', hb', rfl⟩ := hrest
      exact hle (List.mem_append_left _ ha') (List.mem_append_right _ hb') (hbefore a' ha' b' hb')
  · have hposition : ((before.map key).insertionSort (· ≤ ·)).length = n := by
      rw [List.length_insertionSort, List.length_map, hlength]
    rw [List.getElem?_append_right hposition.le, hposition, Nat.sub_self, List.getElem?_cons_zero]

theorem RankedAt.perm {values values' : List κ} {n : ℕ} {m : κ} (h : RankedAt values n m)
    (hperm : values.Perm values') : RankedAt values' n m := by
  obtain ⟨sorted, hsorted, hpairwise, hm⟩ := h
  exact ⟨sorted, hsorted.trans hperm, hpairwise, hm⟩

/-- No more than are after a rank are greater, and no more than are before it are less. -/
theorem RankedAt.countP_le {values : List κ} {n : ℕ} {m : κ} (h : RankedAt values n m) :
    values.countP (m < ·) ≤ values.length - n - 1 ∧ values.countP (· < m) ≤ n := by
  obtain ⟨sorted, hperm, hpairwise, hm⟩ := h
  obtain ⟨hn, rfl⟩ := List.getElem?_eq_some_iff.1 hm
  rw [← hperm.countP_eq, ← hperm.countP_eq, ← hperm.length_eq]
  have hdrop := List.drop_eq_getElem_cons hn
  have hsplit := List.take_append_drop n sorted
  rw [hdrop] at hsplit
  have hsorted := hpairwise
  rw [← hsplit, List.pairwise_append] at hsorted
  obtain ⟨-, hafter, hbefore⟩ := hsorted
  have hnone : (sorted.take n).countP (sorted[n] < ·) = 0 := by
    refine List.countP_eq_zero.2 fun a ha hlt ↦ ?_
    exact absurd (of_decide_eq_true hlt) (hbefore a ha _ List.mem_cons_self).not_gt
  have hnone' : (sorted.drop (n + 1)).countP (· < sorted[n]) = 0 := by
    refine List.countP_eq_zero.2 fun a ha hlt ↦ ?_
    exact absurd (of_decide_eq_true hlt) ((List.pairwise_cons.1 hafter).1 a ha).not_gt
  have hsome := List.countP_le_length (p := (sorted[n] < ·)) (l := sorted.drop (n + 1))
  have hsome' := List.countP_le_length (p := (· < sorted[n])) (l := sorted.take n)
  rw [List.length_drop] at hsome
  rw [List.length_take] at hsome'
  have hself : [sorted[n]].countP (sorted[n] < ·) = 0 := by simp
  have hself' : [sorted[n]].countP (· < sorted[n]) = 0 := by simp
  constructor
  · have hcount : sorted.countP (sorted[n] < ·) = (sorted.take n).countP (sorted[n] < ·) +
        ([sorted[n]].countP (sorted[n] < ·) + (sorted.drop (n + 1)).countP (sorted[n] < ·)) := by
      rw [← List.countP_append, ← List.countP_append, List.singleton_append, hsplit]
    omega
  · have hcount : sorted.countP (· < sorted[n]) = (sorted.take n).countP (· < sorted[n]) +
        ([sorted[n]].countP (· < sorted[n]) + (sorted.drop (n + 1)).countP (· < sorted[n])) := by
      rw [← List.countP_append, ← List.countP_append, List.singleton_append, hsplit]
    omega

/-- **The upper median** lies within the range of any strict majority. -/
theorem IsUpperMedian.majority {values M : List κ} {m : κ} (h : IsUpperMedian values m)
    (hM : M.Subperm values) (hlength : values.length < 2 * M.length) :
    (∃ a ∈ M, a ≤ m) ∧ ∃ b ∈ M, m ≤ b := by
  obtain ⟨hgreater, hless⟩ := h.countP_le
  constructor
  · by_contra hnone
    have hall : M.countP (m < ·) = M.length :=
      List.countP_eq_length.2 fun a ha ↦ decide_eq_true (not_le.1 fun hle ↦ hnone ⟨a, ha, hle⟩)
    have hle := hM.countP_le (m < ·)
    omega
  · by_contra hnone
    have hall : M.countP (· < m) = M.length :=
      List.countP_eq_length.2 fun a ha ↦ decide_eq_true (not_le.1 fun hle ↦ hnone ⟨a, ha, hle⟩)
    have hle := hM.countP_le (· < m)
    omega

end Graphene
