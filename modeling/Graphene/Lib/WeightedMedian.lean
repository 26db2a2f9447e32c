import Mathlib.Data.List.Sort
import Mathlib.Order.Bounds.Basic
import Mathlib.Algebra.GroupWithZero.Nat

/-!
# A median by weight, and the best of a list

Things of some weight lie in numbered buckets; what lies in bucket 0 has no say.

* `weightWhere` — the weight of the things with a property.
* `IsMedianBucket` — the first bucket up to which lies more than half of the weight that has a say.
* `FirstStop` — where a loop over the buckets ends that stops at the first one that satisfies a
  test, or at the last one; `FirstStop.map_eq_map_iff` compares two such loops.
* `countBuckets` — the loop that adds up a histogram until a target is passed.
* `IsTopBy` — the first so many of a list in an order (`isTopBy_take`).
-/

set_option autoImplicit false

namespace Graphene

/-! ## Weights -/

section Weights

variable {α : Type*} {weight : α → ℕ} {p q : α → Prop} [DecidablePred p] [DecidablePred q]
  {l : List α}

/-- The weight of the things in `l` that satisfy `p`. -/
def weightWhere (weight : α → ℕ) (p : α → Prop) [DecidablePred p] (l : List α) : ℕ :=
  ((l.filter p).map weight).sum

@[simp] theorem weightWhere_nil : weightWhere weight p [] = 0 := rfl

theorem weightWhere_cons (x : α) :
    weightWhere weight p (x :: l) = (if p x then weight x else 0) + weightWhere weight p l := by
  unfold weightWhere
  by_cases hx : p x <;> simp [hx]

theorem weightWhere_concat (x : α) :
    weightWhere weight p (l ++ [x]) = weightWhere weight p l + if p x then weight x else 0 := by
  unfold weightWhere
  by_cases hx : p x <;> simp [hx]

theorem weightWhere_congr (h : ∀ x ∈ l, p x ↔ q x) :
    weightWhere weight p l = weightWhere weight q l := by
  unfold weightWhere
  rw [List.filter_congr fun x hx ↦ decide_eq_decide.2 (h x hx)]

/-- The weights of two kinds that exclude each other add up. -/
theorem weightWhere_or (h : ∀ x ∈ l, p x → ¬ q x) :
    weightWhere weight (fun x ↦ p x ∨ q x) l = weightWhere weight p l + weightWhere weight q l := by
  induction l with
  | nil => rfl
  | cons x l ih =>
    have hx := h x List.mem_cons_self
    rw [weightWhere_cons, weightWhere_cons, weightWhere_cons,
      ih fun y hy ↦ h y (List.mem_cons_of_mem _ hy)]
    by_cases hp : p x <;> by_cases hq : q x <;> simp_all <;> omega

theorem weightWhere_mono (h : ∀ x ∈ l, p x → q x) :
    weightWhere weight p l ≤ weightWhere weight q l := by
  induction l with
  | nil => exact Nat.le_refl _
  | cons x l ih =>
    have hx := h x List.mem_cons_self
    have hrest := ih fun y hy ↦ h y (List.mem_cons_of_mem _ hy)
    rw [weightWhere_cons, weightWhere_cons]
    by_cases hp : p x
    · rw [if_pos hp, if_pos (hx hp)]
      omega
    · rw [if_neg hp]
      omega

end Weights

/-! ## Where a loop stops -/

/-- `c` is the first number that satisfies `stop`, or `last` if none below it does. -/
structure FirstStop (stop : ℕ → Prop) (last c : ℕ) : Prop where
  /-- The loop ends at the last number. -/
  le_last : c ≤ last
  /-- No number before satisfies the test. -/
  going : ∀ b < c, ¬ stop b
  /-- The loop does not end early for another reason. -/
  stopped : c < last → stop c

theorem exists_firstStop (stop : ℕ → Prop) (last : ℕ) : ∃ c, FirstStop stop last c := by
  induction last with
  | zero => exact ⟨0, Nat.le_refl _, fun b hb ↦ absurd hb (Nat.not_lt_zero b),
      fun h ↦ absurd h (Nat.lt_irrefl 0)⟩
  | succ last ih =>
    obtain ⟨c, hc⟩ := ih
    rcases Nat.lt_or_ge c last with hlt | hge
    · exact ⟨c, by omega, hc.going, fun _ ↦ hc.stopped hlt⟩
    · obtain rfl : c = last := Nat.le_antisymm hc.le_last hge
      by_cases hstop : stop c
      · exact ⟨c, by omega, hc.going, fun _ ↦ hstop⟩
      · refine ⟨c + 1, Nat.le_refl _, fun b hb ↦ ?_, fun h ↦ absurd h (Nat.lt_irrefl _)⟩
        rcases Nat.lt_succ_iff_lt_or_eq.1 hb with hlt | rfl
        · exact hc.going b hlt
        · exact hstop

/-- Two loops end at places with the same image under a monotone `f` if and only if their tests
agree wherever one more step changes the image. -/
theorem FirstStop.map_eq_map_iff {stop stop' : ℕ → Prop} {last c c' : ℕ} {f : ℕ → ℕ}
    (h : FirstStop stop last c) (h' : FirstStop stop' last c')
    (hup : ∀ b d, b ≤ d → stop b → stop d) (hup' : ∀ b d, b ≤ d → stop' b → stop' d)
    (hf : Monotone f) :
    f c = f c' ↔ ∀ b < last, f b < f (b + 1) → (stop b ↔ stop' b) := by
  -- the one that ends first ends by its test, which holds from there on
  have hle : ∀ {stop stop' : ℕ → Prop} {c c' : ℕ}, FirstStop stop last c →
      FirstStop stop' last c' → (∀ b d, b ≤ d → stop b → stop d) →
      (∀ b < last, f b < f (b + 1) → (stop b ↔ stop' b)) → c ≤ c' → f c = f c' := by
    intro stop stop' c c' h h' hup hagree hcc
    have hstay : ∀ d, c + d ≤ c' → f c = f (c + d) := by
      intro d
      induction d with
      | zero => exact fun _ ↦ rfl
      | succ d ih =>
        intro hd
        have hlast := h'.le_last
        have hstop : stop (c + d) := hup c _ (by omega) (h.stopped (by omega))
        have hgoing : ¬ stop' (c + d) := h'.going _ (by omega)
        have hflat : ¬ f (c + d) < f (c + d + 1) := fun hlt ↦
          hgoing ((hagree (c + d) (by omega) hlt).1 hstop)
        rw [ih (by omega)]
        exact Nat.le_antisymm (hf (by omega)) (Nat.not_lt.1 hflat)
    have := hstay (c' - c) (by omega)
    rwa [Nat.add_sub_cancel' hcc] at this
  have hsplit : ∀ {stop stop' : ℕ → Prop} {c c' : ℕ}, FirstStop stop last c →
      FirstStop stop' last c' → (∀ b d, b ≤ d → stop' b → stop' d) → f c = f c' →
      ∀ b < last, f b < f (b + 1) → stop b → stop' b := by
    intro stop stop' c c' h h' hup' heq b hb hlt hstop
    by_contra hno
    have hc : c ≤ b := Nat.not_lt.1 fun hbc ↦ h.going b hbc hstop
    have hc' : b < c' := by
      by_contra hle'
      have hle' := Nat.not_lt.1 hle'
      exact hno (hup' c' b hle' (h'.stopped (by omega)))
    have hlow := hf hc
    have hhigh : f (b + 1) ≤ f c' := hf hc'
    omega
  constructor
  · intro heq b hb hlt
    exact ⟨hsplit h h' hup' heq b hb hlt, hsplit h' h hup heq.symm b hb hlt⟩
  · intro hagree
    rcases Nat.le_total c c' with hcc | hcc
    · exact hle h h' hup hagree hcc
    · exact (hle h' h hup' (fun b hb hlt ↦ (hagree b hb hlt).symm) hcc).symm

theorem FirstStop.congr {stop stop' : ℕ → Prop} {last c : ℕ} (h : FirstStop stop last c)
    (heq : ∀ b < last, stop b ↔ stop' b) : FirstStop stop' last c where
  le_last := h.le_last
  going := fun b hb hstop ↦ h.going b hb ((heq b (by have := h.le_last; omega)).2 hstop)
  stopped := fun hc ↦ (heq c hc).1 (h.stopped hc)

/-- `while( c < size - 1 && tally <= target ) tally += histogram[++c];`, over the buckets that are
left. -/
def countBuckets (target : ℕ) : List ℕ → ℕ → ℕ → ℕ
  | [], _, c => c
  | h :: rest, tally, c =>
    if tally ≤ target then countBuckets target rest (tally + h) (c + 1) else c

/-- The loop ends at the first bucket up to which more than the target lies. -/
theorem countBuckets_spec (target : ℕ) (rest : List ℕ) (tally c : ℕ) :
    ∃ k, countBuckets target rest tally c = c + k ∧
      FirstStop (fun b ↦ target < tally + (rest.take b).sum) rest.length k := by
  induction rest generalizing tally c with
  | nil =>
    refine ⟨0, rfl, Nat.le_refl _, ?_, ?_⟩
    · intro b hb
      omega
    · intro hlt
      exact absurd hlt (Nat.lt_irrefl _)
  | cons h rest ih =>
    rw [countBuckets]
    split_ifs with hle
    · obtain ⟨k, hk, hstop⟩ := ih (tally + h) (c + 1)
      refine ⟨k + 1, by omega, ?_, ?_, ?_⟩
      · have := hstop.le_last
        simp only [List.length_cons]
        omega
      · intro b hb
        cases b with
        | zero => simpa using hle
        | succ b =>
          have := hstop.going b (by omega)
          simp only [List.take_succ_cons, List.sum_cons]
          omega
      · intro hlt
        have := hstop.stopped (by simpa using hlt)
        simp only [List.take_succ_cons, List.sum_cons]
        omega
    · refine ⟨0, rfl, Nat.zero_le _, ?_, ?_⟩
      · intro b hb
        omega
      · intro _
        simpa using hle

/-! ## The median -/

section Median

variable {α : Type*} (weight bucket : α → ℕ) (l : List α)

/-- The weight that has a say. -/
def voiced : ℕ := weightWhere weight (fun x ↦ 0 < bucket x) l

/-- The weight that has a say and lies in the buckets up to `c`. -/
def covered (c : ℕ) : ℕ := weightWhere weight (fun x ↦ 0 < bucket x ∧ bucket x ≤ c) l

/-- `c` is the first bucket up to which lies more than half of the weight that has a say; it is
bucket 0 if none has. -/
structure IsMedianBucket (c : ℕ) : Prop where
  /-- More than half is covered. -/
  covers : voiced weight bucket l = 0 ∨ voiced weight bucket l < 2 * covered weight bucket l c
  /-- At most half is covered before. -/
  least : ∀ b < c, 0 < voiced weight bucket l ∧
    2 * covered weight bucket l b ≤ voiced weight bucket l

variable {weight bucket l}

theorem covered_mono {b c : ℕ} (h : b ≤ c) :
    covered weight bucket l b ≤ covered weight bucket l c :=
  weightWhere_mono fun _ _ hx ↦ ⟨hx.1, hx.2.trans h⟩

theorem covered_last {last : ℕ} (h : ∀ x ∈ l, bucket x ≤ last) :
    covered weight bucket l last = voiced weight bucket l :=
  weightWhere_congr fun x hx ↦ ⟨And.left, fun hpos ↦ ⟨hpos, h x hx⟩⟩

theorem covered_zero : covered weight bucket l 0 = 0 := by
  unfold covered weightWhere
  rw [List.filter_eq_nil_iff.2]
  · rfl
  · intro x _
    simp only [decide_eq_true_eq]
    omega

theorem covered_succ (c : ℕ) : covered weight bucket l (c + 1) =
    covered weight bucket l c + weightWhere weight (fun x ↦ bucket x = c + 1) l := by
  unfold covered
  rw [← weightWhere_or fun x _ hx ↦ by omega]
  exact weightWhere_congr fun x _ ↦ by omega

/-- The median is where a loop ends that stops when more than half is covered. -/
theorem FirstStop.isMedianBucket {last c : ℕ} (hlast : ∀ x ∈ l, bucket x ≤ last)
    (h : FirstStop (fun b ↦ voiced weight bucket l = 0 ∨
      voiced weight bucket l < 2 * covered weight bucket l b) last c) :
    IsMedianBucket weight bucket l c where
  covers := by
    rcases Nat.lt_or_ge c last with hc | hc
    · exact h.stopped hc
    · obtain rfl : c = last := Nat.le_antisymm h.le_last hc
      rw [covered_last hlast]
      omega
  least := fun b hb ↦ by
    have := h.going b hb
    omega

theorem IsMedianBucket.firstStop {last c : ℕ} (hlast : ∀ x ∈ l, bucket x ≤ last)
    (h : IsMedianBucket weight bucket l c) :
    FirstStop (fun b ↦ voiced weight bucket l = 0 ∨
      voiced weight bucket l < 2 * covered weight bucket l b) last c where
  le_last := by
    by_contra hlt
    have := h.least last (Nat.not_le.1 hlt)
    rw [covered_last hlast] at this
    omega
  going := fun b hb ↦ by
    have := h.least b hb
    omega
  stopped := fun _ ↦ h.covers

end Median

/-! ## The first so many -/

section Top

variable {α : Type*} {r : α → α → Prop}

/-- `chosen` are the first `n` of `l` in the order `r`, in that order. -/
structure IsTopBy (r : α → α → Prop) (n : ℕ) (l chosen : List α) : Prop where
  /-- There are `n` of them. -/
  length_eq : chosen.length = n
  /-- Each is before the following ones. -/
  ordered : chosen.Pairwise r
  /-- They are from the list, and each of them is before all that are not chosen. -/
  before_rest : ∃ rest, (chosen ++ rest).Perm l ∧ ∀ x ∈ chosen, ∀ y ∈ rest, r x y

/-- The front of a sorted list. -/
theorem isTopBy_take {l sorted : List α} {n : ℕ} (hn : n ≤ l.length) (hperm : sorted.Perm l)
    (hsorted : sorted.Pairwise r) : IsTopBy r n l (sorted.take n) where
  length_eq := by
    rw [List.length_take, hperm.length_eq]
    omega
  ordered := hsorted.sublist (List.take_sublist n sorted)
  before_rest := by
    refine ⟨sorted.drop n, by rwa [List.take_append_drop], fun x hx y hy ↦ ?_⟩
    rw [← List.take_append_drop n sorted, List.pairwise_append] at hsorted
    exact hsorted.2.2 x hx y hy

end Top

end Graphene
