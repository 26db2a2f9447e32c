import Mathlib.Algebra.BigOperators.Finprod
import Mathlib.Algebra.Order.BigOperators.Group.Finset

/-!
# What finitely many hold together

A quantity is kept for each of many holders, and all but finitely many hold nothing.  The sum over
all of them changes by what one of them does.

* `Tally.finsum_update` — one holder holds something else.
* `Tally.support_update` — and still only finitely many hold anything.
* `Tally.le_finsum` — where no holder owes anything, none holds more than all of them.
-/

set_option autoImplicit false

namespace Tally

variable {ι M : Type*} [AddCommGroup M]

theorem le_finsum {f : ι → ℤ} (hf : f.support.Finite) (hnonneg : ∀ j, 0 ≤ f j) (i : ι) :
    f i ≤ ∑ᶠ j, f j := by
  rw [finsum_eq_sum f hf]
  by_cases hi : f i = 0
  · rw [hi]
    exact Finset.sum_nonneg fun j _ ↦ hnonneg j
  · exact Finset.single_le_sum (fun j _ ↦ hnonneg j) (hf.mem_toFinset.2 hi)

variable [DecidableEq ι] {f : ι → M}

theorem support_update (hf : f.support.Finite) (i : ι) (x : M) :
    (Function.update f i x).support.Finite := by
  refine (hf.insert i).subset fun j hj ↦ ?_
  rcases eq_or_ne j i with rfl | hne
  · exact Set.mem_insert _ _
  · refine Set.mem_insert_of_mem _ ?_
    rwa [Function.mem_support, Function.update_of_ne hne] at hj

/-- **The sum changes by what one holder does.** -/
theorem finsum_update (hf : f.support.Finite) (i : ι) (x : M) :
    ∑ᶠ j, Function.update f i x j = ∑ᶠ j, f j + (x - f i) := by
  have hupdate : ∀ j, Function.update f i x j = f j + if j = i then x - f i else 0 := by
    intro j
    rcases eq_or_ne j i with rfl | hne
    · simp
    · simp [hne]
  have hsingle : ∑ᶠ j, (if j = i then x - f i else 0) = x - f i := by
    rw [finsum_eq_single _ i fun j hne ↦ if_neg hne, if_pos rfl]
  have hfinite : (Function.support fun j ↦ if j = i then x - f i else 0).Finite := by
    refine (Set.finite_singleton i).subset fun j hj ↦ ?_
    by_contra hne
    exact hj (if_neg hne)
  rw [finsum_congr hupdate, finsum_add_distrib hf hfinite, hsingle]

end Tally
