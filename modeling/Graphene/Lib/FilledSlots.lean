import Mathlib.Data.BitVec
import Mathlib.Data.Finset.Card
import Mathlib.Data.Finset.Range
import Mathlib.Tactic.Common

/-!
# A window of bits over the slots that were filled

A counter of slots moves from one slot that is filled to the next, past some that are missed, and a
word of `w` bits is shifted along.  This file says which slots its bits stand for.

* `SlotWindow.elapsed`, `SlotWindow.filled` — the slots gone by, and those of them that were filled,
  after a list of how many were missed before each.
* `SlotWindow.shift`, `SlotWindow.window` — the word after one step and after all of them.
* `SlotWindow.getLsbD_window` — its bits: the slot a bit stands for is one before the one it would
  be expected to stand for.
* `SlotWindow.popcount` — how many are set; `popcount_le_shift` — when none is missed, no fewer.

Lists have the newest first.
-/

set_option autoImplicit false

namespace SlotWindow

variable {w : ℕ}

/-! ## The slots -/

/-- The number of slots after all of them. -/
def elapsed : List ℕ → ℕ
  | [] => 0
  | missed :: rest => elapsed rest + missed + 1

/-- The slots that were filled; slot 0 counts as one. -/
def filled : List ℕ → List ℕ
  | [] => [0]
  | missed :: rest => elapsed (missed :: rest) :: filled rest

theorem elapsed_eq (l : List ℕ) : elapsed l = l.sum + l.length := by
  induction l with
  | nil => rfl
  | cons missed rest ih =>
    rw [elapsed, ih, List.sum_cons, List.length_cons]
    omega

theorem le_elapsed_of_mem_filled {l : List ℕ} {n : ℕ} (h : n ∈ filled l) : n ≤ elapsed l := by
  induction l with
  | nil => simpa [filled, elapsed] using h
  | cons missed rest ih =>
    rw [filled, List.mem_cons] at h
    rcases h with rfl | h
    · exact le_rfl
    · rw [elapsed]
      have := ih h
      omega

theorem elapsed_mem_filled (l : List ℕ) : elapsed l ∈ filled l := by
  cases l <;> simp [filled, elapsed]

/-! ## The word -/

/-- A slot is filled after `missed` others were not. -/
def shift (x : BitVec w) (missed : ℕ) : BitVec w := (x <<< 1 + 1#w) <<< missed

/-- The word after all of them, starting from ones. -/
def window (w : ℕ) : List ℕ → BitVec w
  | [] => BitVec.allOnes w
  | missed :: rest => shift (window w rest) missed

theorem getLsbD_shiftLeft_add_one (x : BitVec w) (k : ℕ) (hk : k < w) :
    (x <<< 1 + 1#w).getLsbD k = if k = 0 then true else x.getLsbD (k - 1) := by
  have hor : x <<< 1 + 1#w = x <<< 1 ||| 1#w := by
    refine BitVec.add_eq_or_of_and_eq_zero _ _ ?_
    refine BitVec.eq_of_getLsbD_eq fun i hi ↦ ?_
    rcases Nat.eq_zero_or_pos i with rfl | hpos
    · simp
    · simp [BitVec.getLsbD_one, Nat.ne_of_gt hpos]
  rw [hor, BitVec.getLsbD_or, BitVec.getLsbD_shiftLeft, BitVec.getLsbD_one]
  rcases Nat.eq_zero_or_pos k with rfl | hpos
  · simp [hk]
  · have hne := Nat.ne_of_gt hpos
    simp [hk, hne, Nat.lt_one_iff]

/-- The bits after a step: none for the slots missed, one for the slot filled. -/
theorem getLsbD_shift (x : BitVec w) (missed k : ℕ) (hk : k < w) :
    (shift x missed).getLsbD k =
      if k < missed then false else if k = missed then true else x.getLsbD (k - missed - 1) := by
  rw [shift, BitVec.getLsbD_shiftLeft]
  split_ifs with hlt heq
  · simp [hlt]
  · simp [heq, getLsbD_shiftLeft_add_one x 0 (by omega), heq ▸ hk]
  · have hne : k - missed ≠ 0 := by omega
    simp [hk, hlt, hne, getLsbD_shiftLeft_add_one x (k - missed) (by omega)]

/-- **What the bits stand for**: bit `k` is set if the slot `k + 1` before the last one was filled,
or there was none yet. -/
theorem getLsbD_window {k : ℕ} (hk : k < w) (l : List ℕ) :
    (window w l).getLsbD k = true ↔
      elapsed l ≤ k ∨ ∃ n ∈ filled l, n + k + 1 = elapsed l := by
  induction l generalizing k with
  | nil => simp [window, elapsed, hk]
  | cons missed rest ih =>
    rw [window, getLsbD_shift _ _ _ hk]
    have hrest : (∃ n ∈ filled (missed :: rest), n + k + 1 = elapsed (missed :: rest)) ↔
        ∃ n ∈ filled rest, n + k + 1 = elapsed (missed :: rest) := by
      constructor
      · rintro ⟨n, hn, heq⟩
        refine ⟨n, (List.mem_cons.1 hn).resolve_left fun hlast ↦ ?_, heq⟩
        omega
      · rintro ⟨n, hn, heq⟩
        exact ⟨n, List.mem_cons_of_mem _ hn, heq⟩
    rw [hrest, elapsed]
    split_ifs with hlt heq
    · refine iff_of_false (by simp) ?_
      rintro (hle | ⟨n, hn, heq⟩)
      · omega
      · have := le_elapsed_of_mem_filled hn
        omega
    · exact iff_of_true rfl (.inr ⟨elapsed rest, elapsed_mem_filled rest, by omega⟩)
    · rw [ih (by omega)]
      refine or_congr (by omega) (exists_congr fun n ↦ and_congr_right fun _ ↦ ?_)
      omega

/-! ## How many bits are set -/

/-- How many bits are set. -/
def popcount (x : BitVec w) : ℕ := ((Finset.range w).filter (x.getLsbD ·)).card

theorem popcount_le (x : BitVec w) : popcount x ≤ w :=
  (Finset.card_filter_le _ _).trans (Finset.card_range w).le

theorem popcount_allOnes (w : ℕ) : popcount (BitVec.allOnes w) = w := by
  have hall : (Finset.range w).filter ((BitVec.allOnes w).getLsbD ·) = Finset.range w :=
    Finset.filter_true_of_mem fun k hk ↦ by simpa using hk
  rw [popcount, hall, Finset.card_range]

/-- When no slot is missed, no fewer bits are set. -/
theorem popcount_le_shift (x : BitVec w) : popcount x ≤ popcount (shift x 0) := by
  rcases Nat.eq_zero_or_pos w with rfl | hw
  · exact (popcount_le x).trans (Nat.zero_le _)
  let low := (Finset.range (w - 1)).filter (x.getLsbD ·)
  have hold : popcount x ≤ low.card + 1 := by
    have hsub : (Finset.range w).filter (x.getLsbD ·) ⊆ insert (w - 1) low := by
      intro k hk
      rw [Finset.mem_filter, Finset.mem_range] at hk
      rw [Finset.mem_insert, Finset.mem_filter, Finset.mem_range]
      rcases eq_or_ne k (w - 1) with heq | hne
      · exact .inl heq
      · exact .inr ⟨by omega, hk.2⟩
    exact (Finset.card_le_card hsub).trans (Finset.card_insert_le _ _)
  have hnew : low.card + 1 ≤ popcount (shift x 0) := by
    have hzero : 0 ∉ low.image Nat.succ := by simp
    rw [← Finset.card_image_of_injective low Nat.succ_injective,
      ← Finset.card_insert_of_notMem hzero]
    refine Finset.card_le_card fun k hk ↦ ?_
    rw [Finset.mem_filter, Finset.mem_range]
    rcases Finset.mem_insert.1 hk with rfl | hk
    · exact ⟨hw, by simp [getLsbD_shift x 0 0 hw]⟩
    · obtain ⟨j, hj, rfl⟩ := Finset.mem_image.1 hk
      rw [Finset.mem_filter, Finset.mem_range] at hj
      exact ⟨by omega, by simpa [getLsbD_shift x 0 (j + 1) (by omega)] using hj.2⟩
  exact hold.trans hnew

/-- After slots none of which was missed, their bits are set and the others have moved up. -/
theorem getLsbD_iterate_shift (n : ℕ) (x : BitVec w) {k : ℕ} (hk : k < w) :
    ((shift · 0)^[n] x).getLsbD k = if k < n then true else x.getLsbD (k - n) := by
  induction n generalizing x with
  | zero => simp
  | succ n ih =>
    rw [Function.iterate_succ_apply, ih, getLsbD_shift x 0 (k - n) (by omega)]
    rcases Nat.lt_trichotomy k n with hlt | rfl | hgt
    · simp [hlt, Nat.lt_succ_of_lt hlt]
    · simp
    · have hne : k - n ≠ 0 := by omega
      have hnot : ¬ k < n + 1 := by omega
      simp [hgt.not_gt, hne, hnot, Nat.sub_sub]

/-- After as many as there are bits, all are set. -/
theorem iterate_shift_eq_allOnes {n : ℕ} (hn : w ≤ n) (x : BitVec w) :
    (shift · 0)^[n] x = BitVec.allOnes w := by
  refine BitVec.eq_of_getLsbD_eq fun k hk ↦ ?_
  rw [getLsbD_iterate_shift n x hk, if_pos (hk.trans_le hn)]
  simp [hk]

theorem popcount_le_iterate_shift (n : ℕ) (x : BitVec w) :
    popcount x ≤ popcount ((shift · 0)^[n] x) := by
  induction n generalizing x with
  | zero => exact le_rfl
  | succ n ih => exact (popcount_le_shift x).trans (ih _)

end SlotWindow
