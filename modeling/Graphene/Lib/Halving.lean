import Mathlib.Data.List.Basic
import Mathlib.Data.Nat.Init
import Mathlib.Algebra.Group.Nat.Defs

/-!
# Halving the way to the end

From a place, half of the way to the end is skipped, and half of the rest, until the end is passed.

* `halvings` — what is left of the way at each place.
* `halvingPoints` — the places; `length_halvingPoints` — there are logarithmically many.
* `halvingLoop` — the loop that goes through them, on 32-bit numbers, and collects something at each
  up to a bound.
-/

set_option autoImplicit false

namespace Graphene

/-! ## What is left of the way -/

/-- `d`, half of it, half of that and so on, as long as something is left. -/
def halvings : ℕ → List ℕ
  | 0 => []
  | d + 1 => (d + 1) :: halvings ((d + 1) / 2)
decreasing_by omega

@[simp] theorem halvings_zero : halvings 0 = [] := by rw [halvings]

theorem halvings_of_pos {d : ℕ} (h : 0 < d) : halvings d = d :: halvings (d / 2) := by
  obtain ⟨d, rfl⟩ := Nat.exists_eq_succ_of_ne_zero (Nat.ne_of_gt h)
  rw [halvings]

theorem mem_halvings {d x : ℕ} (h : x ∈ halvings d) : 0 < x ∧ x ≤ d := by
  induction d using Nat.strongRecOn with
  | ind d ih =>
    rcases Nat.eq_zero_or_pos d with rfl | hpos
    · simp at h
    · rw [halvings_of_pos hpos] at h
      rcases List.mem_cons.1 h with rfl | hrest
      · exact ⟨hpos, Nat.le_refl _⟩
      · obtain ⟨hx, hle⟩ := ih (d / 2) (by omega) hrest
        exact ⟨hx, by omega⟩

theorem halvings_pairwise (d : ℕ) : (halvings d).Pairwise (· > ·) := by
  induction d using Nat.strongRecOn with
  | ind d ih =>
    rcases Nat.eq_zero_or_pos d with rfl | hpos
    · simp
    · rw [halvings_of_pos hpos, List.pairwise_cons]
      refine ⟨fun x hx ↦ ?_, ih _ (by omega)⟩
      have hle := (mem_halvings hx).2
      omega

/-- The last of the way that is left is one step. -/
theorem halvings_getLast? {d : ℕ} (h : 0 < d) : (halvings d).getLast? = some 1 := by
  induction d using Nat.strongRecOn with
  | ind d ih =>
    rw [halvings_of_pos h]
    rcases Nat.eq_zero_or_pos (d / 2) with hhalf | hpos
    · obtain rfl : d = 1 := by omega
      simp
    · rw [List.getLast?_cons, ih (d / 2) (by omega) hpos]
      rfl

/-- The way can be halved as often as its length has binary digits. -/
theorem length_halvings {d : ℕ} (h : 0 < d) : (halvings d).length = Nat.log2 d + 1 := by
  induction d using Nat.strongRecOn with
  | ind d ih =>
    rw [halvings_of_pos h, List.length_cons, Nat.log2_def]
    split_ifs with htwo
    · rw [ih (d / 2) (by omega) (by omega)]
    · obtain hzero : d / 2 = 0 := by omega
      rw [hzero, halvings_zero, List.length_nil]

/-! ## Places -/

/-- The places from `low` on, up to `last`. -/
def halvingPoints (last low : ℕ) : List ℕ := (halvings (last + 1 - low)).map (last + 1 - ·)

theorem halvingPoints_of_le {last low : ℕ} (h : low ≤ last) :
    halvingPoints last low = low :: halvingPoints last (low + (last - low + 2) / 2) := by
  have hrest : (last + 1 - low) / 2 = last + 1 - (low + (last - low + 2) / 2) := by omega
  rw [halvingPoints, halvings_of_pos (by omega), List.map_cons, hrest, ← halvingPoints]
  exact congrArg (· :: _) (by omega)

theorem mem_halvingPoints {last low x : ℕ} (h : x ∈ halvingPoints last low) :
    low ≤ x ∧ x ≤ last := by
  obtain ⟨y, hy, rfl⟩ := List.mem_map.1 h
  obtain ⟨hpos, hle⟩ := mem_halvings hy
  omega

theorem halvingPoints_pairwise (last low : ℕ) : (halvingPoints last low).Pairwise (· < ·) := by
  rw [halvingPoints, List.pairwise_map]
  refine (halvings_pairwise _).imp_of_mem fun {x y} hx hy hxy ↦ ?_
  have hx := mem_halvings hx
  omega

theorem halvingPoints_getLast? {last low : ℕ} (h : low ≤ last) :
    (halvingPoints last low).getLast? = some last := by
  rw [halvingPoints, List.getLast?_map, halvings_getLast? (by omega)]
  rfl

theorem length_halvingPoints {last low : ℕ} (h : low ≤ last) :
    (halvingPoints last low).length = Nat.log2 (last + 1 - low) + 1 := by
  rw [halvingPoints, List.length_map, length_halvings (by omega)]

/-- No place is before the one that is begun with. -/
theorem filter_halvingPoints_of_lt {last low bound : ℕ} (h : bound < low) :
    (halvingPoints last low).filter (· ≤ bound) = [] :=
  List.filter_eq_nil_iff.2 fun x hx ↦ by
    have hx := (mem_halvingPoints hx).1
    simp only [decide_eq_true_eq]
    omega

/-- What is up to a bound comes before what is behind it. -/
theorem filter_le_append_filter_lt {l : List ℕ} (h : l.Pairwise (· < ·)) (bound : ℕ) :
    l.filter (· ≤ bound) ++ l.filter (bound < ·) = l := by
  induction l with
  | nil => rfl
  | cons x l ih =>
    obtain ⟨hx, hl⟩ := List.pairwise_cons.1 h
    by_cases hle : x ≤ bound
    · simp [hle, Nat.not_lt.2 hle, ih hl]
    · have hrest : ∀ y ∈ l, bound < y := fun y hy ↦ Nat.lt_trans (Nat.lt_of_not_le hle) (hx y hy)
      have hnone : l.filter (· ≤ bound) = [] :=
        List.filter_eq_nil_iff.2 fun y hy ↦ by simpa using hrest y hy
      have hall : l.filter (bound < ·) = l :=
        List.filter_eq_self.2 fun y hy ↦ by simpa using hrest y hy
      simp [hle, Nat.lt_of_not_le hle, hnone, hall]

/-- The last place stays the last one among those that are picked. -/
theorem getLast?_filter_halvingPoints {last low : ℕ} (h : low ≤ last) {p : ℕ → Bool}
    (hp : p last = true) : ((halvingPoints last low).filter p).getLast? = some last := by
  obtain ⟨init, hinit⟩ := List.getLast?_eq_some_iff.1 (halvingPoints_getLast? h)
  rw [hinit, List.filter_append, List.filter_cons_of_pos hp, List.filter_nil,
    List.getLast?_concat]

/-! ## The loop -/

/-- Collect at each place, as long as it is not behind `bound`.  What is done at a place may fail,
and if the loop does not stop, then it comes to `endless`. -/
def halvingLoop {m : Type → Type} [Monad m] {α : Type} (endless : m (List α))
    (f : UInt32 → m (List α)) (last bound : UInt32) : ℕ → UInt32 → m (List α)
  | 0, _ => endless
  | fuel + 1, low => do
    let here ← f low
    let low' := low + (last - low + 2) / 2
    if low' ≤ bound then
      let more ← halvingLoop endless f last bound fuel low'
      return here ++ more
    else
      return here

/-- The next place, which does not overflow unless it lies behind the last number. -/
theorem toNat_next {last low : UInt32} (hlast : last.toNat + 1 < 2 ^ 32) (hlow : low ≤ last)
    (hpos : 0 < low.toNat) :
    (low + (last - low + 2) / 2).toNat = low.toNat + (last.toNat - low.toNat + 2) / 2 := by
  have hle : low.toNat ≤ last.toNat := UInt32.le_iff_toNat_le.1 hlow
  rw [UInt32.toNat_add, UInt32.toNat_div, UInt32.toNat_add, UInt32.toNat_sub_of_le _ _ hlow]
  change (low.toNat + (last.toNat - low.toNat + 2) % 2 ^ 32 / 2) % 2 ^ 32 = _
  rw [Nat.mod_eq_of_lt (a := last.toNat - low.toNat + 2) (by omega), Nat.mod_eq_of_lt (by omega)]

/-- **What the loop collects**, if there is something at each place that is not behind the bound. -/
theorem halvingLoop_eq {m : Type → Type} [Monad m] [LawfulMonad m] {α : Type}
    {endless : m (List α)} {f : UInt32 → m (List α)} {g : ℕ → List α} {last bound low : UInt32}
    {fuel : ℕ} (hlast : last.toNat + 1 < 2 ^ 32) (hbound : bound ≤ last)
    (hlow : low ≤ bound) (hpos : 0 < low.toNat) (hfuel : last.toNat + 1 - low.toNat ≤ fuel)
    (hf : ∀ x ∈ halvingPoints last.toNat low.toNat, x ≤ bound.toNat →
      f (UInt32.ofNat x) = pure (g x)) :
    halvingLoop endless f last bound fuel low =
      pure (((halvingPoints last.toNat low.toNat).filter (· ≤ bound.toNat)).flatMap g) := by
  have hbound' : bound.toNat ≤ last.toNat := UInt32.le_iff_toNat_le.1 hbound
  induction fuel generalizing low with
  | zero =>
    have hle : low.toNat ≤ bound.toNat := UInt32.le_iff_toNat_le.1 hlow
    omega
  | succ fuel ih =>
    have hle : low.toNat ≤ bound.toNat := UInt32.le_iff_toNat_le.1 hlow
    have hnext := toNat_next hlast (UInt32.le_trans hlow hbound) hpos
    have hpoints := halvingPoints_of_le (Nat.le_trans hle hbound')
    rw [hpoints] at hf ⊢
    have hhere := hf low.toNat List.mem_cons_self hle
    rw [UInt32.ofNat_toNat] at hhere
    rw [halvingLoop, hhere]
    simp only [pure_bind]
    split_ifs with hmore
    · rw [ih hmore (by omega) (by omega)
        fun x hx hxb ↦ hf x (List.mem_cons_of_mem _ (hnext ▸ hx)) hxb]
      simp [hle, hnext]
    · have hbehind : bound.toNat < low.toNat + (last.toNat - low.toNat + 2) / 2 := by
        rw [← hnext]
        exact Nat.lt_of_not_le fun h ↦ hmore (UInt32.le_iff_toNat_le.2 h)
      rw [List.filter_cons_of_pos (by simpa using hle), filter_halvingPoints_of_lt hbehind,
        List.flatMap_cons, List.flatMap_nil, List.append_nil]

/-- If the loop comes to an end, then it begins with what there is at the first place. -/
theorem exists_of_halvingLoop_eq_some {α : Type} {f : UInt32 → Option (List α)}
    {last bound low : UInt32} {fuel : ℕ} {l : List α}
    (h : halvingLoop none f last bound fuel low = some l) :
    ∃ here rest, f low = some here ∧ l = here ++ rest := by
  cases fuel with
  | zero => cases h
  | succ fuel =>
    rw [halvingLoop] at h
    obtain ⟨here, hhere, h⟩ := Option.bind_eq_some_iff.1 h
    dsimp only at h
    split_ifs at h
    · obtain ⟨rest, -, h⟩ := Option.bind_eq_some_iff.1 h
      exact ⟨here, rest, hhere, (Option.some_inj.1 h).symm⟩
    · exact ⟨here, [], hhere, by rw [List.append_nil, Option.some_inj.1 h]⟩

/-- Up to the greatest number the loop does not stop. -/
theorem halvingLoop_of_max {α : Type} (f : UInt32 → Option (List α)) {bound : UInt32}
    (hbound : bound.toNat + 1 = 2 ^ 32) (last : UInt32) (fuel : ℕ) (low : UInt32) :
    halvingLoop none f last bound fuel low = none := by
  induction fuel generalizing low with
  | zero => rfl
  | succ fuel ih =>
    have hle : low + (last - low + 2) / 2 ≤ bound := by
      rw [UInt32.le_iff_toNat_le]
      have hlt := UInt32.toNat_lt (low + (last - low + 2) / 2)
      omega
    rw [halvingLoop]
    simp only [if_pos hle, ih]
    cases f low <;> rfl

end Graphene
