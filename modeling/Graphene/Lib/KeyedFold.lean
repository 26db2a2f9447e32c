import Mathlib.Data.List.AList

/-!
# Loops over the entries of a map

A loop that visits every entry of a map once, in whatever order the container happens to keep
them, and at each entry changes only what belongs to that entry's key, has a result that can be
read off key by key.  This file says so for `List.foldl` over the entries of an `AList`, and for
`List.foldlM` in `Option` when each step may refuse.

* `view s k` is the part of the state that belongs to the key `k`; a step at the entry `e` is
  *local* when it leaves `view · k` alone for `k ≠ e.1`.
* `view_foldl` — after a loop of local steps, the part belonging to `k` was changed exactly when
  the map has `k`, and by the step at that entry alone.
* `foldlM_eq_some` — a loop whose steps may refuse runs to its end when no step refuses on the
  *initial* state: earlier steps cannot spoil later ones, since the keys are distinct.
-/

set_option autoImplicit false

namespace KeyedFold

universe u v

variable {K : Type u} {β : K → Type v} {S L : Type*}

/-- A step at the entry `e` leaves the parts of the state that belong to other keys alone. -/
def Local (view : S → K → L) (step : S → Sigma β → S) : Prop :=
  ∀ s e k, e.1 ≠ k → view (step s e) k = view s k

theorem view_foldl_of_notMem {view : S → K → L} {step : S → Sigma β → S} (h : Local view step)
    (l : List (Sigma β)) {k : K} (hk : k ∉ l.keys) (s : S) :
    view (l.foldl step s) k = view s k := by
  induction l generalizing s with
  | nil => rfl
  | cons e l ih =>
    rw [List.keys_cons, List.mem_cons, not_or] at hk
    rw [List.foldl_cons, ih hk.2, h s e k (Ne.symm hk.1)]

/-- **A loop of local steps, key by key.** -/
theorem view_foldl [DecidableEq K] (view : S → K → L) (step : S → Sigma β → S)
    (h : Local view step) (g : (k : K) → β k → L → L)
    (hg : ∀ s e, view (step s e) e.1 = g e.1 e.2 (view s e.1))
    (m : AList β) (s : S) (k : K) :
    view (m.entries.foldl step s) k =
      match m.lookup k with
      | some b => g k b (view s k)
      | none => view s k := by
  obtain ⟨l, hl⟩ := m
  change view (l.foldl step s) k = match l.dlookup k with | some b => _ | none => _
  induction l generalizing s with
  | nil => rfl
  | cons e l ih =>
    obtain ⟨a, b⟩ := e
    rw [List.nodupKeys_cons] at hl
    rw [List.foldl_cons]
    by_cases hak : a = k
    · subst hak
      rw [List.dlookup_cons_eq, view_foldl_of_notMem h l hl.1]
      exact hg s ⟨a, b⟩
    · rw [ih _ hl.2, List.dlookup_cons_ne _ _ (Ne.symm hak), h s ⟨a, b⟩ k hak]

/-- A loop over a map none of whose steps refuses on the initial state runs to its end. -/
theorem foldlM_eq_some {view : S → K → L} {step : S → Sigma β → S} (h : Local view step)
    {stepM : S → Sigma β → Option S} {p : L → Prop}
    (hok : ∀ s e, p (view s e.1) → stepM s e = some (step s e))
    (m : AList β) (s : S) (hm : ∀ k ∈ m, p (view s k)) :
    m.entries.foldlM stepM s = some (m.entries.foldl step s) := by
  obtain ⟨l, hl⟩ := m
  have hm' : ∀ k ∈ l.keys, p (view s k) := fun k hk ↦ hm k hk
  clear hm
  change l.foldlM stepM s = some (l.foldl step s)
  induction l generalizing s with
  | nil => rfl
  | cons e l ih =>
    rw [List.nodupKeys_cons] at hl
    rw [List.foldlM_cons, List.foldl_cons, hok s e (hm' e.1 (by simp))]
    refine ih (step s e) hl.2 fun k hk ↦ ?_
    have hek : e.1 ≠ k := fun he ↦ hl.1 (he ▸ hk)
    rw [h s e k hek]
    exact hm' k (by rw [List.keys_cons]; exact List.mem_cons_of_mem _ hk)

end KeyedFold
