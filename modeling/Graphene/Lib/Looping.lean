import Mathlib.Logic.Relation
import Mathlib.Order.WellFounded

/-!
# Loops that end

A loop takes one step after the other until one of them says that it is over, or fails.  This file
has the run of a loop in so many steps at most, and the rule that shows that it ends: an invariant,
and a measure that every step makes smaller.  The bound on the steps is there only so that the run
can be written down; what is proved of a loop is proved of every bound that is large enough.

* `Looping.run` — the loop.
* `Looping.Reaches` — the states that it comes to.
* `Looping.terminates` — it ends, and what each step does is done from the first state to the last.
* `Looping.returns`, `Looping.Reaches.run_error` — it returns if it comes to no state that fails,
  and fails if it comes to one.
-/

set_option autoImplicit false

namespace Looping

variable {σ ε μ : Type*} {step : σ → Except ε (Option σ)}

/-- A loop, in so many steps at most: where it ends, or what it fails with. -/
def run (step : σ → Except ε (Option σ)) : ℕ → σ → Option (Except ε σ)
  | 0, _ => none
  | fuel + 1, s =>
    match step s with
    | .error e => some (.error e)
    | .ok none => some (.ok s)
    | .ok (some s') => run step fuel s'

/-- The states that a loop comes to. -/
def Reaches (step : σ → Except ε (Option σ)) : σ → σ → Prop :=
  Relation.ReflTransGen fun s s' ↦ step s = .ok (some s')

theorem run_error {fuel : ℕ} {s : σ} {e : ε} (h : step s = .error e) :
    run step (fuel + 1) s = some (.error e) := by
  rw [run, h]

theorem run_over {fuel : ℕ} {s : σ} (h : step s = .ok none) :
    run step (fuel + 1) s = some (.ok s) := by
  rw [run, h]

theorem run_step {fuel : ℕ} {s s' : σ} (h : step s = .ok (some s')) :
    run step (fuel + 1) s = run step fuel s' := by
  rw [run, h]

/-- What a loop does from a state that it comes to, it does with so many steps more. -/
theorem Reaches.run {s t : σ} (h : Reaches step s t) :
    ∃ n, ∀ fuel, Looping.run step (fuel + n) s = Looping.run step fuel t := by
  induction h using Relation.ReflTransGen.head_induction_on with
  | refl => exact ⟨0, fun _ ↦ rfl⟩
  | head hnext _ ih =>
    obtain ⟨n, hn⟩ := ih
    exact ⟨n + 1, fun fuel ↦ (run_step hnext).trans (hn fuel)⟩

/-- **A loop that comes to a state that fails** fails. -/
theorem Reaches.run_error {s t : σ} {e : ε} (h : Reaches step s t) (he : step t = .error e) :
    ∃ n, ∀ fuel ≥ n, Looping.run step fuel s = some (.error e) := by
  obtain ⟨n, hn⟩ := h.run
  refine ⟨n + 1, fun fuel hfuel ↦ ?_⟩
  obtain ⟨k, rfl⟩ := Nat.exists_eq_add_of_le' hfuel
  rw [show k + (n + 1) = k + 1 + n by omega, hn]
  exact Looping.run_error he

/-- An invariant holds of every state that the loop comes to. -/
theorem Reaches.inv {inv : σ → Prop} (hstep : ∀ s s', inv s → step s = .ok (some s') → inv s')
    {s t : σ} (h : Reaches step s t) (hs : inv s) : inv t := by
  induction h with
  | refl => exact hs
  | tail _ hnext ih => exact hstep _ _ ih hnext

/-- **A loop ends** if each step keeps an invariant and makes a measure smaller.  What the steps do
one after the other, the loop does. -/
theorem terminates [Preorder μ] [WellFoundedLT μ] {inv : σ → Prop} {does : σ → σ → Prop}
    {size : σ → μ} (hrefl : ∀ s, does s s) (htrans : ∀ s s' t, does s s' → does s' t → does s t)
    (hstep : ∀ s s', inv s → step s = .ok (some s') → inv s' ∧ does s s' ∧ size s' < size s)
    (s : σ) (hs : inv s) :
    ∃ n t, inv t ∧ does s t ∧ ∀ fuel ≥ n,
      step t = .ok none ∧ run step fuel s = some (.ok t) ∨
        ∃ e, step t = .error e ∧ run step fuel s = some (.error e) := by
  induction hsize : size s using WellFoundedLT.induction generalizing s with
  | ind x ih =>
    subst hsize
    cases hnext : step s with
    | error e =>
      refine ⟨1, s, hs, hrefl s, fun fuel hfuel ↦ .inr ⟨e, hnext, ?_⟩⟩
      obtain ⟨fuel, rfl⟩ := Nat.exists_eq_add_of_le' hfuel
      exact run_error hnext
    | ok next =>
      cases next with
      | none =>
        refine ⟨1, s, hs, hrefl s, fun fuel hfuel ↦ .inl ⟨hnext, ?_⟩⟩
        obtain ⟨fuel, rfl⟩ := Nat.exists_eq_add_of_le' hfuel
        exact run_over hnext
      | some s' =>
        obtain ⟨hs', hdoes, hlt⟩ := hstep s s' hs hnext
        obtain ⟨n, t, ht, hdoes', hrun⟩ := ih (size s') hlt s' hs' rfl
        refine ⟨n + 1, t, ht, htrans s s' t hdoes hdoes', fun fuel hfuel ↦ ?_⟩
        obtain ⟨fuel, rfl⟩ := Nat.exists_eq_add_of_le' (Nat.le_of_add_left_le hfuel)
        rw [run_step hnext]
        exact hrun fuel (Nat.le_of_succ_le_succ hfuel)

/-- **A loop that ends returns** if none of the states that it comes to fails. -/
theorem returns [Preorder μ] [WellFoundedLT μ] {inv : σ → Prop} {size : σ → μ}
    (hstep : ∀ s s', inv s → step s = .ok (some s') → inv s' ∧ size s' < size s) {s : σ}
    (hs : inv s) (hnever : ∀ t, Reaches step s t → ∀ e, step t ≠ .error e) :
    ∃ n t, ∀ fuel ≥ n, run step fuel s = some (.ok t) := by
  have hdoes : ∀ u u', inv u → step u = .ok (some u') →
      inv u' ∧ Reaches step u u' ∧ size u' < size u := fun u u' hu hnext ↦
    ⟨(hstep u u' hu hnext).1, .single hnext, (hstep u u' hu hnext).2⟩
  obtain ⟨n, t, -, ht, hrun⟩ := terminates (fun _ ↦ .refl) (fun _ _ _ h h' ↦ h.trans h') hdoes s hs
  refine ⟨n, t, fun fuel hfuel ↦ ?_⟩
  rcases hrun fuel hfuel with ⟨-, hrun⟩ | ⟨e, he, -⟩
  · exact hrun
  · exact absurd he (hnever t ht e)

end Looping
