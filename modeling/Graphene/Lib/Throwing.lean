import Mathlib.Logic.Basic

/-!
# Programs that throw and keep what they have done

In `EStateM ε σ` an exception does not roll the state back: what a program changed before it threw
stays changed, and a handler starts from there.  That is how a program with exceptions and
assignable state behaves, and reasoning about one means following each of its exits.  This file
has the rules for it.

* `bind_ok`, `bind_error`, `tryCatch_ok`, `tryCatch_error` — running the first step;
* `ensure` — a destructor: it runs at every exit;
* `exit`, `Preserves I m` — at every exit `m` leaves a state with the invariant `I`, if it started
  from one; `Preserves.bind`, `Preserves.tryCatch`, `Preserves.forM` compose it;
* `Safe bad I` — the same for one result, which in addition is none of the failures in `bad`;
  `Safe.bind` and `Safe.tryCatch` may use which state a step has come to.
-/

set_option autoImplicit false

namespace Throwing

variable {ε σ α β : Type}

/-! ## One step at a time -/

theorem bind_ok {m : EStateM ε σ α} {f : α → EStateM ε σ β} {s s' : σ} {a : α}
    (h : m s = .ok a s') : (m >>= f) s = f a s' := by
  simp only [bind, EStateM.bind, h]

theorem bind_error {m : EStateM ε σ α} {f : α → EStateM ε σ β} {s s' : σ} {e : ε}
    (h : m s = .error e s') : (m >>= f) s = .error e s' := by
  simp only [bind, EStateM.bind, h]

@[simp] theorem pure_apply (a : α) (s : σ) : (pure a : EStateM ε σ α) s = .ok a s := rfl

@[simp] theorem throw_apply (e : ε) (s : σ) : (throw e : EStateM ε σ α) s = .error e s := rfl

@[simp] theorem get_apply (s : σ) : (get : EStateM ε σ σ) s = .ok s s := rfl

@[simp] theorem modify_apply (f : σ → σ) (s : σ) :
    (modify f : EStateM ε σ PUnit) s = .ok ⟨⟩ (f s) := rfl

theorem tryCatch_ok {m : EStateM ε σ α} {h : ε → EStateM ε σ α} {s s' : σ} {a : α}
    (hm : m s = .ok a s') : (tryCatch m h) s = .ok a s' := by
  change EStateM.tryCatch m h s = _
  delta EStateM.tryCatch
  dsimp only
  rw [hm]

theorem tryCatch_error {m : EStateM ε σ α} {h : ε → EStateM ε σ α} {s s' : σ} {e : ε}
    (hm : m s = .error e s') : (tryCatch m h) s = h e s' := by
  change EStateM.tryCatch m h s = _
  delta EStateM.tryCatch
  dsimp only
  rw [hm]
  rfl

/-- Run `cleanup` at every exit of `m`, as a destructor does. -/
def ensure (m : EStateM ε σ α) (cleanup : EStateM ε σ Unit) : EStateM ε σ α := fun s ↦
  match m s with
  | .ok a s₁ => (do cleanup; return a) s₁
  | .error e s₁ => (do cleanup; throw e) s₁

theorem ensure_ok {m : EStateM ε σ α} {cleanup : EStateM ε σ Unit} {s s₁ s₂ : σ} {a : α}
    (hm : m s = .ok a s₁) (hc : cleanup s₁ = .ok () s₂) : ensure m cleanup s = .ok a s₂ := by
  simp only [ensure, hm]
  exact bind_ok hc

theorem ensure_error {m : EStateM ε σ α} {cleanup : EStateM ε σ Unit} {s s₁ s₂ : σ} {e : ε}
    (hm : m s = .error e s₁) (hc : cleanup s₁ = .ok () s₂) :
    ensure m cleanup s = .error e s₂ := by
  simp only [ensure, hm]
  exact bind_ok hc

/-! ## What every exit has in common -/

/-- The state a program leaves, whether it returned or threw. -/
def exit : EStateM.Result ε σ α → σ
  | .ok _ s => s
  | .error _ s => s

@[simp] theorem exit_ok (a : α) (s : σ) : exit (.ok a s : EStateM.Result ε σ α) = s := rfl

@[simp] theorem exit_error (e : ε) (s : σ) : exit (.error e s : EStateM.Result ε σ α) = s := rfl

/-- Whether a program has returned. -/
def returned : EStateM.Result ε σ α → Bool
  | .ok _ _ => true
  | .error _ _ => false

theorem eq_ok_of_returned {r : EStateM.Result ε σ Unit} (h : returned r = true) :
    r = .ok () (exit r) := by
  cases r with
  | ok => rfl
  | error => cases h

/-- What a program has thrown. -/
def failed : EStateM.Result ε σ α → Option ε
  | .ok _ _ => none
  | .error e _ => some e

theorem eq_error_of_failed {r : EStateM.Result ε σ α} {e : ε} (h : failed r = some e) :
    r = .error e (exit r) := by
  cases r with
  | ok => cases h
  | error e' s =>
    obtain rfl : e' = e := Option.some_inj.1 h
    rfl

/-- However it ends, `m` keeps the invariant `I`. -/
def Preserves (I : σ → Prop) (m : EStateM ε σ α) : Prop := ∀ s, I s → I (exit (m s))

variable {I : σ → Prop}

theorem Preserves.pure (a : α) : Preserves I (pure a : EStateM ε σ α) := fun _ hs ↦ hs

theorem Preserves.throw (e : ε) : Preserves I (throw e : EStateM ε σ α) := fun _ hs ↦ hs

theorem Preserves.modify {f : σ → σ} (hf : ∀ s, I s → I (f s)) :
    Preserves I (modify f : EStateM ε σ PUnit) := hf

/-- What the second step has to keep is kept whatever the first step returned. -/
theorem Preserves.bind {m : EStateM ε σ α} {f : α → EStateM ε σ β} (hm : Preserves I m)
    (hf : ∀ a, Preserves I (f a)) : Preserves I (m >>= f) := by
  intro s hs
  have hs₁ := hm s hs
  cases h : m s with
  | ok a s₁ =>
    rw [bind_ok h]
    rw [h] at hs₁
    exact hf a s₁ hs₁
  | error e s₁ =>
    rw [bind_error h]
    rwa [h] at hs₁

/-- After `get` the state is the one that was read. -/
theorem Preserves.get_bind {f : σ → EStateM ε σ β} (hf : ∀ s, I s → I (exit (f s s))) :
    Preserves I (get >>= f) := by
  intro s hs
  rw [bind_ok (get_apply s)]
  exact hf s hs

theorem Preserves.tryCatch {m : EStateM ε σ α} {f : ε → EStateM ε σ α} (hm : Preserves I m)
    (hf : ∀ e, Preserves I (f e)) : Preserves I (MonadExcept.tryCatch m f) := by
  intro s hs
  have hs₁ := hm s hs
  cases h : m s with
  | ok a s₁ =>
    rw [tryCatch_ok h]
    rwa [h] at hs₁
  | error e s₁ =>
    rw [tryCatch_error h]
    rw [h] at hs₁
    exact hf e s₁ hs₁

theorem Preserves.forM {f : α → EStateM ε σ PUnit} {l : List α}
    (hf : ∀ a ∈ l, Preserves I (f a)) : Preserves I (l.forM f) := by
  induction l with
  | nil => exact Preserves.pure _
  | cons a l ih =>
    exact Preserves.bind (hf a List.mem_cons_self) fun _ ↦
      ih fun b hb ↦ hf b (List.mem_cons_of_mem _ hb)

/-! ## Failures that do not happen -/

/-- The result leaves a state with `I`, and is not a failure in `bad`. -/
def Safe (bad : ε → Prop) (I : σ → Prop) (r : EStateM.Result ε σ α) : Prop :=
  I (exit r) ∧ ∀ e s, r = .error e s → ¬ bad e

variable {bad : ε → Prop}

theorem Safe.ok (a : α) {s : σ} (hs : I s) : Safe bad I (.ok a s : EStateM.Result ε σ α) :=
  ⟨hs, fun _ _ h ↦ nomatch h⟩

theorem Safe.error {e : ε} (he : ¬ bad e) {s : σ} (hs : I s) :
    Safe bad I (.error e s : EStateM.Result ε σ α) := by
  refine ⟨hs, ?_⟩
  rintro e' s' h
  cases h
  exact he

theorem Safe.bind {m : EStateM ε σ α} {f : α → EStateM ε σ β} {s : σ} (hm : Safe bad I (m s))
    (hf : ∀ a s', m s = .ok a s' → I s' → Safe bad I (f a s')) : Safe bad I ((m >>= f) s) := by
  cases h : m s with
  | ok a s₁ =>
    rw [h] at hm
    rw [bind_ok h]
    exact hf a s₁ h hm.1
  | error e s₁ =>
    rw [h] at hm
    rw [bind_error h]
    exact .error (hm.2 e s₁ rfl) hm.1

theorem Safe.tryCatch {m : EStateM ε σ α} {f : ε → EStateM ε σ α} {s : σ}
    (hm : Safe bad I (m s)) (hf : ∀ e s', m s = .error e s' → I s' → Safe bad I (f e s')) :
    Safe bad I ((MonadExcept.tryCatch m f) s) := by
  cases h : m s with
  | ok a s₁ =>
    rw [h] at hm
    rw [tryCatch_ok h]
    exact hm
  | error e s₁ =>
    rw [h] at hm
    rw [tryCatch_error h]
    exact hf e s₁ h hm.1

theorem Safe.forM {f : α → EStateM ε σ PUnit} {l : List α}
    (hf : ∀ a ∈ l, ∀ s, I s → Safe bad I (f a s)) {s : σ} (hs : I s) :
    Safe bad I ((l.forM f) s) := by
  induction l generalizing s with
  | nil => exact .ok _ hs
  | cons a l ih =>
    refine .bind (hf a List.mem_cons_self s hs) ?_
    intro _ s' _ hs'
    exact ih (fun b hb ↦ hf b (List.mem_cons_of_mem _ hb)) hs'

end Throwing
