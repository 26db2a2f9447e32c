import Mathlib.Algebra.Group.Int.Defs
import Mathlib.Logic.Basic

/-!
# Operations that are refused or applied

A ledger takes one operation after the other; one that fails leaves no trace.  This file has the
runs of such a system, over any state `σ`, operation `ι` and failure `ε`, and the rules that prove
something about all of them.

* `attempt step s i` — the state after `i`, applied or refused; `run` for a list of operations.
* `Along step Q s is` — `Q` holds at every step of the run.
* `Along.of_inv` — an invariant that every step keeps, and `Q` where it holds; `Along.iff_of_inv` —
  two things that are the same where it holds.
* `run_inv` — the same of the state after it.
* `applied`, `Throughout` — a run of operations that are all applied, and what holds at every step
  of it; `throughout_iff` — what holds after it exactly if it did throughout; `applied_sum` — what
  such a run adds to a quantity.
* `Throughout.inv`, `forall_prefix_iff_throughout` — what holds of every state that is reached.
* `admitted` — the operations left when those that are refused are passed over.
* `total`, `total_eq_sub` — what the operations of a run come to together.
* `check`, `orThrow`, `bind_eq_ok`, `bind_eq_error` — the steps an operation is made of.
-/

set_option autoImplicit false

namespace Transitions

variable {ε ε' σ ι α β : Type}

/-! ## One operation -/

/-- Go on if `c`, fail with `e` if not. -/
def check (c : Bool) (e : ε) : Except ε Unit := if c then .ok () else .error e

@[simp] theorem check_eq_ok {c : Bool} {e : ε} : check c e = .ok () ↔ c = true := by
  cases c <;> simp [check]

theorem check_eq_error {c : Bool} {e e' : ε} : check c e = .error e' ↔ c = false ∧ e = e' := by
  cases c <;> simp [check]

/-- What there is, or fail with `e`. -/
def orThrow (x : Option α) (e : ε) : Except ε α := x.elim (.error e) .ok

@[simp] theorem orThrow_eq_ok {x : Option α} {e : ε} {a : α} :
    orThrow x e = .ok a ↔ x = some a := by
  cases x <;> simp [orThrow]

@[simp] theorem orThrow_eq_error {x : Option α} {e e' : ε} :
    (orThrow x e : Except ε α) = .error e' ↔ x = none ∧ e = e' := by
  cases x <;> simp [orThrow]

/-- Failing as part of something that may fail in more ways. -/
def within (f : ε → ε') : Except ε α → Except ε' α
  | .ok a => .ok a
  | .error e => .error (f e)

@[simp] theorem within_eq_ok {f : ε → ε'} {x : Except ε α} {a : α} :
    within f x = .ok a ↔ x = .ok a := by
  cases x <;> simp [within]

@[simp] theorem within_eq_error {f : ε → ε'} {x : Except ε α} {e' : ε'} :
    within f x = .error e' ↔ ∃ e, x = .error e ∧ f e = e' := by
  cases x <;> simp [within]

/-- What an operation failed with, if it did. -/
def failure : Except ε α → Option ε
  | .ok _ => none
  | .error e => some e

theorem failure_eq_some {x : Except ε α} {e : ε} : failure x = some e ↔ x = .error e := by
  cases x <;> simp [failure]

theorem bind_eq_ok {x : Except ε α} {f : α → Except ε β} {b : β} :
    (x >>= f) = .ok b ↔ ∃ a, x = .ok a ∧ f a = .ok b := by
  cases x <;> simp [bind, Except.bind]

theorem bind_eq_error {x : Except ε α} {f : α → Except ε β} {e : ε} :
    (x >>= f) = .error e ↔ x = .error e ∨ ∃ a, x = .ok a ∧ f a = .error e := by
  cases x <;> simp [bind, Except.bind]

/-! ## Runs -/

variable (step : σ → ι → Except ε σ)

/-- The state after an operation: what it leaves if it is applied, and nothing new if not. -/
def attempt (s : σ) (i : ι) : σ :=
  match step s i with
  | .ok s' => s'
  | .error _ => s

/-- The state after a list of operations. -/
def run : σ → List ι → σ := List.foldl (attempt step)

/-- `Q` holds of every state of the run and the operation that is attempted there. -/
def Along (Q : σ → ι → Prop) : σ → List ι → Prop
  | _, [] => True
  | s, i :: is => Q s i ∧ Along Q (attempt step s i) is

variable {step}

theorem attempt_of_ok {s s' : σ} {i : ι} (h : step s i = .ok s') : attempt step s i = s' := by
  rw [attempt, h]

/-- What holds before an operation and after every one that is applied, holds after it. -/
theorem attempt_induction {P : σ → Prop} {s : σ} {i : ι} (hs : P s)
    (h : ∀ s', step s i = .ok s' → P s') : P (attempt step s i) := by
  rw [attempt]
  split
  · exact h _ ‹_›
  · exact hs

/-- An invariant that every step keeps holds after the run. -/
theorem run_inv {Inv : σ → Prop} {P : ι → Prop} {s : σ} {is : List ι} (hs : Inv s)
    (his : ∀ i ∈ is, P i) (hstep : ∀ s i, Inv s → P i → Inv (attempt step s i)) :
    Inv (run step s is) := by
  induction is generalizing s with
  | nil => exact hs
  | cons i is ih =>
    exact ih (hstep s i hs (his i List.mem_cons_self)) fun j hj ↦
      his j (List.mem_cons_of_mem _ hj)

/-- **The invariant rule**: what holds wherever the invariant does, holds along the run. -/
theorem Along.of_inv {Inv : σ → Prop} {P : ι → Prop} {Q : σ → ι → Prop} {s : σ} {is : List ι}
    (hs : Inv s) (his : ∀ i ∈ is, P i)
    (hstep : ∀ s i, Inv s → P i → Inv (attempt step s i) ∧ Q s i) : Along step Q s is := by
  induction is generalizing s with
  | nil => trivial
  | cons i is ih =>
    obtain ⟨hinv, hq⟩ := hstep s i hs (his i List.mem_cons_self)
    exact ⟨hq, ih hinv fun j hj ↦ his j (List.mem_cons_of_mem _ hj)⟩

/-- Two things are the same along a run, if they are where the invariant holds, and keep it. -/
theorem Along.iff_of_inv {Inv : σ → Prop} {Q R : σ → ι → Prop} {s : σ} {is : List ι} (hs : Inv s)
    (hiff : ∀ s i, Inv s → (Q s i ↔ R s i))
    (hkeeps : ∀ s i, Inv s → Q s i → Inv (attempt step s i)) :
    Along step Q s is ↔ Along step R s is := by
  induction is generalizing s with
  | nil => exact Iff.rfl
  | cons i is ih =>
    constructor
    · rintro ⟨hq, hrest⟩
      exact ⟨(hiff s i hs).1 hq, (ih (hkeeps s i hs hq)).1 hrest⟩
    · rintro ⟨hr, hrest⟩
      have hq := (hiff s i hs).2 hr
      exact ⟨hq, (ih (hkeeps s i hs hq)).2 hrest⟩

/-- What the operations of a run come to together, `f` being what each of them does. -/
def total (step : σ → ι → Except ε σ) (f : σ → ι → ℤ) : σ → List ι → ℤ
  | _, [] => 0
  | s, i :: is => f s i + total step f (attempt step s i) is

/-- **The rule of totals**: what every operation takes from a quantity, it loses over the run. -/
theorem total_eq_sub {f : σ → ι → ℤ} {q : σ → ℤ} {Inv : σ → Prop} {s : σ} {is : List ι}
    (hs : Inv s) (hstep : ∀ s i, i ∈ is → Inv s →
      Inv (attempt step s i) ∧ q (attempt step s i) = q s - f s i) :
    total step f s is = q s - q (run step s is) := by
  induction is generalizing s with
  | nil => exact (sub_self _).symm
  | cons i is ih =>
    obtain ⟨hinv, hq⟩ := hstep s i List.mem_cons_self hs
    have hrest := ih hinv fun s j hj ↦ hstep s j (List.mem_cons_of_mem _ hj)
    show f s i + total step f (attempt step s i) is = q s - q (run step (attempt step s i) is)
    rw [hrest, hq]
    omega

/-! ## Runs of what is applied -/

variable (next : σ → ι → Option σ)

/-- The state after a list of operations all of which are applied. -/
def applied : σ → List ι → Option σ := List.foldlM next

/-- `Q` holds of every state of the run and the operation that is applied there. -/
def Throughout (Q : σ → ι → Prop) : σ → List ι → Prop
  | _, [] => True
  | s, i :: is => Q s i ∧ ∀ s' ∈ next s i, Throughout Q s' is

instance {Q : σ → ι → Prop} [∀ s i, Decidable (Q s i)] : ∀ s is, Decidable (Throughout next Q s is)
  | _, [] => inferInstanceAs (Decidable True)
  | s, i :: is =>
    have (s' : σ) : Decidable (Throughout next Q s' is) := instDecidableThroughout s' is
    inferInstanceAs (Decidable (Q s i ∧ ∀ s' ∈ next s i, Throughout next Q s' is))

variable {next}

theorem applied_cons {s t : σ} {i : ι} {is : List ι} :
    applied next s (i :: is) = some t ↔ ∃ s' ∈ next s i, applied next s' is = some t := by
  rw [applied, List.foldlM_cons, Option.bind_eq_bind, Option.bind_eq_some_iff]
  rfl

/-- What every operation keeps holds after the run. -/
theorem applied_inv {Inv : σ → Prop} (hstep : ∀ s i s', Inv s → next s i = some s' → Inv s')
    {s t : σ} {is : List ι} (hs : Inv s) (h : applied next s is = some t) : Inv t := by
  induction is generalizing s with
  | nil =>
    obtain rfl := Option.some.inj h
    exact hs
  | cons i is ih =>
    obtain ⟨s', hnext, hrest⟩ := applied_cons.1 h
    exact ih (hstep s i s' hs hnext) hrest

/-- What every operation adds to a quantity, a run adds together. -/
theorem applied_sum {M : Type} [AddMonoid M] {q : σ → M} {f : ι → M}
    (hstep : ∀ s i s', next s i = some s' → q s' = q s + f i) {s t : σ} {is : List ι}
    (h : applied next s is = some t) : q t = q s + (is.map f).sum := by
  induction is generalizing s with
  | nil =>
    obtain rfl := Option.some.inj h
    simp
  | cons i is ih =>
    obtain ⟨s', hnext, hrest⟩ := applied_cons.1 h
    rw [ih hrest, hstep s i s' hnext, List.map_cons, List.sum_cons, add_assoc]

/-- What every operation with `P` keeps where `Q` holds, holds after a run of such operations
throughout which `Q` does. -/
theorem Throughout.inv {Inv : σ → Prop} {P : ι → Prop} {Q : σ → ι → Prop} {s t : σ} {is : List ι}
    (hall : Throughout next Q s is) (his : ∀ i ∈ is, P i)
    (hkeeps : ∀ s i s', Inv s → P i → Q s i → next s i = some s' → Inv s') (hs : Inv s)
    (h : applied next s is = some t) : Inv t := by
  induction is generalizing s with
  | nil =>
    obtain rfl := Option.some.inj h
    exact hs
  | cons i is ih =>
    obtain ⟨s', hnext, hrest⟩ := applied_cons.1 h
    exact ih (hall.2 s' hnext) (fun j hj ↦ his j (List.mem_cons_of_mem _ hj))
      (hkeeps s i s' hs (his i List.mem_cons_self) hall.1 hnext) hrest

/-- **The rule for every state of a run**: where `G` states are kept if `Q` holds, and `I` is
lost at once if it does not, `I` holds of every state that is reached exactly if `Q` holds
throughout. -/
theorem forall_prefix_iff_throughout {G I : σ → Prop} {Q : σ → ι → Prop}
    (hkeeps : ∀ s i s', G s → next s i = some s' → Q s i → G s')
    (hspoils : ∀ s i s', G s → next s i = some s' → ¬ Q s i → ¬ I s')
    (hgood : ∀ s, G s → I s) {s t : σ} {is : List ι} (hs : G s)
    (h : applied next s is = some t) :
    (∀ js, js <+: is → ∀ s' ∈ applied next s js, I s') ↔ Throughout next Q s is := by
  induction is generalizing s with
  | nil =>
    refine ⟨fun _ ↦ trivial, fun _ js hjs s' hs' ↦ ?_⟩
    obtain rfl := List.prefix_nil.1 hjs
    obtain rfl := Option.some.inj hs'
    exact hgood s hs
  | cons i is ih =>
    obtain ⟨s₁, hnext, hrest⟩ := applied_cons.1 h
    have hone : ∀ js s', s' ∈ applied next s (i :: js) ↔ s' ∈ applied next s₁ js := by
      intro js s'
      rw [Option.mem_def, applied_cons]
      constructor
      · rintro ⟨s₂, hs₂, happlied⟩
        obtain rfl := Option.some.inj (hnext.symm.trans hs₂)
        exact happlied
      · exact fun happlied ↦ ⟨s₁, hnext, happlied⟩
    constructor
    · intro hall
      have hq : Q s i := Classical.byContradiction fun hnot ↦
        hspoils s i s₁ hs hnext hnot (hall [i] (List.cons_prefix_cons.2 ⟨rfl, List.nil_prefix⟩) s₁
          ((hone [] s₁).2 rfl))
      refine ⟨hq, fun s₂ hs₂ ↦ ?_⟩
      obtain rfl := Option.some.inj (hnext.symm.trans hs₂)
      refine (ih (hkeeps s i s₁ hs hnext hq) hrest).1 fun js hjs s' hs' ↦ ?_
      exact hall (i :: js) (List.cons_prefix_cons.2 ⟨rfl, hjs⟩) s' ((hone js s').2 hs')
    · rintro ⟨hq, hall⟩ js hjs s' hs'
      cases js with
      | nil =>
        obtain rfl := Option.some.inj hs'
        exact hgood s hs
      | cons j js =>
        obtain ⟨rfl, hprefix⟩ := List.cons_prefix_cons.1 hjs
        exact (ih (hkeeps s j s₁ hs hnext hq) hrest).2 (hall s₁ hnext) js hprefix s'
          ((hone js s').1 hs')

/-- **The rule of exact conditions**: if an operation keeps the invariant where `Q` holds, and
spoils the state for good where it does not, then the invariant holds after a run or the state is
spoilt, as `Q` held throughout or not. -/
theorem throughout_iff {Inv Spoilt : σ → Prop} {Q : σ → ι → Prop}
    (hkeeps : ∀ s i s', Inv s → next s i = some s' → Q s i → Inv s')
    (hspoils : ∀ s i s', Inv s → next s i = some s' → ¬ Q s i → Spoilt s')
    (hstays : ∀ s i s', Spoilt s → next s i = some s' → Spoilt s')
    {s t : σ} {is : List ι} (hs : Inv s) (h : applied next s is = some t) :
    (Throughout next Q s is → Inv t) ∧ (¬ Throughout next Q s is → Spoilt t) := by
  induction is generalizing s with
  | nil =>
    obtain rfl := Option.some.inj h
    exact ⟨fun _ ↦ hs, fun hnot ↦ absurd trivial hnot⟩
  | cons i is ih =>
    obtain ⟨s', hnext, hrest⟩ := applied_cons.1 h
    by_cases hq : Q s i
    · obtain ⟨hinv, hspoilt⟩ := ih (hkeeps s i s' hs hnext hq) hrest
      refine ⟨fun hall ↦ hinv (hall.2 s' hnext), fun hnot ↦ hspoilt fun hall ↦ hnot ⟨hq, ?_⟩⟩
      intro s'' hs''
      obtain rfl := Option.some.inj (hnext.symm.trans hs'')
      exact hall
    · exact ⟨fun hall ↦ absurd hall.1 hq,
        fun _ ↦ applied_inv hstays (hspoils s i s' hs hnext hq) hrest⟩

/-! ## Passing over what is refused -/

variable (next) in
/-- The operations that are applied, one after the other, when those that are refused are passed
over. -/
def admitted : σ → List ι → List ι
  | _, [] => []
  | s, i :: is =>
    match next s i with
    | some s' => i :: admitted s' is
    | none => admitted s is

theorem admitted_sublist (s : σ) (is : List ι) : (admitted next s is).Sublist is := by
  induction is generalizing s with
  | nil => exact List.Sublist.refl []
  | cons i is ih =>
    rw [admitted]
    split
    · exact (ih _).cons_cons i
    · exact (ih s).cons i

/-- What is admitted can be applied, and what comes later is admitted from there. -/
theorem admitted_append (s : σ) (is : List ι) : ∃ t, applied next s (admitted next s is) = some t ∧
    ∀ js, admitted next s (is ++ js) = admitted next s is ++ admitted next t js := by
  induction is generalizing s with
  | nil => exact ⟨s, rfl, fun _ ↦ rfl⟩
  | cons i is ih =>
    cases hnext : next s i with
    | none =>
      obtain ⟨t, happlied, happend⟩ := ih s
      refine ⟨t, ?_, fun js ↦ ?_⟩
      · rw [admitted, hnext]
        exact happlied
      · rw [List.cons_append, admitted, admitted, hnext]
        exact happend js
    | some s' =>
      obtain ⟨t, happlied, happend⟩ := ih s'
      refine ⟨t, ?_, fun js ↦ ?_⟩
      · rw [admitted, hnext]
        exact applied_cons.2 ⟨s', hnext, happlied⟩
      · rw [List.cons_append, admitted, admitted, hnext]
        exact congrArg (i :: ·) (happend js)

/-- **Nothing that can be applied in its turn is passed over.** -/
theorem admitted_of_isSome {s t : σ} {is js : List ι} {i : ι}
    (ht : applied next s (admitted next s is) = some t) (hi : (next t i).isSome) :
    ∃ ks, admitted next s (is ++ i :: js) = admitted next s is ++ i :: ks := by
  obtain ⟨t', ht', happend⟩ := admitted_append s is
  obtain rfl := Option.some.inj (ht.symm.trans ht')
  obtain ⟨t₁, ht₁⟩ := Option.isSome_iff_exists.1 hi
  refine ⟨admitted next t₁ js, (happend _).trans ?_⟩
  rw [admitted, ht₁]

end Transitions
