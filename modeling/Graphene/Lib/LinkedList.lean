import Mathlib.Data.List.Basic

/-!
# Lists that are linked through a table

A table holds entries under numbers, and each entry has the number of the one before it.  New
entries only ever get new numbers, so that what could be read from a number can still be read.

* `follow find next n i` — the `n` entries from the number `i` on.
* `follow_mono`, `follow_push` — a table that grows, and an entry on top of a list.
-/

set_option autoImplicit false

namespace LinkedList

variable {E : Type} {find find' : ℕ → Option E} {next : E → ℕ}

/-- The `n` entries from the number `i` on, if they are there. -/
def follow (find : ℕ → Option E) (next : E → ℕ) : ℕ → ℕ → Option (List E)
  | 0, _ => some []
  | n + 1, i => (find i).bind fun e ↦ (follow find next n (next e)).map (e :: ·)

theorem follow_succ_eq_some {n i : ℕ} {l : List E} :
    follow find next (n + 1) i = some l ↔
      ∃ e rest, find i = some e ∧ follow find next n (next e) = some rest ∧ e :: rest = l := by
  simp [follow, Option.bind_eq_some_iff]

theorem length_of_follow {n i : ℕ} {l : List E} (h : follow find next n i = some l) :
    l.length = n := by
  induction n generalizing i l with
  | zero =>
    obtain rfl := Option.some.inj h
    rfl
  | succ n ih =>
    obtain ⟨e, rest, -, hrest, rfl⟩ := follow_succ_eq_some.1 h
    exact congrArg Nat.succ (ih hrest)

/-- What is read is in the table. -/
theorem exists_of_mem_follow {n i : ℕ} {l : List E} (h : follow find next n i = some l) {e : E}
    (he : e ∈ l) : ∃ j, find j = some e := by
  induction n generalizing i l with
  | zero =>
    obtain rfl := Option.some.inj h
    exact absurd he List.not_mem_nil
  | succ n ih =>
    obtain ⟨e', rest, he', hrest, rfl⟩ := follow_succ_eq_some.1 h
    rcases List.mem_cons.1 he with rfl | he
    · exact ⟨i, he'⟩
    · exact ih hrest he

/-- What can be read can be read from a larger table. -/
theorem follow_mono (hfind : ∀ i e, find i = some e → find' i = some e) {n i : ℕ} {l : List E}
    (h : follow find next n i = some l) : follow find' next n i = some l := by
  induction n generalizing i l with
  | zero => exact h
  | succ n ih =>
    obtain ⟨e, rest, he, hrest, hl⟩ := follow_succ_eq_some.1 h
    exact follow_succ_eq_some.2 ⟨e, rest, hfind i e he, ih hrest, hl⟩

/-- **An entry on top of a list.** -/
theorem follow_push (hfind : ∀ i e, find i = some e → find' i = some e) {n i : ℕ} {e : E}
    {l : List E} (hnew : find' i = some e) (h : follow find next n (next e) = some l) :
    follow find' next (n + 1) i = some (e :: l) :=
  follow_succ_eq_some.2 ⟨e, l, hnew, follow_mono hfind h, rfl⟩

end LinkedList
