import Mathlib.Data.List.TakeWhile
import Mathlib.Tactic.Ring

/-!
# Decimal strings

Numbers are written with decimal digits, the most significant first, and read back.

* `DecimalString.Digits`, `DecimalString.value` — strings of digits, and what they are worth.
* `value_append`, `value_lt` — what two strings are worth together, and how much one is at most.
* `value_toDigits`, `length_toDigits` — a number that is written is read back, and its length.
* `takeWhile_append` — the digits that a string starts with.
-/

set_option autoImplicit false

namespace DecimalString

/-- All characters are digits. -/
def Digits (s : List Char) : Prop := ∀ c ∈ s, c.isDigit = true

/-- What a string of digits is worth. -/
def value (s : List Char) : ℕ := Nat.ofDigitChars 10 s 0

variable {s t : List Char} {n k : ℕ}

theorem Digits.nil : Digits [] := fun _ h ↦ absurd h List.not_mem_nil

theorem digits_cons {c : Char} : Digits (c :: s) ↔ c.isDigit = true ∧ Digits s :=
  List.forall_mem_cons

theorem digits_append : Digits (s ++ t) ↔ Digits s ∧ Digits t := List.forall_mem_append

theorem Digits.replicate_zero (n : ℕ) : Digits (List.replicate n '0') := by
  intro c hc
  rw [List.eq_of_mem_replicate hc]
  rfl

/-- What is not a digit is not in a string of digits. -/
theorem Digits.notMem {c : Char} (h : Digits s) (hc : c.isDigit = false) : c ∉ s := by
  intro hmem
  rw [h c hmem] at hc
  cases hc

@[simp]
theorem value_nil : value [] = 0 := rfl

theorem value_append (s t : List Char) : value (s ++ t) = value s * 10 ^ t.length + value t := by
  rw [value, Nat.ofDigitChars_append, Nat.ofDigitChars_eq_ofDigitChars_zero, mul_comm]
  rfl

theorem value_cons (c : Char) (s : List Char) :
    value (c :: s) = (c.toNat - 48) * 10 ^ s.length + value s := by
  rw [← List.singleton_append, value_append, value, Nat.ofDigitChars_cons, Nat.ofDigitChars_nil,
    mul_zero, zero_add]
  rfl

theorem value_replicate_zero (n : ℕ) : value (List.replicate n '0') = 0 := by
  rw [value, Nat.ofDigitChars_replicate_zero, mul_zero]

/-- A digit is worth less than ten. -/
theorem toNat_sub_lt {c : Char} (h : c.isDigit = true) : c.toNat - 48 < 10 := by
  have hle : c.toNat ≤ 57 := by
    rw [Char.isDigit, Bool.and_eq_true, decide_eq_true_iff, decide_eq_true_iff] at h
    exact UInt32.le_iff_toNat_le.1 h.2
  omega

theorem value_lt (h : Digits s) : value s < 10 ^ s.length := by
  induction s with
  | nil => exact Nat.one_pos
  | cons c s ih =>
    obtain ⟨hc, hs⟩ := digits_cons.1 h
    have hlt := ih hs
    have hdigit : (c.toNat - 48) * 10 ^ s.length ≤ 9 * 10 ^ s.length :=
      Nat.mul_le_mul_right _ (Nat.le_of_lt_succ (toNat_sub_lt hc))
    rw [value_cons, List.length_cons, pow_succ]
    omega

theorem value_toDigits (n : ℕ) : value (Nat.toDigits 10 n) = n := Nat.ofDigitChars_ten_toDigits

theorem digits_toDigits (n : ℕ) : Digits (Nat.toDigits 10 n) :=
  fun _ h ↦ Nat.isDigit_of_mem_toDigits (by decide) (by decide) h

/-- How many digits a number has. -/
theorem length_toDigits (hle : 10 ^ k ≤ n) (hlt : n < 10 ^ (k + 1)) :
    (Nat.toDigits 10 n).length = k + 1 := by
  refine le_antisymm ((Nat.length_toDigits_le_iff (by decide) k.succ_pos).2 hlt) ?_
  have hpos : 0 < (Nat.toDigits 10 n).length := Nat.length_toDigits_pos
  rcases k.eq_zero_or_pos with rfl | hk
  · exact hpos
  · exact Nat.lt_of_not_le fun h ↦
      absurd ((Nat.length_toDigits_le_iff (by decide) hk).1 h) (not_lt.2 hle)

/-- A string of digits that is followed by something else. -/
theorem takeWhile_append (h : Digits s) (ht : ∀ c ∈ t.head?, c.isDigit = false) :
    (s ++ t).takeWhile Char.isDigit = s := by
  rw [List.takeWhile_append_of_pos h]
  cases t with
  | nil => rw [List.takeWhile_nil, List.append_nil]
  | cons c t =>
    rw [List.takeWhile_cons_of_neg (by rw [ht c rfl]; exact Bool.false_ne_true), List.append_nil]

end DecimalString
