import Graphene.Lib.Codec

/-!
# Reading records until one cannot be read

Records are written one after the other, and read back into a state until one cannot be unpacked or
is refused.  A string of records that has been cut off is read as far as its last whole record.

* `Codec.Whole` — what was packed is not unpacked from less than all of it.
* `Codec.readInto` — the loop.
* `insertAll`, `TakesAll` — what becomes of the state, and that no record is refused.
* `Codec.Whole.readInto_take` — what is read of a string that has been cut off.
-/

set_option autoImplicit false

namespace Graphene

variable {α S : Type}

/-! ## Into a state -/

/-- What becomes of a state when records are taken into it. -/
def insertAll (f : S → α → S × Bool) (s : S) (l : List α) : S := l.foldl (fun s a ↦ (f s a).1) s

/-- None of the records is refused. -/
def TakesAll (f : S → α → S × Bool) : S → List α → Prop
  | _, [] => True
  | s, a :: l => (f s a).2 = true ∧ TakesAll f (f s a).1 l

theorem insertAll_concat (f : S → α → S × Bool) (s : S) (l : List α) (a : α) :
    insertAll f s (l ++ [a]) = (f (insertAll f s l) a).1 := by
  simp [insertAll]

theorem takesAll_concat {f : S → α → S × Bool} {s : S} {l : List α} {a : α} :
    TakesAll f s (l ++ [a]) ↔ TakesAll f s l ∧ (f (insertAll f s l) a).2 = true := by
  induction l generalizing s with
  | nil => simp [TakesAll, insertAll]
  | cons b l ih =>
    rw [List.cons_append, TakesAll, ih, TakesAll, and_assoc]
    rfl

namespace Codec

variable {c : Codec α}

/-- What was packed is not unpacked from less than all of it, and nothing from nothing. -/
structure Whole (c : Codec α) : Prop where
  /-- From nothing. -/
  nil : c.unpack [] = none
  /-- From less than all. -/
  take : ∀ a n, n < (c.pack a).length → c.unpack ((c.pack a).take n) = none

theorem Canonical.whole (h : c.Canonical) (hne : ∀ a, c.pack a ≠ []) : c.Whole where
  nil := by
    rw [Option.eq_none_iff_forall_ne_some]
    rintro ⟨a, rest⟩ hunpack
    exact hne a (List.append_eq_nil_iff.1 (h.eq_pack_append hunpack).symm).1
  take _ _ hn := h.unpack_take hn

/-- Record after record is read into a state, until one cannot be, or is refused. -/
def readInto (c : Codec α) (f : S → α → S × Bool) : ℕ → List UInt8 → S → S
  | 0, _, s => s
  | fuel + 1, bytes, s =>
    match c.unpack bytes with
    | none => s
    | some (a, rest) => if (f s a).2 then readInto c f fuel rest (f s a).1 else (f s a).1

theorem Whole.pack_ne_nil (h : c.Whole) (a : α) : c.pack a ≠ [] := by
  intro hnil
  have hunpack := c.unpack_pack a []
  rw [hnil, List.append_nil, h.nil] at hunpack
  cases hunpack

/-- **What is read of records that have been cut off**: the whole ones. -/
theorem Whole.readInto_take (h : c.Whole) {f : S → α → S × Bool} {s : S} {l : List α}
    (haccepts : TakesAll f s l) (n fuel : ℕ)
    (hfuel : ((l.flatMap c.pack).take n).length < fuel) :
    ∃ k, c.readInto f fuel ((l.flatMap c.pack).take n) s = insertAll f s (l.take k) ∧
      ((l.flatMap c.pack).length ≤ n → l.take k = l) := by
  induction l generalizing s n fuel with
  | nil =>
    obtain ⟨fuel, rfl⟩ : ∃ m, fuel = m + 1 := ⟨fuel - 1, by simp at hfuel; omega⟩
    refine ⟨0, ?_, fun _ ↦ rfl⟩
    rw [List.flatMap_nil, List.take_nil, readInto, h.nil]
    rfl
  | cons a l ih =>
    obtain ⟨fuel, rfl⟩ : ∃ m, fuel = m + 1 := ⟨fuel - 1, by omega⟩
    have hpos := List.length_pos_iff.2 (h.pack_ne_nil a)
    by_cases hn : n < (c.pack a).length
    · refine ⟨0, ?_, fun hle ↦ ?_⟩
      · rw [List.flatMap_cons, List.take_append_of_le_length hn.le, readInto, h.take a n hn]
        rfl
      · rw [List.flatMap_cons, List.length_append] at hle
        omega
    · rw [List.flatMap_cons, List.take_append, List.take_of_length_le (by omega)] at hfuel ⊢
      rw [List.length_append] at hfuel
      obtain ⟨k, hread, hall⟩ := ih haccepts.2 (n - (c.pack a).length) fuel (by omega)
      refine ⟨k + 1, ?_, fun hle ↦ ?_⟩
      · rw [readInto, c.unpack_pack]
        dsimp only
        rw [if_pos haccepts.1, hread]
        rfl
      · rw [List.length_append] at hle
        rw [List.take_succ_cons, hall (by omega)]

end Codec

end Graphene
