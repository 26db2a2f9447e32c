import Mathlib.Data.List.Basic
import Mathlib.Tactic.Common

/-!
# Reading a stream that comes in chunks

A stream delivers its bytes in chunks of any size.  Reading a number of bytes takes from as many
chunks as it needs.

* `readsome` — one read, of one chunk at most.
* `readExactly` — reads until all that was asked for is there.
* `readExactly_of_le`, `readExactly_of_lt` — what is read does not depend on how the stream was cut.
-/

set_option autoImplicit false

namespace Graphene

variable {β : Type}

/-- One read of at most `len` bytes: the first chunk, or its beginning; `none` at the end of the
stream. -/
def readsome (len : ℕ) : List (List β) → Option (List β × List (List β))
  | [] => none
  | chunk :: rest =>
    if chunk.length ≤ len then some (chunk, rest)
    else some (chunk.take len, chunk.drop len :: rest)

/-- Reads until `len` bytes are there. -/
def readMore : ℕ → ℕ → List (List β) → Option (List β × List (List β))
  | 0, _, _ => none
  | fuel + 1, len, chunks =>
    if len = 0 then some ([], chunks)
    else do
      let (got, chunks) ← readsome len chunks
      let (more, chunks) ← readMore fuel (len - got.length) chunks
      return (got ++ more, chunks)

/-- Reads `len` bytes; `none` if the stream ends before. -/
def readExactly (len : ℕ) (chunks : List (List β)) : Option (List β × List (List β)) :=
  readMore (chunks.length + 1) len chunks

theorem readMore_zero (fuel : ℕ) (chunks : List (List β)) :
    readMore (fuel + 1) 0 chunks = some ([], chunks) := by
  rw [readMore, if_pos rfl]

theorem readMore_of_le {fuel len : ℕ} {chunks : List (List β)} (hfuel : chunks.length < fuel)
    (h : len ≤ chunks.flatten.length) :
    ∃ rest, readMore fuel len chunks = some (chunks.flatten.take len, rest) ∧
      rest.flatten = chunks.flatten.drop len := by
  induction chunks generalizing fuel len with
  | nil =>
    obtain ⟨fuel, rfl⟩ := Nat.exists_eq_succ_of_ne_zero (Nat.ne_of_gt hfuel)
    obtain rfl : len = 0 := Nat.le_zero.1 h
    exact ⟨[], readMore_zero fuel [], rfl⟩
  | cons chunk chunks ih =>
    obtain ⟨fuel, rfl⟩ := Nat.exists_eq_succ_of_ne_zero (Nat.ne_of_gt (Nat.zero_lt_of_lt hfuel))
    rcases Nat.eq_zero_or_pos len with rfl | hpos
    · exact ⟨chunk :: chunks, readMore_zero fuel _, rfl⟩
    simp only [List.length_cons] at hfuel
    rw [List.flatten_cons, List.length_append] at h
    rw [readMore, if_neg (by omega), readsome, List.flatten_cons]
    by_cases hle : chunk.length ≤ len
    · obtain ⟨rest, hread, hrest⟩ := @ih fuel (len - chunk.length) (by omega) (by omega)
      refine ⟨rest, ?_, ?_⟩
      · rw [if_pos hle]
        simp only [Option.bind_eq_bind, Option.bind_some, hread]
        rw [List.take_append, List.take_of_length_le hle]
        rfl
      · rw [hrest, List.drop_append, List.drop_of_length_le hle, List.nil_append]
    · obtain ⟨fuel, rfl⟩ := Nat.exists_eq_succ_of_ne_zero (show fuel ≠ 0 by omega)
      have htake : (chunk.take len).length = len := List.length_take_of_le (by omega)
      refine ⟨chunk.drop len :: chunks, ?_, ?_⟩
      · rw [if_neg hle]
        simp only [Option.bind_eq_bind, Option.bind_some, htake, Nat.sub_self, readMore_zero]
        rw [List.take_append_of_le_length (by omega)]
        simp
      · rw [List.flatten_cons, List.drop_append_of_le_length (by omega)]

theorem readMore_of_lt {fuel len : ℕ} {chunks : List (List β)}
    (h : chunks.flatten.length < len) : readMore fuel len chunks = none := by
  induction fuel generalizing len chunks with
  | zero => rfl
  | succ fuel ih =>
    rw [readMore, if_neg (by omega)]
    cases chunks with
    | nil => rfl
    | cons chunk chunks =>
      rw [List.flatten_cons, List.length_append] at h
      rw [readsome, if_pos (by omega)]
      simp only [Option.bind_eq_bind, Option.bind_some]
      rw [ih (by omega)]
      rfl

/-- **Enough bytes**: the first ones are read, however the stream was cut. -/
theorem readExactly_of_le {len : ℕ} {chunks : List (List β)} (h : len ≤ chunks.flatten.length) :
    ∃ rest, readExactly len chunks = some (chunks.flatten.take len, rest) ∧
      rest.flatten = chunks.flatten.drop len :=
  readMore_of_le (Nat.lt_succ_self _) h

/-- **Too few bytes**: the end of the stream is met. -/
theorem readExactly_of_lt {len : ℕ} {chunks : List (List β)} (h : chunks.flatten.length < len) :
    readExactly len chunks = none :=
  readMore_of_lt h

end Graphene
