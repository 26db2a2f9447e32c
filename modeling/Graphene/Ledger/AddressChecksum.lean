import Graphene.Ledger.Migration

/-!
# The addresses that pass the checksum

An Ethereum address is `0x` and forty hexadecimal digits.  Its letters have one case, or each has
the case that the hash of the address in lower case prescribes: upper case where the half byte of
the hash is eight or more.

* `readsAddressChecksum` — the check, with the reads from the string and the hash that it makes.
* `readsAddressChecksum_eq` — none of them is past an end.
* `IsEthereumAddress` — what should pass.
* `addressChecksum_exact_iff` — when it is what passes.
-/

set_option autoImplicit false

namespace Graphene

/-! ## The reads -/

/-- `h256`. -/
abbrev Hash256 := Vector (BitVec 8) 32

/-- The half byte of the hash that goes with the character at `i`. -/
def halfByte (byte : BitVec 8) (i : ℕ) : ℕ := (byte.toNat >>> (4 * (1 - i % 2))) % 16

/-- The same, of the byte that is read, which is zero past the end. -/
def nibbleAt (hash : Hash256) (i : ℕ) : ℕ := halfByte (hash.toList.getD (i / 2) 0) i

/-- The loop of `passesAddressChecksum` over `count` characters from `i` on: nothing, if it reads
past the end of the string or of the hash. -/
def readsCase (hash : Hash256) (s : List Char) : ℕ → ℕ → Option Bool
  | 0, _ => some true
  | count + 1, i => do
    let addressCharacter ← s[i]?
    if isLowerHexLetter addressCharacter || isUpperHexLetter addressCharacter then
      let byte ← hash.toList[i / 2]?
      if decide (halfByte byte i ≥ 8) = isLowerHexLetter addressCharacter then return false
      else readsCase hash s count (i + 1)
    else readsCase hash s count (i + 1)

/-- `passesAddressChecksum`: nothing, if it reads past the end of the string or of the hash. -/
def readsAddressChecksum (keccak256 : List Char → Hash256) (str : List Char) (strict : Bool) :
    Option Bool :=
  if str.take 2 ≠ ['0', 'x'] then some false
  else
    let s := str.drop 2
    if s.length ≠ 40 then some false
    else if !strict && (s.all (fun c ↦ c.isDigit || isUpperHexLetter c) ||
        s.all fun c ↦ c.isDigit || isLowerHexLetter c) then some true
    else readsCase (keccak256 (s.map Char.toLower)) s 40 0

/-- The character at `i` does not have the wrong case. -/
def casedAt (nibble : ℕ → ℕ) (s : List Char) (i : ℕ) : Bool :=
  let c := s.getD i ' '
  if isLowerHexLetter c then decide (nibble i < 8)
  else if isUpperHexLetter c then decide (nibble i ≥ 8)
  else true

theorem case_and (nibble : ℕ) (c : Char) (rest : Bool) :
    (if isLowerHexLetter c || isUpperHexLetter c then
        if decide (nibble ≥ 8) = isLowerHexLetter c then some false else some rest
      else some rest) =
      some ((if isLowerHexLetter c then decide (nibble < 8)
        else if isUpperHexLetter c then decide (nibble ≥ 8) else true) && rest) := by
  cases isLowerHexLetter c with
  | true => by_cases h : nibble < 8 <;> simp [h]
  | false => cases isUpperHexLetter c <;> by_cases h : nibble ≥ 8 <;> simp [h]

/-- Characters that are in the string are read where the hash has bytes for them. -/
theorem readsCase_eq (hash : Hash256) (s : List Char) (count i : ℕ) (hs : i + count ≤ s.length)
    (hhash : i + count ≤ 64) :
    readsCase hash s count i =
      some ((List.range' i count).all fun j ↦ casedAt (nibbleAt hash) s j) := by
  induction count generalizing i with
  | zero => rfl
  | succ count ih =>
    have hread : s[i]? = some (s.getD i ' ') := by
      rw [List.getD_eq_getElem?_getD, List.getElem?_eq_getElem (by omega), Option.getD_some]
    have hbyte : hash.toList[i / 2]? = some (hash.toList.getD (i / 2) 0) := by
      have hlength : hash.toList.length = 32 := Vector.length_toList
      rw [List.getD_eq_getElem?_getD, List.getElem?_eq_getElem (by omega), Option.getD_some]
    have hrest := ih (i + 1) (by omega) (by omega)
    rw [readsCase, hread, List.range'_succ, List.all_cons]
    simp only [Option.bind_eq_bind, Option.bind_some, hbyte, hrest]
    generalize (List.range' (i + 1) count).all _ = rest
    exact case_and (nibbleAt hash i) (s.getD i ' ') rest

/-- **No read is past an end**, and the result is that of the check. -/
theorem readsAddressChecksum_eq (keccak256 : List Char → Hash256) (str : List Char)
    (strict : Bool) :
    readsAddressChecksum keccak256 str strict =
      some (passesAddressChecksum (fun s ↦ nibbleAt (keccak256 s)) str strict) := by
  rw [readsAddressChecksum, passesAddressChecksum]
  by_cases hzerox : str.take 2 = ['0', 'x']
  · by_cases hlength : (str.drop 2).length = 40
    · have hloop := readsCase_eq (keccak256 ((str.drop 2).map Char.toLower)) (str.drop 2) 40 0
        (by omega) (by omega)
      rw [if_neg (not_not.2 hzerox), if_neg (not_not.2 hlength), hloop, ← List.range_eq_range']
      simp only [hzerox, hlength, decide_true, Bool.true_and]
      split_ifs with hcase
      · rw [hcase, Bool.true_or]
      · rw [Bool.eq_false_iff.2 hcase, Bool.false_or]
        rfl
    · rw [if_neg (not_not.2 hzerox), if_pos hlength]
      simp only [hlength, decide_false, Bool.and_false, Bool.false_and]
  · rw [if_pos hzerox]
    simp only [hzerox, decide_false, Bool.false_and]

/-! ## What passes -/

/-- A hexadecimal digit. -/
def isHexDigit (c : Char) : Bool := c.isDigit || isUpperHexLetter c || isLowerHexLetter c

/-- Every letter among the characters has the case that is prescribed. -/
def Eip55 (nibble : ℕ → ℕ) (s : List Char) : Prop :=
  ∀ i (h : i < s.length), (isLowerHexLetter s[i] = true → nibble i < 8) ∧
    (isUpperHexLetter s[i] = true → 8 ≤ nibble i)

/-- The letters among the characters have one case. -/
def OneCase (s : List Char) : Prop :=
  (∀ c ∈ s, isLowerHexLetter c = false) ∨ ∀ c ∈ s, isUpperHexLetter c = false

/-- What is an address: `0x` and forty hexadecimal digits, whose letters have one case, unless that
is not enough, or the case that is prescribed. -/
def IsEthereumAddress (keccak256 : List Char → ℕ → ℕ) (str : List Char) (strict : Bool) : Prop :=
  ∃ s, str = '0' :: 'x' :: s ∧ s.length = 40 ∧ (∀ c ∈ s, isHexDigit c = true) ∧
    ((strict = false ∧ OneCase s) ∨ Eip55 (keccak256 (s.map Char.toLower)) s)

/-- Some of forty characters after `0x` is no hexadecimal digit, and every letter among them has the
case that is prescribed. -/
def OddlyCased (keccak256 : List Char → ℕ → ℕ) (str : List Char) : Prop :=
  ∃ s, str = '0' :: 'x' :: s ∧ s.length = 40 ∧ (∃ c ∈ s, isHexDigit c = false) ∧
    Eip55 (keccak256 (s.map Char.toLower)) s

variable {keccak256 : List Char → ℕ → ℕ} {str : List Char} {strict : Bool}

theorem upper_of_lower {c : Char} (h : isLowerHexLetter c = true) : isUpperHexLetter c = false := by
  refine decide_eq_false fun hupper ↦ ?_
  exact absurd (Char.le_trans (of_decide_eq_true h).1 hupper.2) (by decide)

theorem letters_of_digit {c : Char} (h : c.isDigit = true) :
    isLowerHexLetter c = false ∧ isUpperHexLetter c = false := by
  have hle : c ≤ '9' := (Bool.and_eq_true_iff.1 h).2 |> of_decide_eq_true
  refine ⟨decide_eq_false fun hlower ↦ ?_, decide_eq_false fun hupper ↦ ?_⟩
  · exact absurd (Char.le_trans hlower.1 hle) (by decide)
  · exact absurd (Char.le_trans hupper.1 hle) (by decide)

/-- The loop looks at the letters only. -/
theorem casedAt_all_iff {nibble : ℕ → ℕ} {s : List Char} :
    ((List.range s.length).all fun i ↦ casedAt nibble s i) = true ↔ Eip55 nibble s := by
  rw [List.all_eq_true]
  constructor
  · intro h i hi
    have hcased := h i (List.mem_range.2 hi)
    rw [casedAt, List.getD_eq_getElem?_getD, List.getElem?_eq_getElem hi,
      Option.getD_some] at hcased
    constructor
    · intro hlower
      rw [if_pos hlower] at hcased
      exact of_decide_eq_true hcased
    · intro hupper
      rw [if_neg (fun hlower ↦ by cases hupper.symm.trans (upper_of_lower hlower)),
        if_pos hupper] at hcased
      exact of_decide_eq_true hcased
  · intro h i hi
    have hi := List.mem_range.1 hi
    rw [casedAt, List.getD_eq_getElem?_getD, List.getElem?_eq_getElem hi,
      Option.getD_some]
    split_ifs with hlower hupper
    · exact decide_eq_true ((h i hi).1 hlower)
    · exact decide_eq_true ((h i hi).2 hupper)
    · rfl

/-- Hexadecimal digits of one case, as the check has it: no letter of the other case, and nothing
else. -/
theorem all_oneCase_iff {s : List Char} :
    (s.all (fun c ↦ c.isDigit || isUpperHexLetter c) ||
        s.all fun c ↦ c.isDigit || isLowerHexLetter c) = true ↔
      (∀ c ∈ s, isHexDigit c = true) ∧ OneCase s := by
  rw [Bool.or_eq_true, List.all_eq_true, List.all_eq_true]
  constructor
  · rintro (h | h)
    · refine ⟨fun c hc ↦ ?_, .inl fun c hc ↦ ?_⟩
      · rw [isHexDigit, h c hc, Bool.true_or]
      · rcases Bool.or_eq_true_iff.1 (h c hc) with hdigit | hupper
        · exact (letters_of_digit hdigit).1
        · refine Bool.eq_false_iff.2 fun hlower ↦ ?_
          cases hupper.symm.trans (upper_of_lower hlower)
    · refine ⟨fun c hc ↦ ?_, .inr fun c hc ↦ ?_⟩
      · rw [isHexDigit, Bool.or_assoc, Bool.or_left_comm, h c hc, Bool.or_true]
      · rcases Bool.or_eq_true_iff.1 (h c hc) with hdigit | hlower
        · exact (letters_of_digit hdigit).2
        · exact upper_of_lower hlower
  · rintro ⟨hhex, hnone | hnone⟩
    · refine .inl fun c hc ↦ ?_
      have h := hhex c hc
      rwa [isHexDigit, hnone c hc, Bool.or_false] at h
    · refine .inr fun c hc ↦ ?_
      have h := hhex c hc
      rwa [isHexDigit, hnone c hc, Bool.or_false] at h

/-- **What passes**: hexadecimal digits of one case, and whatever has letters of the right case. -/
theorem passesAddressChecksum_iff :
    passesAddressChecksum keccak256 str strict = true ↔
      ∃ s, str = '0' :: 'x' :: s ∧ s.length = 40 ∧
        ((strict = false ∧ (∀ c ∈ s, isHexDigit c = true) ∧ OneCase s) ∨
          Eip55 (keccak256 (s.map Char.toLower)) s) := by
  have hloop : ∀ s : List Char, s.length = 40 →
      (((List.range 40).all fun i ↦
          let c := s.getD i ' '
          let nibble := keccak256 (s.map Char.toLower) i
          if isLowerHexLetter c then decide (nibble < 8)
          else if isUpperHexLetter c then decide (nibble ≥ 8)
          else true) = true ↔ Eip55 (keccak256 (s.map Char.toLower)) s) := by
    intro s hs
    rw [← casedAt_all_iff, hs]
    rfl
  rw [passesAddressChecksum]
  simp only [Bool.and_eq_true, Bool.or_eq_true_iff (x := _ && _), decide_eq_true_eq,
    Bool.not_eq_true']
  rw [all_oneCase_iff]
  constructor
  · rintro ⟨⟨hzerox, hlength⟩, hcase⟩
    rw [hloop _ hlength] at hcase
    refine ⟨str.drop 2, ?_, hlength, hcase⟩
    rw [← List.take_append_drop 2 str, hzerox]
    simp
  · rintro ⟨s, rfl, hlength, hcase⟩
    rw [hloop (List.drop 2 ('0' :: 'x' :: s)) hlength]
    exact ⟨⟨rfl, hlength⟩, hcase⟩

/-- Forty hexadecimal digits pass exactly if they are an address; what else passes has letters of
the right case. -/
theorem passes_iff_of_not_odd (h : ¬ OddlyCased keccak256 str) :
    passesAddressChecksum keccak256 str strict = true ↔
      IsEthereumAddress keccak256 str strict := by
  rw [passesAddressChecksum_iff]
  constructor
  · rintro ⟨s, hs, hlength, ⟨hstrict, hhex, hone⟩ | hcase⟩
    · exact ⟨s, hs, hlength, hhex, .inl ⟨hstrict, hone⟩⟩
    · refine ⟨s, hs, hlength, fun c hc ↦ ?_, .inr hcase⟩
      refine Bool.of_not_eq_false fun hnot ↦ h ⟨s, hs, hlength, ⟨c, hc, hnot⟩, hcase⟩
  · rintro ⟨s, hs, hlength, hhex, ⟨hstrict, hone⟩ | hcase⟩
    · exact ⟨s, hs, hlength, .inl ⟨hstrict, hhex, hone⟩⟩
    · exact ⟨s, hs, hlength, .inr hcase⟩

/-- **The check is exact** but for strings with something else than hexadecimal digits whose letters
have the right case: those pass, and are no addresses.  It never reads past an end. -/
theorem addressChecksum_exact_iff {keccak256 : List Char → Hash256} {str : List Char}
    {strict : Bool} :
    ((∃ passes, readsAddressChecksum keccak256 str strict = some passes ∧
        (passes = true ↔ IsEthereumAddress (fun s ↦ nibbleAt (keccak256 s)) str strict)) ↔
      ¬ OddlyCased (fun s ↦ nibbleAt (keccak256 s)) str) ∧
      ∃ passes, readsAddressChecksum keccak256 str strict = some passes := by
  rw [readsAddressChecksum_eq]
  refine ⟨⟨?_, fun h ↦ ⟨_, rfl, passes_iff_of_not_odd h⟩⟩, _, rfl⟩
  rintro ⟨_, hpasses, hiff⟩ ⟨s, hs, hlength, ⟨c, hc, hnot⟩, hcase⟩
  obtain rfl := Option.some.inj hpasses
  obtain ⟨s', hs', -, hhex, -⟩ :=
    hiff.1 (passesAddressChecksum_iff.2 ⟨s, hs, hlength, .inr hcase⟩)
  obtain rfl : s = s' := by
    rw [hs] at hs'
    exact (List.cons.inj (List.cons.inj hs').2).2
  cases hnot.symm.trans (hhex c hc)

/-- Forty letters `z` pass, whatever the hash. -/
theorem addressChecksum_accepts_z :
    readsAddressChecksum (fun _ ↦ Vector.replicate 32 0) ('0' :: 'x' :: List.replicate 40 'z')
        false = some true ∧
      ¬ IsEthereumAddress (fun _ ↦ nibbleAt (Vector.replicate 32 0))
        ('0' :: 'x' :: List.replicate 40 'z') false := by
  refine ⟨by decide +kernel, ?_⟩
  rintro ⟨s, hs, -, hhex, -⟩
  obtain rfl : List.replicate 40 'z' = s := (List.cons.inj (List.cons.inj hs).2).2
  exact absurd (hhex 'z' (List.mem_replicate.2 ⟨by decide, rfl⟩)) (by decide)

end Graphene
