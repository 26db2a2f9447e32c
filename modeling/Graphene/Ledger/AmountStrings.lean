import Graphene.Ledger.Fees
import Graphene.Lib.DecimalString
import Mathlib.Data.Nat.GCD.Basic
import Mathlib.Tactic.NormNum
import Mathlib.Tactic.Positivity
import Mathlib.Tactic.SplitIfs

/-!
# Amounts as strings

An amount of an asset is written with as many digits behind the point as the asset has, and read
back.  What is read may have a `-` anywhere, and is cut at the point as if a `-` came first; what is
written is cut as if no amount were negative.

* `amountFromString`, `amountToString` — reading and writing.
* `Reads` — the decimal numbers that are amounts, and what they are worth.
* `Misread` — the strings that are not read as what they are.
* `amountFromString_eq` — a string is read part by part; then one lemma for each kind of string.
* `read_natCast`, `read_neg` — what is read of what was written.
* `amount_strings` — what is read is what was written, and is exactly an amount, but for these.
* `amount_strings_fail` — three strings that are not.
-/

set_option autoImplicit false

namespace Graphene

open DecimalString

/-! ## Strings -/

/-- `std::string::find`; none is `npos`. -/
def find (s : List Char) (c : Char) : Option ℕ := if c ∈ s then some (s.idxOf c) else none

/-- `std::string::substr`. -/
def substr (s : List Char) (pos : ℕ) (count : Option ℕ) : Option (List Char) :=
  if pos ≤ s.length then some (count.elim (s.drop pos) (s.drop pos).take) else none

/-- `std::stoll`: what comes after the digits is not read. -/
def stoll (s : List Char) : Option ℤ :=
  let s := s.dropWhile Char.isWhitespace
  let negative := s.head? = some '-'
  let digits := (if negative ∨ s.head? = some '+' then s.tail else s).takeWhile Char.isDigit
  if digits = [] then none else shareType (if negative then -(value digits : ℤ) else value digits)

/-- `std::to_string` of an `int64_t`. -/
def intToString (x : ℤ) : List Char :=
  if x < 0 then '-' :: Nat.toDigits 10 x.natAbs else Nat.toDigits 10 x.natAbs

/-! ## Reading -/

/-- The loop over the characters: whether a `-` and a point are found. -/
def scanAmount : List Char → Bool → Bool → Option (Bool × Bool)
  | [], negativeFound, decimalFound => some (negativeFound, decimalFound)
  | c :: s, negativeFound, decimalFound =>
    if c.isDigit then scanAmount s negativeFound decimalFound
    else if c = '-' ∧ !negativeFound then scanAmount s true decimalFound
    else if c = '.' ∧ !decimalFound then scanAmount s negativeFound true
    else none

/-- What `lhs` adds to `satoshis`. -/
def readWhole (precision : ℕ) (lhs : List Char) : Option ℤ :=
  if lhs = [] then some 0 else (stoll lhs).bind fun x ↦ shareType (x * 10 ^ precision)

/-- `satoshis` after `rhs`. -/
def readFraction (precision : ℕ) (satoshis : ℤ) (rhs : List Char) : Option ℤ :=
  let maxRhsSize := ((intToString (10 ^ precision)).drop 1).length
  if rhs.length ≤ maxRhsSize then
    let rhs := rhs ++ List.replicate (maxRhsSize - rhs.length) '0'
    if rhs = [] then some satoshis else (stoll rhs).bind fun x ↦ shareType (satoshis + x)
  else none

/-- What is left to be done with `satoshis`. -/
def toAsset (id : AssetId) (negativeFound : Bool) (satoshis : ℤ) : Option Asset :=
  if satoshis ≤ maxShareSupply then
    (if negativeFound then shareType (satoshis * -1) else some satoshis).map fun x ↦ ⟨x, id⟩
  else none

/-- `amount_from_string`. -/
def amountFromString (id : AssetId) (precision : ℕ) (amountString : List Char) :
    Option Asset := do
  let (negativeFound, decimalFound) ← scanAmount amountString false false
  guard (precision < 19)
  let decimalPos := find amountString '.'
  let lhs ← substr amountString negativeFound.toNat decimalPos
  let satoshis ← readWhole precision lhs
  let satoshis ←
    if decimalFound then do
      let rhs ← substr amountString ((← decimalPos) + 1) none
      readFraction precision satoshis rhs
    else some satoshis
  toAsset id negativeFound satoshis

/-! ## Writing -/

/-- The loop that works out `scaled_precision`. -/
def scaledPrecision : ℕ → Option ℤ
  | 0 => some 1
  | precision + 1 => (scaledPrecision precision).bind fun x ↦ shareType (x * 10)

/-- `amount_to_string`. -/
def amountToString (precision : ℕ) (amount : ℤ) : Option (List Char) := do
  let scaled ← scaledPrecision precision
  let result := intToString (amount.tdiv scaled)
  let decimals := amount.tmod scaled
  return if decimals ≠ 0 then result ++ '.' :: (intToString (scaled + decimals)).drop 1 else result

/-! ## Decimal numbers -/

/-- A sign, or none. -/
def sign (negative : Bool) : List Char := if negative then ['-'] else []

/-- A point and what is behind it, or neither. -/
def point (fraction : Option (List Char)) : List Char := fraction.elim [] ('.' :: ·)

/-- What digits before the point and behind it are worth. -/
def amountOf (precision : ℕ) (whole : List Char) (fraction : Option (List Char)) : ℕ :=
  value whole * 10 ^ precision +
    fraction.elim 0 fun f ↦ value f * 10 ^ (precision - f.length)

/-- **A decimal number that is an amount**, and what it is worth. -/
inductive Reads (precision : ℕ) : List Char → ℤ → Prop where
  /-- An optional sign, digits, and a point with no more digits behind it than there may be, or
  none. -/
  | intro {negative : Bool} {whole : List Char} {fraction : Option (List Char)}
      (digits : Digits whole) (digits' : ∀ f ∈ fraction, Digits f ∧ f.length ≤ precision)
      (fits : (amountOf precision whole fraction : ℤ) ≤ maxShareSupply) :
      Reads precision (sign negative ++ whole ++ point fraction)
        (if negative then -(amountOf precision whole fraction : ℤ)
        else amountOf precision whole fraction)

/-- **The strings that are not read as what they are.** -/
inductive Misread (precision : ℕ) : List Char → Prop where
  /-- A point right behind the sign: rejected. -/
  | point {f : List Char} (digits : Digits f) (fits : f.length ≤ precision) :
      Misread precision ('-' :: '.' :: f)
  /-- A `-` behind two digits or more: read without the first digit, up to the `-`. -/
  | behindDigits {c : Char} {whole after : List Char} {fraction : Option (List Char)}
      (digit : c.isDigit = true) (digits : Digits whole) (ne_nil : whole ≠ []) (rest : Digits after)
      (digits' : ∀ f ∈ fraction, Digits f ∧ f.length ≤ precision)
      (fits : (amountOf precision whole fraction : ℤ) ≤ maxShareSupply) :
      Misread precision (c :: whole ++ '-' :: after ++ Graphene.point fraction)
  /-- A `-` behind one digit: read from the `-` on. -/
  | behindDigit {c : Char} {whole : List Char} {fraction : Option (List Char)}
      (digit : c.isDigit = true) (digits : Digits whole) (ne_nil : whole ≠ [])
      (digits' : ∀ f ∈ fraction, Digits f ∧ f.length ≤ precision)
      (fits : value whole * 10 ^ precision < 2 ^ 63) :
      Misread precision (c :: '-' :: whole ++ Graphene.point fraction)
  /-- A `-` between the digits behind the point: read up to the `-`, and without the first digit
  before the point. -/
  | inFraction {whole fraction after : List Char} (digits : Digits whole)
      (ne_one : whole.length ≠ 1) (digits' : Digits fraction) (ne_nil : fraction ≠ [])
      (rest : Digits after) (length : fraction.length + 1 + after.length ≤ precision)
      (fits : (value whole.tail * 10 ^ precision + value fraction : ℕ) ≤ maxShareSupply) :
      Misread precision (whole ++ '.' :: fraction ++ '-' :: after)
  /-- A `-` right behind the point. -/
  | atFraction {whole fraction : List Char} (digits : Digits whole) (ne_one : whole.length ≠ 1)
      (digits' : Digits fraction) (length : 1 + fraction.length ≤ precision)
      (read : fraction ≠ [] ∨ precision ≠ 1)
      (fits : (value whole.tail * 10 ^ precision : ℕ) -
        (value fraction * 10 ^ (precision - 1 - fraction.length) : ℕ) ≤ maxShareSupply) :
      Misread precision (whole ++ '.' :: '-' :: fraction)

/-! ## Numbers that are read -/

section Numbers

variable {d t : List Char}

theorem isWhitespace_of_isDigit {c : Char} (h : c.isDigit = true) : c.isWhitespace = false := by
  by_contra hspace
  simp only [Char.isWhitespace, Bool.not_eq_false, Bool.or_eq_true, decide_eq_true_iff] at hspace
  rcases hspace with ((rfl | rfl) | rfl) | rfl
  all_goals cases h

theorem stoll_digits (hd : Digits d) (hne : d ≠ []) (ht : ∀ c ∈ t.head?, c.isDigit = false) :
    stoll (d ++ t) = shareType (value d) := by
  obtain ⟨c, d', rfl⟩ := List.exists_cons_of_ne_nil hne
  obtain ⟨hc, -⟩ := digits_cons.1 hd
  have hdrop : (c :: d' ++ t).dropWhile Char.isWhitespace = c :: d' ++ t :=
    List.dropWhile_cons_of_neg (by rw [isWhitespace_of_isDigit hc]; exact Bool.false_ne_true)
  have hminus : ¬((c :: d' ++ t).head? = some '-') := by
    rintro ⟨⟩
    cases hc
  have hplus : ¬((c :: d' ++ t).head? = some '+') := by
    rintro ⟨⟩
    cases hc
  rw [stoll, hdrop, if_neg (not_or.2 ⟨hminus, hplus⟩), takeWhile_append hd ht, if_neg hne,
    if_neg hminus]

theorem stoll_minus (hd : Digits d) (ht : ∀ c ∈ t.head?, c.isDigit = false) :
    stoll ('-' :: d ++ t) = if d = [] then none else shareType (-value d) := by
  have hdrop : ('-' :: d ++ t).dropWhile Char.isWhitespace = '-' :: d ++ t :=
    List.dropWhile_cons_of_neg (by decide)
  rw [stoll, hdrop]
  show (if (d ++ t).takeWhile Char.isDigit = [] then none else
    shareType (-value ((d ++ t).takeWhile Char.isDigit))) = _
  rw [takeWhile_append hd ht]

theorem stoll_point (t : List Char) : stoll ('.' :: t) = none := by
  have hdrop : ('.' :: t).dropWhile Char.isWhitespace = '.' :: t :=
    List.dropWhile_cons_of_neg (by decide)
  rw [stoll, hdrop]
  rfl

end Numbers

/-! ## Parts that are read -/

section Parts

variable {precision : ℕ} {d t : List Char} {x : ℤ}

theorem value_le_mul (d : List Char) (precision : ℕ) : value d ≤ value d * 10 ^ precision :=
  Nat.le_mul_of_pos_right _ (Nat.pow_pos (by decide))

/-- What is before the point, if it starts with digits. -/
theorem readWhole_digits (hd : Digits d) (hne : d ≠ [] ∨ t = [])
    (ht : ∀ c ∈ t.head?, c.isDigit = false) :
    readWhole precision (d ++ t) = shareType (value d * 10 ^ precision : ℕ) := by
  rcases eq_or_ne d [] with rfl | hd'
  · obtain rfl := hne.resolve_left fun h ↦ h rfl
    rw [value_nil, zero_mul]
    rfl
  have hone := value_le_mul d precision
  rw [readWhole, if_neg (by simp [hd']), stoll_digits hd hd' ht]
  by_cases hfits : FitsInt64 (value d)
  · rw [shareType_of_fits hfits, Option.bind_some]
    push_cast
    rfl
  · have hlarge : ¬FitsInt64 (value d * 10 ^ precision : ℕ) := fun h ↦
      hfits ⟨by omega, lt_of_le_of_lt (Int.ofNat_le.2 hone) h.2⟩
    rw [shareType, if_neg hfits, shareType, if_neg hlarge]
    rfl

/-- What is before the point, if it starts with a `-`. -/
theorem readWhole_minus (hd : Digits d) (ht : ∀ c ∈ t.head?, c.isDigit = false) :
    readWhole precision ('-' :: d ++ t) =
      if d = [] then none else shareType (-(value d * 10 ^ precision : ℕ)) := by
  have hone := value_le_mul d precision
  rw [readWhole, if_neg (by simp), stoll_minus hd ht]
  split_ifs
  · rfl
  by_cases hfits : FitsInt64 (-value d)
  · rw [shareType_of_fits hfits, Option.bind_some, neg_mul]
    push_cast
    rfl
  · have hlarge : ¬FitsInt64 (-(value d * 10 ^ precision : ℕ)) := fun h ↦
      hfits ⟨h.1.trans (neg_le_neg (Int.ofNat_le.2 hone)), by omega⟩
    rw [shareType, if_neg hfits, shareType, if_neg hlarge]
    rfl

theorem readWhole_point (t : List Char) : readWhole precision ('.' :: t) = none := by
  rw [readWhole, if_neg (List.cons_ne_nil _ _), stoll_point]
  rfl

/-- The digits that there may be behind the point. -/
theorem maxRhsSize_eq (precision : ℕ) :
    ((intToString (10 ^ precision)).drop 1).length = precision := by
  have hpow : (0 : ℤ) ≤ 10 ^ precision := by positivity
  have habs : ((10 : ℤ) ^ precision).natAbs = 10 ^ precision := by
    rw [Int.natAbs_pow]
    rfl
  rw [intToString, if_neg hpow.not_gt, habs, List.length_drop,
    length_toDigits le_rfl (Nat.pow_lt_pow_succ (by decide)), Nat.add_sub_cancel]

/-- Digits that are filled up with zeros. -/
theorem value_filled (d : List Char) (n : ℕ) :
    value (d ++ List.replicate n '0') = value d * 10 ^ n := by
  rw [value_append, value_replicate_zero, add_zero, List.length_replicate]

/-- What is behind the point is worth less than one. -/
theorem value_mul_lt (hd : Digits d) (hle : d.length ≤ precision) :
    value d * 10 ^ (precision - d.length) < 10 ^ precision := by
  have hlt := Nat.mul_lt_mul_of_pos_right (value_lt hd)
    (Nat.pow_pos (n := precision - d.length) (by decide : 0 < 10))
  rwa [← Nat.pow_add, Nat.add_sub_cancel' hle] at hlt

/-- As many digits as a precision has are worth less than an amount may be. -/
theorem fits_value (hd : Digits d) (hlength : d.length < 19) :
    FitsInt64 (value d) ∧ FitsInt64 (-value d) := by
  have hlt : value d < 10 ^ 18 :=
    (value_lt hd).trans_le (Nat.pow_le_pow_right (by decide) (by omega))
  norm_num at hlt
  constructor
  · constructor <;> omega
  · constructor <;> omega

/-- What is behind the point, if it is digits. -/
theorem readFraction_digits (hd : Digits d) (hx : FitsInt64 x) (hp : precision < 19) :
    readFraction precision x d =
      if d.length ≤ precision then shareType (x + (value d * 10 ^ (precision - d.length) : ℕ))
      else none := by
  rw [readFraction, maxRhsSize_eq]
  by_cases hle : d.length ≤ precision
  · rw [if_pos hle, if_pos hle, ← value_filled]
    dsimp only
    have hdigits : Digits (d ++ List.replicate (precision - d.length) '0') :=
      digits_append.2 ⟨hd, .replicate_zero _⟩
    have hlength : (d ++ List.replicate (precision - d.length) '0').length = precision := by
      rw [List.length_append, List.length_replicate]
      omega
    generalize d ++ List.replicate (precision - d.length) '0' = rhs at hdigits hlength
    split_ifs with hnil
    · rw [hnil, value_nil, Nat.cast_zero, add_zero, shareType_of_fits hx]
    · have hread := stoll_digits (t := []) hdigits hnil fun c hc ↦ by cases hc
      rw [List.append_nil] at hread
      rw [hread, shareType_of_fits (fits_value hdigits (by omega)).1, Option.bind_some]
  · rw [if_neg hle, if_neg hle]

/-- What is behind the point, if there is a `-` in it. -/
theorem readFraction_minus {g y : List Char} (hg : Digits g) (hy : Digits y) (hp : precision < 19) :
    readFraction precision x (g ++ '-' :: y) =
      if g.length + 1 + y.length ≤ precision then
        if g ≠ [] then shareType (x + value g)
        else if y ≠ [] ∨ precision ≠ 1 then
          shareType (x - (value y * 10 ^ (precision - 1 - y.length) : ℕ))
        else none
      else none := by
  have hlength : (g ++ '-' :: y).length = g.length + 1 + y.length := by
    rw [List.length_append, List.length_cons]
    omega
  rw [readFraction, maxRhsSize_eq, hlength]
  by_cases hle : g.length + 1 + y.length ≤ precision
  swap
  · rw [if_neg hle, if_neg hle]
  rw [if_pos hle, if_pos hle]
  dsimp only
  rw [List.append_assoc, List.cons_append, if_neg (by simp)]
  by_cases hne : g = []
  · subst hne
    rw [List.length_nil, zero_add] at hle
    have hrest : Digits (y ++ List.replicate (precision - (0 + 1 + y.length)) '0') :=
      digits_append.2 ⟨hy, .replicate_zero _⟩
    have hread := stoll_minus (t := []) hrest fun c hc ↦ by cases hc
    rw [List.append_nil, value_filled] at hread
    have hnil : y ++ List.replicate (precision - (0 + 1 + y.length)) '0' = [] ↔
        ¬(y ≠ [] ∨ precision ≠ 1) := by
      rw [List.append_eq_nil_iff, List.replicate_eq_nil_iff, not_or, not_not, not_not]
      refine and_congr_right ?_
      rintro rfl
      rw [List.length_nil] at hle ⊢
      omega
    rw [List.nil_append, if_neg (not_not.2 rfl), List.length_nil, hread]
    by_cases hread' : y ≠ [] ∨ precision ≠ 1
    · have hfits : FitsInt64 (-(value y * 10 ^ (precision - (0 + 1 + y.length)) : ℕ)) := by
        rw [← value_filled]
        refine (fits_value hrest ?_).2
        rw [List.length_append, List.length_replicate]
        omega
      rw [if_neg fun h ↦ hnil.1 h hread', if_pos hread', shareType_of_fits hfits, Option.bind_some,
        zero_add, ← Nat.sub_sub, ← sub_eq_add_neg]
    · rw [if_pos (hnil.2 hread'), if_neg hread']
      rfl
  · rw [if_pos hne, stoll_digits hg hne (by rintro c ⟨⟩; rfl),
      shareType_of_fits (fits_value hg (by omega)).1, Option.bind_some]

end Parts

/-! ## What is scanned -/

section Scan

variable {s d : List Char} {n m : Bool} {r : Bool × Bool}

theorem scanAmount_digits (hd : Digits d) (s : List Char) :
    scanAmount (d ++ s) n m = scanAmount s n m := by
  induction d with
  | nil => rfl
  | cons c d ih =>
    obtain ⟨hc, hd'⟩ := digits_cons.1 hd
    rw [List.cons_append, scanAmount, if_pos hc, ih hd']

theorem scanAmount_minus (s : List Char) (m : Bool) :
    scanAmount ('-' :: s) false m = scanAmount s true m := rfl

theorem scanAmount_point (s : List Char) (n : Bool) :
    scanAmount ('.' :: s) n false = scanAmount s n true := by
  cases n <;> rfl

/-- What is scanned is digits, and then nothing, the first `-` or the first point. -/
theorem scanAmount_split (h : scanAmount s n m = some r) :
    ∃ d t, Digits d ∧ s = d ++ t ∧ (t = [] ∨
      (∃ t', t = '-' :: t' ∧ n = false ∧ scanAmount t' true m = some r) ∨
      ∃ t', t = '.' :: t' ∧ m = false ∧ scanAmount t' n true = some r) := by
  induction s with
  | nil => exact ⟨[], [], .nil, rfl, .inl rfl⟩
  | cons c s ih =>
    rw [scanAmount] at h
    split_ifs at h with hdigit hminus hpoint
    · obtain ⟨d, t, hd, rfl, ht⟩ := ih h
      exact ⟨c :: d, t, digits_cons.2 ⟨hdigit, hd⟩, rfl, ht⟩
    · obtain ⟨rfl, hn⟩ := hminus
      exact ⟨[], _, .nil, rfl, .inr (.inl ⟨s, rfl, by simpa using hn, h⟩)⟩
    · obtain ⟨rfl, hm⟩ := hpoint
      exact ⟨[], _, .nil, rfl, .inr (.inr ⟨s, rfl, by simpa using hm, h⟩)⟩

theorem digits_of_scanAmount (h : scanAmount s true true = some r) : Digits s := by
  obtain ⟨d, t, hd, rfl, rfl | ⟨-, -, hn, -⟩ | ⟨-, -, hm, -⟩⟩ := scanAmount_split h
  · rwa [List.append_nil]
  · cases hn
  · cases hm

/-- The three kinds of strings that are scanned. -/
inductive ScannedAmount : List Char → Prop where
  /-- No `-`, or one at the front. -/
  | plain (negative : Bool) {whole : List Char} {fraction : Option (List Char)}
      (digits : Digits whole) (digits' : ∀ f ∈ fraction, Digits f) :
      ScannedAmount (sign negative ++ whole ++ point fraction)
  /-- A `-` behind digits. -/
  | behind {c : Char} {whole after : List Char} {fraction : Option (List Char)}
      (digit : c.isDigit = true) (digits : Digits whole) (rest : Digits after)
      (digits' : ∀ f ∈ fraction, Digits f) :
      ScannedAmount (c :: whole ++ '-' :: after ++ point fraction)
  /-- A `-` behind the point. -/
  | behindPoint {whole fraction after : List Char} (digits : Digits whole)
      (digits' : Digits fraction) (rest : Digits after) :
      ScannedAmount (whole ++ '.' :: fraction ++ '-' :: after)

/-- What is scanned behind a `-`. -/
theorem point_of_scanAmount (h : scanAmount s true false = some r) :
    ∃ w fraction, Digits w ∧ (∀ f ∈ fraction, Digits f) ∧ s = w ++ point fraction := by
  obtain ⟨w, t, hw, rfl, rfl | ⟨-, -, hn, -⟩ | ⟨f, rfl, -, hf⟩⟩ := scanAmount_split h
  · refine ⟨w, none, hw, ?_, rfl⟩
    rintro f ⟨⟩
  · cases hn
  · refine ⟨w, some f, hw, ?_, rfl⟩
    rintro f ⟨⟩
    exact digits_of_scanAmount hf

theorem scannedAmount_of_scanAmount (h : scanAmount s false false = some r) : ScannedAmount s := by
  obtain ⟨d, t, hd, rfl, rfl | ⟨t', rfl, -, h'⟩ | ⟨t', rfl, -, h'⟩⟩ := scanAmount_split h
  · have hscanned : ScannedAmount (sign false ++ d ++ point none) := .plain false hd (by simp)
    exact hscanned
  · obtain ⟨w, fraction, hw, hfraction, rfl⟩ := point_of_scanAmount h'
    cases d with
    | nil => exact .plain true hw hfraction
    | cons c d =>
      obtain ⟨hc, hd'⟩ := digits_cons.1 hd
      have hscanned := ScannedAmount.behind hc hd' hw hfraction
      rwa [List.append_assoc] at hscanned
  · obtain ⟨f, t, hf, rfl, rfl | ⟨y, rfl, -, hy⟩ | ⟨-, -, hm, -⟩⟩ := scanAmount_split h'
    · rw [List.append_nil]
      have hscanned : ScannedAmount (sign false ++ d ++ point (some f)) :=
        .plain false hd (by rintro _ ⟨⟩; exact hf)
      exact hscanned
    · have hscanned := ScannedAmount.behindPoint hd hf (digits_of_scanAmount hy)
      rwa [List.append_assoc] at hscanned
    · cases hm

end Scan

/-! ## Reading a string -/

section Reading

variable {id : AssetId} {precision : ℕ} {negative : Bool} {u : List Char}
  {fraction : Option (List Char)}

/-- What is read before the point: with a `-` anywhere, not the first character but the point. -/
def cut (negative : Bool) (u : List Char) (fraction : Option (List Char)) : List Char :=
  if negative = true ∧ u ≠ [] then u.tail ++ (point fraction).take 1 else u

theorem find_point (hu : '.' ∉ u) (fraction : Option (List Char)) :
    find (u ++ point fraction) '.' = fraction.map fun _ ↦ u.length := by
  cases fraction with
  | none =>
    rw [find, if_neg (by simpa [point] using hu)]
    rfl
  | some f =>
    rw [find, if_pos (by simp [point]), List.idxOf_append_of_notMem hu]
    simp [point]

theorem substr_cut (hne : negative = true → u ++ point fraction ≠ []) :
    substr (u ++ point fraction) negative.toNat (fraction.map fun _ ↦ u.length) =
      some (cut negative u fraction) := by
  cases negative with
  | false =>
    rw [substr, Bool.toNat_false, if_pos (Nat.zero_le _), cut,
      if_neg fun h ↦ Bool.false_ne_true h.1]
    cases fraction with
    | none => simp [point]
    | some f => simp
  | true =>
    have hle : 1 ≤ (u ++ point fraction).length := List.length_pos_iff.2 (hne rfl)
    rw [substr, Bool.toNat_true, if_pos hle, cut]
    cases u with
    | nil =>
      rw [if_neg fun h ↦ h.2 rfl]
      cases fraction with
      | none => exact absurd rfl (hne rfl)
      | some f => rfl
    | cons c u =>
      rw [if_pos ⟨rfl, List.cons_ne_nil c u⟩]
      cases fraction with
      | none => simp [point]
      | some f => simp [point, List.take_append]

/-- **How a string is read**, from its parts before and behind the point. -/
theorem amountFromString_eq
    (hscan : scanAmount (u ++ point fraction) false false = some (negative, fraction.isSome))
    (hu : '.' ∉ u) (hp : precision < 19) :
    amountFromString id precision (u ++ point fraction) =
      (readWhole precision (cut negative u fraction)).bind fun x ↦
        (fraction.elim (some x) (readFraction precision x)).bind (toAsset id negative) := by
  have hne : negative = true → u ++ point fraction ≠ [] := by
    rintro rfl hnil
    rw [hnil] at hscan
    cases hscan
  have hrest : ∀ f ∈ fraction,
      substr (u ++ point fraction) (u.length + 1) none = some f := by
    rintro f ⟨⟩
    rw [substr, if_pos (by simp [point])]
    simp [point]
  rw [amountFromString, hscan]
  simp only [Option.bind_eq_bind, Option.bind_some, find_point hu, substr_cut hne, guard, hp,
    if_true, Option.pure_def]
  refine congrArg _ (funext fun x ↦ ?_)
  cases fraction with
  | none => rfl
  | some f => simp [hrest f rfl]

/-- What is done with `satoshis` that is not negative. -/
theorem bind_toAsset (n : ℕ) :
    (shareType n).bind (toAsset id negative) =
      if (n : ℤ) ≤ maxShareSupply then some ⟨if negative then -(n : ℤ) else n, id⟩ else none := by
  by_cases hle : (n : ℤ) ≤ maxShareSupply
  · have hfits : FitsInt64 n ∧ FitsInt64 (n * -1) := by
      simp only [FitsInt64, maxShareSupply] at hle ⊢
      omega
    rw [shareType_of_fits hfits.1, Option.bind_some, toAsset, if_pos hle, if_pos hle,
      shareType_of_fits hfits.2, mul_neg_one]
    cases negative <;> rfl
  · rw [if_neg hle, shareType]
    split_ifs
    · rw [Option.bind_some, toAsset, if_neg hle]
    · rfl

/-- **What is read if both parts are digits.** -/
theorem read_digits {whole : List Char} (hf : ∀ f ∈ fraction, Digits f) (hp : precision < 19) :
    ((shareType (value whole * 10 ^ precision : ℕ)).bind fun x ↦
        (fraction.elim (some x) (readFraction precision x)).bind (toAsset id negative)) =
      if (∀ f ∈ fraction, f.length ≤ precision) ∧
          (amountOf precision whole fraction : ℤ) ≤ maxShareSupply then
        some ⟨if negative then -(amountOf precision whole fraction : ℤ)
          else amountOf precision whole fraction, id⟩
      else none := by
  rw [amountOf]
  generalize value whole * 10 ^ precision = n
  cases fraction with
  | none =>
    show (shareType (n : ℤ)).bind (toAsset id negative) = _
    rw [bind_toAsset]
    simp
  | some f =>
    by_cases hfits : FitsInt64 (n : ℤ)
    · rw [shareType_of_fits hfits, Option.bind_some]
      show (readFraction precision n f).bind _ = _
      rw [readFraction_digits (hf f rfl) hfits hp]
      by_cases hle : f.length ≤ precision
      · rw [if_pos hle, ← Nat.cast_add, bind_toAsset]
        simp [hle]
      · rw [if_neg hle, if_neg fun h ↦ hle (h.1 f rfl)]
        rfl
    · have hlarge : ¬((n + value f * 10 ^ (precision - f.length) : ℕ) : ℤ) ≤ maxShareSupply := by
        simp only [FitsInt64, maxShareSupply] at hfits ⊢
        omega
      rw [shareType, if_neg hfits, if_neg fun h ↦ hlarge h.2]
      rfl

/-- What is negated and is an amount. -/
theorem exists_bind_toAsset (y : ℤ) :
    (∃ x, (shareType y).bind (toAsset id true) = some x) ↔ -2 ^ 63 < y ∧ y ≤ maxShareSupply := by
  by_cases hfits : FitsInt64 y
  · rw [shareType_of_fits hfits, Option.bind_some, toAsset, mul_neg_one]
    simp only [FitsInt64] at hfits
    by_cases hle : y ≤ maxShareSupply
    · rw [if_pos hle, if_pos rfl, shareType]
      split_ifs with hneg
      · simp only [FitsInt64] at hneg
        exact iff_of_true ⟨_, rfl⟩ ⟨by omega, hle⟩
      · simp only [FitsInt64, maxShareSupply] at hneg hle
        exact iff_of_false (fun ⟨x, hx⟩ ↦ by cases hx) (by omega)
    · rw [if_neg hle]
      exact iff_of_false (fun ⟨x, hx⟩ ↦ by cases hx) fun h ↦ hle h.2
  · rw [shareType, if_neg hfits]
    simp only [FitsInt64] at hfits
    refine iff_of_false (fun ⟨x, hx⟩ ↦ by cases hx) ?_
    simp only [maxShareSupply]
    omega

/-- What is read if the first part is negative and both are digits. -/
theorem exists_read_neg {n : ℕ} (hf : ∀ f ∈ fraction, Digits f) (hp : precision ≤ 12)
    (hn : n = 2 ^ 63 → precision = 0) :
    (∃ x, ((shareType (-n)).bind fun x ↦
        (fraction.elim (some x) (readFraction precision x)).bind (toAsset id true)) = some x) ↔
      (∀ f ∈ fraction, f.length ≤ precision) ∧ n < 2 ^ 63 := by
  cases fraction with
  | none =>
    show (∃ x, (shareType (-n : ℤ)).bind (toAsset id true) = some x) ↔ _
    rw [exists_bind_toAsset]
    simp only [maxShareSupply, Option.not_mem_none, false_implies, implies_true, true_and]
    omega
  | some f =>
    simp only [Option.mem_some_iff, forall_eq', Option.elim_some] at hf ⊢
    by_cases hfits : FitsInt64 (-n : ℤ)
    swap
    · rw [shareType, if_neg hfits]
      simp only [FitsInt64] at hfits
      exact iff_of_false (fun ⟨x, hx⟩ ↦ by cases hx) (by omega)
    rw [shareType_of_fits hfits, Option.bind_some, readFraction_digits hf hfits (by omega)]
    by_cases hle : f.length ≤ precision
    swap
    · rw [if_neg hle]
      exact iff_of_false (fun ⟨x, hx⟩ ↦ by cases hx) fun h ↦ hle h.1
    have hlt := value_mul_lt hf hle
    have hsmall : 10 ^ precision ≤ 10 ^ 12 := Nat.pow_le_pow_right (by decide) hp
    rw [if_pos hle, exists_bind_toAsset]
    simp only [FitsInt64, maxShareSupply] at hfits ⊢
    generalize value f * 10 ^ (precision - f.length) = frac at hlt
    have hzero : n = 2 ^ 63 → frac = 0 := fun h ↦ by
      rw [hn h, pow_zero] at hlt
      omega
    omega

end Reading

/-! ## The kinds of strings -/

section Kinds

variable {id : AssetId} {precision : ℕ} {negative : Bool} {whole after : List Char}
  {fraction : Option (List Char)} {c : Char}

theorem scanAmount_fraction (hf : ∀ f ∈ fraction, Digits f) (n : Bool) :
    scanAmount (point fraction) n false = some (n, fraction.isSome) := by
  cases fraction with
  | none => rfl
  | some f =>
    have hscan := scanAmount_digits (hf f rfl) [] (n := n) (m := true)
    rw [List.append_nil] at hscan
    show scanAmount ('.' :: f) n false = _
    rw [scanAmount_point, hscan]
    rfl

/-- A point is not a digit, so the digits before it are read. -/
theorem isDigit_head_point (fraction : Option (List Char)) :
    ∀ c ∈ ((point fraction).take 1).head?, c.isDigit = false := by
  cases fraction with
  | none =>
    rintro c ⟨⟩
  | some f =>
    rintro c ⟨⟩
    rfl

/-- **A number that is signed at the front**: its sign must not be right before the point. -/
theorem amountFromString_plain (hp : precision < 19) (hw : Digits whole)
    (hf : ∀ f ∈ fraction, Digits f) (hlead : negative = true → whole = [] → fraction = none) :
    amountFromString id precision (sign negative ++ whole ++ point fraction) =
      if (∀ f ∈ fraction, f.length ≤ precision) ∧
          (amountOf precision whole fraction : ℤ) ≤ maxShareSupply then
        some ⟨if negative then -(amountOf precision whole fraction : ℤ)
          else amountOf precision whole fraction, id⟩
      else none := by
  have hscan : scanAmount (sign negative ++ whole ++ point fraction) false false =
      some (negative, fraction.isSome) := by
    cases negative with
    | false => exact (scanAmount_digits hw _).trans (scanAmount_fraction hf _)
    | true =>
      show scanAmount ('-' :: whole ++ point fraction) false false = _
      rw [List.cons_append, scanAmount_minus, scanAmount_digits hw, scanAmount_fraction hf]
  have hpoint : '.' ∉ sign negative ++ whole := by
    have hw' : '.' ∉ whole := hw.notMem rfl
    cases negative <;> simpa [sign] using hw'
  rw [amountFromString_eq hscan hpoint hp, ← read_digits hf hp]
  cases negative with
  | false =>
    have hread : readWhole precision (whole ++ []) = _ :=
      readWhole_digits hw (.inr rfl) fun c hc ↦ by cases hc
    rw [List.append_nil] at hread
    rw [cut, if_neg fun h ↦ Bool.false_ne_true h.1]
    show (readWhole precision whole).bind _ = _
    rw [hread]
  | true =>
    show (readWhole precision (whole ++ (point fraction).take 1)).bind _ = _
    rw [readWhole_digits hw ?_ (isDigit_head_point fraction)]
    refine or_iff_not_imp_left.2 fun hnil ↦ ?_
    rw [hlead rfl (not_not.1 hnil)]
    rfl

/-- A sign right before the point is not read. -/
theorem amountFromString_sign_point (hp : precision < 19) {f : List Char} (hf : Digits f) :
    amountFromString id precision ('-' :: '.' :: f) = none := by
  have hscan : scanAmount (['-'] ++ point (some f)) false false = some (true, true) := by
    show scanAmount ('-' :: point (some f)) false false = _
    rw [scanAmount_minus, scanAmount_fraction]
    · rfl
    · rintro f' ⟨⟩
      exact hf
  refine (amountFromString_eq hscan (by decide) hp).trans ?_
  show (readWhole precision ['.']).bind _ = none
  rw [readWhole_point]
  rfl

theorem scanAmount_behind (hc : c.isDigit = true) (hw : Digits whole) (hy : Digits after)
    (hf : ∀ f ∈ fraction, Digits f) :
    scanAmount (c :: whole ++ '-' :: after ++ point fraction) false false =
      some (true, fraction.isSome) := by
  rw [List.append_assoc, scanAmount_digits (digits_cons.2 ⟨hc, hw⟩), List.cons_append,
    scanAmount_minus, scanAmount_digits hy, scanAmount_fraction hf]

theorem point_notMem_behind (hc : c.isDigit = true) (hw : Digits whole) (hy : Digits after) :
    '.' ∉ c :: whole ++ '-' :: after := by
  have hdigits : '.' ∉ c :: whole := (digits_cons.2 ⟨hc, hw⟩).notMem rfl
  have hrest : '.' ∉ after := hy.notMem rfl
  simp only [List.mem_append, List.mem_cons, not_or] at hdigits ⊢
  exact ⟨hdigits, by decide, hrest⟩

/-- **A `-` behind two digits or more**: the digits from the second up to it are read. -/
theorem amountFromString_behindDigits (hp : precision < 19) (hc : c.isDigit = true)
    (hw : Digits whole) (hne : whole ≠ []) (hy : Digits after) (hf : ∀ f ∈ fraction, Digits f) :
    amountFromString id precision (c :: whole ++ '-' :: after ++ point fraction) =
      if (∀ f ∈ fraction, f.length ≤ precision) ∧
          (amountOf precision whole fraction : ℤ) ≤ maxShareSupply then
        some ⟨-(amountOf precision whole fraction : ℤ), id⟩
      else none := by
  rw [amountFromString_eq (scanAmount_behind hc hw hy hf) (point_notMem_behind hc hw hy) hp]
  refine Eq.trans ?_ (@read_digits id precision true fraction whole hf hp)
  show (readWhole precision (whole ++ '-' :: after ++ (point fraction).take 1)).bind _ = _
  rw [List.append_assoc, readWhole_digits hw (.inl hne)]
  rintro c ⟨⟩
  rfl

/-- A power of two is not worth a number with zeros at its end. -/
theorem eq_zero_of_mul_eq {n : ℕ} (h : n * 10 ^ precision = 2 ^ 63) : precision = 0 := by
  by_contra hne
  have hdvd : 5 ∣ 2 ^ 63 := by
    rw [← h]
    exact Dvd.dvd.mul_left ((by decide : 5 ∣ 10).trans (dvd_pow_self 10 hne)) n
  revert hdvd
  decide

/-- **A `-` behind one digit**: what is behind it is read, and negated twice. -/
theorem exists_amountFromString_behindDigit (hp : precision ≤ 12) (hc : c.isDigit = true)
    (hw : Digits whole) (hf : ∀ f ∈ fraction, Digits f) :
    (∃ x, amountFromString id precision (c :: '-' :: whole ++ point fraction) = some x) ↔
      whole ≠ [] ∧ (∀ f ∈ fraction, f.length ≤ precision) ∧
        value whole * 10 ^ precision < 2 ^ 63 := by
  have heq : amountFromString id precision _ = _ :=
    amountFromString_eq (scanAmount_behind hc .nil hw hf) (point_notMem_behind hc .nil hw)
      (by omega : precision < 19)
  show (∃ x, amountFromString id precision (c :: [] ++ '-' :: whole ++ point fraction) = _) ↔ _
  rw [heq]
  show (∃ x, (readWhole precision ('-' :: whole ++ (point fraction).take 1)).bind _ = _) ↔ _
  rw [readWhole_minus hw (isDigit_head_point fraction)]
  by_cases hne : whole = []
  · rw [if_pos hne]
    exact iff_of_false (fun ⟨x, hx⟩ ↦ by cases hx) fun h ↦ h.1 hne
  · rw [if_neg hne, exists_read_neg hf hp eq_zero_of_mul_eq, and_iff_right hne]

section Behind

variable {f : List Char}

theorem readWhole_cut (hw : Digits whole) (hone : whole.length ≠ 1) :
    readWhole precision (cut true whole (some f)) =
      shareType (value whole.tail * 10 ^ precision : ℕ) := by
  by_cases hnil : whole = []
  · subst hnil
    rw [List.tail_nil, value_nil, zero_mul]
    rfl
  · rw [cut, if_pos ⟨rfl, hnil⟩, readWhole_digits]
    · exact fun c hc ↦ hw c (List.mem_of_mem_tail hc)
    · refine .inl fun htail ↦ hone ?_
      obtain ⟨c, w, rfl⟩ := List.exists_cons_of_ne_nil hnil
      rw [List.tail_cons] at htail
      rw [htail, List.length_singleton]
    · rintro c ⟨⟩
      rfl

/-- **A `-` behind the point**: what is before the point is read without its first digit, and what
is behind it up to the `-`, or from the `-` on if that is right behind it. -/
theorem exists_amountFromString_behindPoint (hp : precision ≤ 12) (hw : Digits whole)
    (hf : Digits f) (hy : Digits after) :
    (∃ x, amountFromString id precision (whole ++ '.' :: f ++ '-' :: after) = some x) ↔
      whole.length ≠ 1 ∧ f.length + 1 + after.length ≤ precision ∧
        if f ≠ [] then (value whole.tail * 10 ^ precision + value f : ℕ) ≤ maxShareSupply
        else (after ≠ [] ∨ precision ≠ 1) ∧
          ((value whole.tail * 10 ^ precision : ℕ) -
            (value after * 10 ^ (precision - 1 - after.length) : ℕ) : ℤ) ≤ maxShareSupply := by
  have hscan : scanAmount (whole ++ point (some (f ++ '-' :: after))) false false =
      some (true, true) := by
    rw [scanAmount_digits hw]
    show scanAmount ('.' :: (f ++ '-' :: after)) false false = _
    have hrest := scanAmount_digits hy [] (n := true) (m := true)
    rw [List.append_nil] at hrest
    rw [scanAmount_point, scanAmount_digits hf]
    exact hrest
  have heq : amountFromString id precision _ = _ :=
    amountFromString_eq hscan (hw.notMem rfl) (by omega : precision < 19)
  rw [List.append_assoc]
  show (∃ x, amountFromString id precision (whole ++ point (some (f ++ '-' :: after))) = _) ↔ _
  rw [heq]
  by_cases hone : whole.length = 1
  · obtain ⟨c, rfl⟩ := List.length_eq_one_iff.1 hone
    show (∃ x, (readWhole precision ['.']).bind _ = _) ↔ _
    rw [readWhole_point]
    exact iff_of_false (fun ⟨x, hx⟩ ↦ by cases hx) fun h ↦ h.1 hone
  rw [readWhole_cut hw hone, and_iff_right hone]
  have hsmall : f.length + 1 + after.length ≤ precision →
      value after * 10 ^ (precision - 1 - after.length) < 10 ^ 12 := fun hle ↦
    (value_mul_lt hy (by omega)).trans_le (Nat.pow_le_pow_right (by decide) (by omega))
  generalize value whole.tail * 10 ^ precision = n
  by_cases hfits : FitsInt64 (n : ℤ)
  swap
  · rw [shareType, if_neg hfits]
    simp only [FitsInt64, maxShareSupply] at hfits ⊢
    refine iff_of_false (fun ⟨x, hx⟩ ↦ by cases hx) fun ⟨hle, hread⟩ ↦ ?_
    have := hsmall hle
    split_ifs at hread <;> omega
  rw [shareType_of_fits hfits, Option.bind_some, Option.elim_some,
    readFraction_minus hf hy (by omega)]
  generalize value after * 10 ^ (precision - 1 - after.length) = frac at hsmall ⊢
  by_cases hle : f.length + 1 + after.length ≤ precision
  swap
  · rw [if_neg hle]
    exact iff_of_false (fun ⟨x, hx⟩ ↦ by cases hx) fun h ↦ hle h.1
  rw [if_pos hle, and_iff_right hle]
  by_cases hne : f ≠ []
  · rw [if_pos hne, if_pos hne, exists_bind_toAsset]
    omega
  rw [if_neg hne, if_neg hne]
  by_cases hread : after ≠ [] ∨ precision ≠ 1
  · rw [if_pos hread, exists_bind_toAsset, and_iff_right hread]
    have := hsmall hle
    omega
  · rw [if_neg hread]
    exact iff_of_false (fun ⟨x, hx⟩ ↦ by cases hx) fun h ↦ hread h.1

end Behind

end Kinds

/-! ## Exactly the amounts are read -/

section Exact

variable {id : AssetId} {precision : ℕ} {s : List Char} {v : ℤ}

/-- The sign of an amount is at the front. -/
theorem Reads.notMem_tail (h : Reads precision s v) : '-' ∉ s.tail := by
  cases h with
  | @intro negative whole fraction digits digits' fits =>
    have hrest : '-' ∉ whole ++ point fraction := by
      have hwhole : '-' ∉ whole := digits.notMem rfl
      cases fraction with
      | none => simpa [point] using hwhole
      | some f =>
        have hf : '-' ∉ f := (digits' f rfl).1.notMem rfl
        simpa [point, hf] using hwhole
    rw [List.append_assoc]
    cases negative with
    | true => exact hrest
    | false => exact fun hmem ↦ hrest (List.mem_of_mem_tail hmem)

/-- What is an amount is read as one, unless its sign is right before the point. -/
theorem Reads.amountFromString (hp : precision ≤ 12) (h : Reads precision s v)
    (hs : ¬Misread precision s) : amountFromString id precision s = some ⟨v, id⟩ := by
  cases h with
  | @intro negative whole fraction digits digits' fits =>
    have hlead : negative = true → whole = [] → fraction = none := by
      rintro rfl rfl
      cases fraction with
      | none => rfl
      | some f => exact absurd (.point (digits' f rfl).1 (digits' f rfl).2) hs
    rw [amountFromString_plain (by omega) digits (fun f hf ↦ (digits' f hf).1) hlead,
      if_pos ⟨fun f hf ↦ (digits' f hf).2, fits⟩]

/-- What is read is an amount, unless the `-` is behind the first character. -/
theorem reads_of_amountFromString (hp : precision ≤ 12) {x : Asset}
    (h : amountFromString id precision s = some x) (hs : ¬Misread precision s) :
    ∃ v, Reads precision s v ∧ x = ⟨v, id⟩ := by
  have hscan : ∃ r, scanAmount s false false = some r := by
    rw [amountFromString] at h
    exact (Option.bind_eq_some_iff.1 h).imp fun r hr ↦ hr.1
  obtain ⟨r, hr⟩ := hscan
  cases scannedAmount_of_scanAmount hr with
  | @plain negative whole fraction digits digits' =>
    have hlead : negative = true → whole = [] → fraction = none := by
      rintro rfl rfl
      cases fraction with
      | none => rfl
      | some f =>
        have hnone : amountFromString id precision _ = none :=
          amountFromString_sign_point (by omega) (digits' f rfl)
        exact absurd (h.symm.trans hnone) (Option.some_ne_none x)
    rw [amountFromString_plain (by omega) digits digits' hlead] at h
    obtain ⟨⟨hlength, hfits⟩, hx⟩ := Option.ite_none_right_eq_some.1 h
    exact ⟨_, .intro digits (fun f hf ↦ ⟨digits' f hf, hlength f hf⟩) hfits,
      (Option.some_inj.1 hx).symm⟩
  | @behind c whole after fraction digit digits rest digits' =>
    by_cases hne : whole = []
    · subst hne
      have hread := (exists_amountFromString_behindDigit hp digit rest digits').1 ⟨x, h⟩
      exact absurd (.behindDigit digit rest hread.1 (fun f hf ↦ ⟨digits' f hf, hread.2.1 f hf⟩)
        hread.2.2) hs
    · rw [amountFromString_behindDigits (by omega) digit digits hne rest digits'] at h
      obtain ⟨⟨hlength, hfits⟩, -⟩ := Option.ite_none_right_eq_some.1 h
      exact absurd (.behindDigits digit digits hne rest
        (fun f hf ↦ ⟨digits' f hf, hlength f hf⟩) hfits) hs
  | @behindPoint whole f after digits digits' rest =>
    obtain ⟨hone, hlength, hread⟩ :=
      (exists_amountFromString_behindPoint hp digits digits' rest).1 ⟨x, h⟩
    by_cases hne : f = []
    · subst hne
      rw [if_neg (not_not.2 rfl)] at hread
      rw [List.append_assoc] at hs
      rw [List.length_nil, zero_add] at hlength
      exact absurd (.atFraction digits hone rest hlength hread.1 hread.2) hs
    · rw [if_pos hne] at hread
      exact absurd (.inFraction digits hone digits' hne rest hlength hread) hs

/-- A misread string is an amount that is not read, or is read and no amount. -/
theorem Misread.not_exact (hp : precision ≤ 12) (h : Misread precision s) :
    ¬∀ x, amountFromString id precision s = some x ↔ ∃ v, Reads precision s v ∧ x = ⟨v, id⟩ := by
  have hread : '-' ∈ s.tail → (∃ x, amountFromString id precision s = some x) →
      ¬∀ x, amountFromString id precision s = some x ↔ ∃ v, Reads precision s v ∧ x = ⟨v, id⟩ := by
    rintro hmem ⟨x, hx⟩ hexact
    obtain ⟨v, hv, -⟩ := (hexact x).1 hx
    exact hv.notMem_tail hmem
  cases h with
  | @point f digits fits =>
    intro hexact
    have hfits : (amountOf precision [] (some f) : ℤ) ≤ maxShareSupply := by
      have hlt := value_mul_lt digits fits
      have hsmall : 10 ^ precision ≤ 10 ^ 12 := Nat.pow_le_pow_right (by decide) hp
      rw [amountOf, value_nil, zero_mul, zero_add, Option.elim_some]
      simp only [maxShareSupply]
      omega
    have hreads : Reads precision (sign true ++ [] ++ Graphene.point (some f)) _ :=
      .intro .nil (by rintro f' ⟨⟩; exact ⟨digits, fits⟩) hfits
    have hx := (hexact _).2 ⟨_, hreads, rfl⟩
    exact absurd (hx.symm.trans (amountFromString_sign_point (by omega) digits))
      (Option.some_ne_none _)
  | @behindDigits c whole after fraction digit digits ne_nil rest digits' fits =>
    refine hread (by simp) ⟨_, (amountFromString_behindDigits (by omega) digit digits ne_nil rest
      fun f hf ↦ (digits' f hf).1).trans (if_pos ⟨fun f hf ↦ (digits' f hf).2, fits⟩)⟩
  | @behindDigit c whole fraction digit digits ne_nil digits' fits =>
    refine hread (by simp) ((exists_amountFromString_behindDigit hp digit digits
      fun f hf ↦ (digits' f hf).1).2 ⟨ne_nil, fun f hf ↦ (digits' f hf).2, fits⟩)
  | @inFraction whole f after digits ne_one digits' ne_nil rest length fits =>
    refine hread ?_ ((exists_amountFromString_behindPoint hp digits digits' rest).2
      ⟨ne_one, length, by rwa [if_pos ne_nil]⟩)
    cases whole <;> simp
  | @atFraction whole y digits ne_one digits' length read fits =>
    have hlength : ([] : List Char).length + 1 + y.length ≤ precision := by
      rwa [List.length_nil, zero_add]
    have hsome : ∃ x, amountFromString id precision _ = some x :=
      (exists_amountFromString_behindPoint hp digits .nil digits').2
      ⟨ne_one, hlength, by rw [if_neg (not_not.2 rfl)]; exact ⟨read, fits⟩⟩
    rw [List.append_assoc] at hsome
    refine hread ?_ hsome
    cases whole <;> simp

end Exact

/-! ## What is written -/

section Writing

variable {id : AssetId} {precision n : ℕ}

theorem scaledPrecision_eq (hp : precision < 19) :
    scaledPrecision precision = some (10 ^ precision) := by
  induction precision with
  | zero => rfl
  | succ p ih =>
    have hpow : (10 : ℤ) ^ (p + 1) ≤ 10 ^ 18 := pow_le_pow_right₀ (by decide) (by omega)
    have hpos : (0 : ℤ) < 10 ^ (p + 1) := by positivity
    rw [scaledPrecision, ih (by omega), Option.bind_some, ← pow_succ]
    exact shareType_of_fits ⟨by omega, by omega⟩

theorem intToString_natCast (n : ℕ) : intToString n = Nat.toDigits 10 n := by
  rw [intToString, if_neg (by omega), Int.natAbs_natCast]

theorem intToString_neg (n : ℕ) :
    intToString (-n) = sign (n ≠ 0) ++ Nat.toDigits 10 n := by
  rcases n.eq_zero_or_pos with rfl | hn
  · rfl
  · rw [intToString, if_pos (by omega), Int.natAbs_neg, Int.natAbs_natCast]
    simp [sign, hn.ne']

/-- What is written behind the point if `n` is added to the precision. -/
def decimals (n : ℕ) : List Char := (Nat.toDigits 10 n).drop 1

theorem digits_decimals (n : ℕ) : Digits (decimals n) :=
  fun c hc ↦ digits_toDigits n c (List.mem_of_mem_drop hc)

/-- The first digit is not written. -/
theorem exists_digit_decimals (n : ℕ) :
    ∃ c < 10, n = c * 10 ^ (decimals n).length + value (decimals n) := by
  have hdigits := digits_toDigits n
  have hvalue := value_toDigits n
  rw [decimals]
  cases hd : Nat.toDigits 10 n with
  | nil => exact absurd hd Nat.toDigits_ne_nil
  | cons c d =>
    rw [hd] at hdigits hvalue
    rw [value_cons] at hvalue
    exact ⟨c.toNat - 48, toNat_sub_lt (digits_cons.1 hdigits).1, hvalue.symm⟩

theorem amountToString_natCast (hp : precision < 19) (n : ℕ) :
    amountToString precision n = some (sign false ++ Nat.toDigits 10 (n / 10 ^ precision) ++
      point (if n % 10 ^ precision = 0 then none
        else some (decimals (10 ^ precision + n % 10 ^ precision)))) := by
  have hpow : (10 : ℤ) ^ precision = (10 ^ precision : ℕ) := by push_cast; rfl
  rw [amountToString, scaledPrecision_eq hp, hpow]
  simp only [Option.bind_eq_bind, Option.bind_some, Option.pure_def]
  rw [← Int.ofNat_tdiv, ← Int.ofNat_tmod, ← Nat.cast_add, intToString_natCast, intToString_natCast]
  split_ifs with hne hzero hzero
  · exact absurd (by rw [hzero]; rfl) hne
  · rfl
  · rw [point, Option.elim_none, List.append_nil]
    rfl
  · exact absurd (by exact_mod_cast not_not.1 hne) hzero

theorem amountToString_neg (hp : precision < 19) (n : ℕ) :
    amountToString precision (-n) = some (sign (n / 10 ^ precision ≠ 0) ++
      Nat.toDigits 10 (n / 10 ^ precision) ++
      point (if n % 10 ^ precision = 0 then none
        else some (decimals (10 ^ precision - n % 10 ^ precision)))) := by
  have hpow : (10 : ℤ) ^ precision = (10 ^ precision : ℕ) := by push_cast; rfl
  have hlt : n % 10 ^ precision < 10 ^ precision := Nat.mod_lt _ (by positivity)
  rw [amountToString, scaledPrecision_eq hp, hpow]
  simp only [Option.bind_eq_bind, Option.bind_some, Option.pure_def]
  rw [Int.neg_tdiv, Int.neg_tmod, ← Int.ofNat_tdiv, ← Int.ofNat_tmod, intToString_neg,
    ← sub_eq_add_neg, ← Nat.cast_sub hlt.le, intToString_natCast]
  split_ifs with hne hzero hzero
  · exact absurd (by rw [hzero]; rfl) hne
  · rfl
  · rw [point, Option.elim_none, List.append_nil]
  · exact absurd (by exact_mod_cast neg_eq_zero.1 (not_not.1 hne)) hzero

/-- What is added to the precision is written with all its digits. -/
theorem decimals_add {r : ℕ} (hr : r < 10 ^ precision) :
    (decimals (10 ^ precision + r)).length = precision ∧
      value (decimals (10 ^ precision + r)) = r := by
  have hlength : (decimals (10 ^ precision + r)).length = precision := by
    rw [decimals, List.length_drop, length_toDigits (Nat.le_add_right _ r)
      (by rw [pow_succ]; omega), Nat.add_sub_cancel]
  obtain ⟨c, -, hc⟩ := exists_digit_decimals (10 ^ precision + r)
  have hlt := value_lt (digits_decimals (10 ^ precision + r))
  rw [hlength] at hc hlt
  refine ⟨hlength, ?_⟩
  calc value (decimals (10 ^ precision + r))
      = (c * 10 ^ precision + value (decimals (10 ^ precision + r))) % 10 ^ precision := by
        rw [Nat.mul_add_mod', Nat.mod_eq_of_lt hlt]
    _ = (10 ^ precision + r) % 10 ^ precision := by rw [← hc]
    _ = r := by rw [Nat.add_mod_left, Nat.mod_eq_of_lt hr]

/-- What is taken from the precision is written without its first digit, and is worth something
else: ten to a power and one have no prime in common with ten. -/
theorem decimals_sub {r : ℕ} (hr : 0 < r) (hlt : r < 10 ^ precision) :
    (decimals (10 ^ precision - r)).length < precision ∧
      value (decimals (10 ^ precision - r)) *
        10 ^ (precision - (decimals (10 ^ precision - r)).length) ≠ r := by
  have hpos : 0 < precision := by
    refine Nat.pos_of_ne_zero fun h ↦ ?_
    rw [h, pow_zero] at hlt
    omega
  have hlength : (decimals (10 ^ precision - r)).length < precision := by
    have hle := (Nat.length_toDigits_le_iff (by decide : 1 < 10) hpos).2
      (Nat.sub_lt (hr.trans hlt) hr)
    rw [decimals, List.length_drop]
    omega
  refine ⟨hlength, fun heq ↦ ?_⟩
  obtain ⟨c, hc, hsum⟩ := exists_digit_decimals (10 ^ precision - r)
  have hvalue := value_lt (digits_decimals (10 ^ precision - r))
  generalize value (decimals (10 ^ precision - r)) = v at *
  generalize (decimals (10 ^ precision - r)).length = j at *
  obtain ⟨k, hk⟩ : ∃ k, precision = j + (k + 1) := ⟨precision - j - 1, by omega⟩
  rw [hk, Nat.add_sub_cancel_left] at heq
  have hsplit : v * (10 ^ (k + 1) + 1) + c * 10 ^ j = 10 ^ j * 10 ^ (k + 1) := by
    rw [hk, pow_add] at hsum hlt
    rw [mul_add_one, heq]
    omega
  have hdvd : 10 ^ j ∣ v := by
    have hcoprime : Nat.Coprime (10 ^ j) (10 ^ (k + 1) + 1) := by
      refine Nat.Coprime.pow_left _ ?_
      rw [pow_succ, Nat.coprime_mul_right_add_right]
      exact Nat.coprime_one_right 10
    refine hcoprime.dvd_of_dvd_mul_right ?_
    refine (Nat.dvd_add_left (Dvd.intro_left c rfl)).1 ?_
    rw [hsplit]
    exact Dvd.intro _ rfl
  have hzero : v = 0 := Nat.eq_zero_of_dvd_of_lt hdvd hvalue
  rw [hzero, zero_mul] at heq
  exact hr.ne heq

/-- **An amount that is not negative is read as it was written.** -/
theorem read_natCast (hp : precision ≤ 12) (hn : (n : ℤ) ≤ maxShareSupply) :
    (amountToString precision n).bind (amountFromString id precision) = some ⟨n, id⟩ := by
  have hlt : n % 10 ^ precision < 10 ^ precision := Nat.mod_lt _ (by positivity)
  have hsum := Nat.div_add_mod' n (10 ^ precision)
  rw [amountToString_natCast (by omega), Option.bind_some]
  by_cases hzero : n % 10 ^ precision = 0
  · have hamount : amountOf precision (Nat.toDigits 10 (n / 10 ^ precision)) none = n := by
      rw [amountOf, value_toDigits, Option.elim_none, ← hzero, hsum]
    rw [if_pos hzero, amountFromString_plain (by omega) (digits_toDigits _)
      (fun f hf ↦ by cases hf) (fun h ↦ by cases h), hamount, if_pos ⟨by simp, hn⟩]
    rfl
  · obtain ⟨hlength, hvalue⟩ := decimals_add hlt
    have hdigits := digits_decimals (10 ^ precision + n % 10 ^ precision)
    generalize decimals (10 ^ precision + n % 10 ^ precision) = f at hlength hvalue hdigits ⊢
    have hamount : amountOf precision (Nat.toDigits 10 (n / 10 ^ precision)) (some f) = n := by
      rw [amountOf, value_toDigits, Option.elim_some, hlength, Nat.sub_self, pow_zero, mul_one,
        hvalue, hsum]
    rw [if_neg hzero, amountFromString_plain (by omega) (digits_toDigits _)
      (by rintro _ ⟨⟩; exact hdigits) (fun h ↦ by cases h), hamount,
      if_pos ⟨by rintro _ ⟨⟩; exact hlength.le, hn⟩]
    rfl

/-- **A negative amount is read as it was written if nothing is behind its point.** -/
theorem read_neg (hp : precision ≤ 12) (hn : (n : ℤ) ≤ maxShareSupply) :
    (amountToString precision (-n)).bind (amountFromString id precision) = some ⟨-n, id⟩ ↔
      10 ^ precision ∣ n := by
  have hlt : n % 10 ^ precision < 10 ^ precision := Nat.mod_lt _ (by positivity)
  have hsum := Nat.div_add_mod' n (10 ^ precision)
  have hlead {fraction : Option (List Char)} :
      Nat.toDigits 10 (n / 10 ^ precision) = [] → fraction = none := fun h ↦
    absurd h Nat.toDigits_ne_nil
  rw [amountToString_neg (by omega), Option.bind_some, Nat.dvd_iff_mod_eq_zero]
  by_cases hzero : n % 10 ^ precision = 0
  · have hamount : amountOf precision (Nat.toDigits 10 (n / 10 ^ precision)) none = n := by
      rw [amountOf, value_toDigits, Option.elim_none, ← hzero, hsum]
    refine iff_of_true ?_ hzero
    rw [if_pos hzero, amountFromString_plain (by omega) (digits_toDigits _)
      (fun f hf ↦ by cases hf) (fun _ ↦ hlead), hamount, if_pos ⟨by simp, hn⟩]
    by_cases hwhole : n / 10 ^ precision = 0
    · rw [hwhole, hzero, zero_mul] at hsum
      rw [← hsum]
      simp
    · simp [hwhole]
  · refine iff_of_false (fun hread ↦ ?_) hzero
    obtain ⟨hlength, hvalue⟩ := decimals_sub (Nat.pos_of_ne_zero hzero) hlt
    have hdigits := digits_decimals (10 ^ precision - n % 10 ^ precision)
    generalize decimals (10 ^ precision - n % 10 ^ precision) = f at *
    rw [if_neg hzero, amountFromString_plain (by omega) (digits_toDigits _)
      (by rintro _ ⟨⟩; exact hdigits) (fun _ ↦ hlead), Option.ite_none_right_eq_some,
      Option.some_inj] at hread
    obtain ⟨hamount, -⟩ := Asset.mk.inj hread.2
    rw [amountOf, value_toDigits, Option.elim_some] at hamount
    split_ifs at hamount
    · omega
    · omega

end Writing

/-- **Amounts as strings.**  What was written is read back, but for a negative amount with something
behind its point; and what is read is exactly the decimal numbers that are amounts, but for the
strings that are misread. -/
theorem amount_strings {precision : ℕ} (hp : precision ≤ 12) (id : AssetId) :
    (∀ a : ℤ, |a| ≤ maxShareSupply →
      ((amountToString precision a).bind (amountFromString id precision) = some ⟨a, id⟩ ↔
        0 ≤ a ∨ 10 ^ precision ∣ a)) ∧
    ∀ s, (∀ x, amountFromString id precision s = some x ↔
      ∃ v, Reads precision s v ∧ x = ⟨v, id⟩) ↔ ¬Misread precision s := by
  constructor
  · intro a ha
    have hpow : (10 : ℤ) ^ precision = (10 ^ precision : ℕ) := by push_cast; rfl
    obtain ⟨n, rfl | rfl⟩ := a.eq_nat_or_neg
    · rw [Nat.abs_cast] at ha
      exact iff_of_true (read_natCast hp ha) (.inl (Int.natCast_nonneg n))
    · rw [abs_neg, Nat.abs_cast] at ha
      rw [read_neg hp ha, hpow, Int.dvd_neg, Int.natCast_dvd_natCast]
      refine ⟨.inr, ?_⟩
      rintro (hn | hdvd)
      · obtain rfl : n = 0 := by omega
        exact Nat.dvd_zero _
      · exact hdvd
  · intro s
    constructor
    · exact fun hexact hs ↦ hs.not_exact hp hexact
    · intro hs x
      constructor
      · exact fun h ↦ reads_of_amountFromString hp h hs
      · rintro ⟨v, hv, rfl⟩
        exact hv.amountFromString hp hs

/-- An amount with two digits behind the point that is written and read, and a string that is. -/
theorem amount_strings_two :
    2 ≤ 12 ∧
    ((amountToString 2 (-500)).bind (amountFromString 0 2) = some ⟨-500, 0⟩ ↔
      0 ≤ (-500 : ℤ) ∨ (10 : ℤ) ^ 2 ∣ -500) ∧
    ((∀ x, amountFromString 0 2 ['-', '5'] = some x ↔
      ∃ v, Reads 2 ['-', '5'] v ∧ x = ⟨v, 0⟩) ↔ ¬Misread 2 ['-', '5']) :=
  ⟨by decide, (amount_strings (by decide) 0).1 (-500) (by decide),
    (amount_strings (by decide) 0).2 ['-', '5']⟩

/-- An amount of `-1.50` is written as `-1.0`, `1-2` is read as two, and `-.5` is not read. -/
theorem amount_strings_fail :
    (amountToString 2 (-150)).bind (amountFromString 0 2) = some ⟨-100, 0⟩ ∧
    (amountFromString 0 2 ['1', '-', '2'] = some ⟨200, 0⟩ ∧ ¬∃ v, Reads 2 ['1', '-', '2'] v) ∧
    amountFromString 0 2 ['-', '.', '5'] = none ∧ Reads 2 ['-', '.', '5'] (-50) := by
  refine ⟨by decide, ⟨by decide, ?_⟩, by decide, ?_⟩
  · rintro ⟨v, hv⟩
    exact hv.notMem_tail (by decide)
  · have hreads : Reads 2 (sign true ++ [] ++ point (some ['5'])) _ :=
      .intro .nil (by rintro _ ⟨⟩; exact ⟨digits_toDigits 5, by decide⟩) (by decide)
    exact hreads

end Graphene
