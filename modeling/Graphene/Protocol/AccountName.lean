import Mathlib.Data.List.Basic
import Mathlib.Data.List.Infix
import Mathlib.Algebra.Group.Nat.Defs

/-!
# The names of accounts

A name is a sequence of labels with dots between them.  `is_valid_name` finds one label after the
other, and looks at the first, the last and all other characters of each of them.

* `isValidName` — the scanner.
* `Label`, `Domain` — the grammar that names must comply with.
* `scanLabels_spec` — what the scanner finds from a position on.
* `is_valid_name_iff` — it accepts exactly what the grammar allows, and never reads past the end.
-/

set_option autoImplicit false

namespace Graphene

/-! ## The scanner -/

/-- `GRAPHENE_MIN_ACCOUNT_NAME_LENGTH`. -/
def minAccountNameLength : ℕ := 3

/-- `GRAPHENE_MAX_ACCOUNT_NAME_LENGTH`. -/
def maxAccountNameLength : ℕ := 63

/-- `'.'`. -/
def dot : UInt8 := 46

/-- `'-'`. -/
def hyphen : UInt8 := 45

/-- The cases of the first character: `'a'` to `'z'`. -/
def isLetter (c : UInt8) : Bool := 97 ≤ c ∧ c ≤ 122

/-- The cases of the last character: the letters, and `'0'` to `'9'`. -/
def isLetDig (c : UInt8) : Bool := isLetter c ∨ 48 ≤ c ∧ c ≤ 57

/-- The cases of the other characters: letters, digits and `'-'`. -/
def isLetDigHyp (c : UInt8) : Bool := isLetDig c ∨ c = hyphen

/-- `a - b`, of two `size_t`s. -/
def sizeSub (a b : ℕ) : ℕ := (a + 2 ^ 64 - b) % 2 ^ 64

section Scanner

variable (name : List UInt8)

/-- `find_first_of( '.', begin )`, where `none` is `npos`. -/
def findFirstOf (start : ℕ) : Option ℕ := ((name.drop start).findIdx? (· = dot)).map (start + ·)

/-- The loop over the characters in the middle of a label, from position `i` on.  Nothing is there
past the end. -/
def checkMiddle : ℕ → ℕ → Option Bool
  | 0, _ => some true
  | n + 1, i => do
    let c ← name[i]?
    if isLetDigHyp c then checkMiddle n (i + 1) else return false

/-- The checks of the label from `start` to `stop`. -/
def checkLabel (start stop : ℕ) : Option Bool := do
  if sizeSub stop start < 3 then return false
  let first ← name[start]?
  if !isLetter first then return false
  let last ← name[sizeSub stop 1]?
  if !isLetDig last then return false
  checkMiddle name (sizeSub stop 1 - (start + 1)) (start + 1)

/-- The loop over the labels, in so many rounds at most. -/
def scanLabels : ℕ → ℕ → Option Bool
  | 0, _ => none
  | rounds + 1, start => do
    let stop := (findFirstOf name start).getD name.length
    if !(← checkLabel name start stop) then return false
    if stop = name.length then return true
    scanLabels rounds (stop + 1)

/-- `is_valid_name`. -/
def isValidName : Option Bool :=
  if name.length < minAccountNameLength then some false
  else if name.length > maxAccountNameLength then some false
  else scanLabels name (name.length + 1) 0

end Scanner

/-! ## The grammar -/

/-- `<ldh-str> ::= <let-dig-hyp> | <let-dig-hyp> <ldh-str>`. -/
inductive LdhStr : List UInt8 → Prop
  | last {c : UInt8} (hc : isLetDigHyp c) : LdhStr [c]
  | more {c : UInt8} {s : List UInt8} (hc : isLetDigHyp c) (hs : LdhStr s) : LdhStr (c :: s)

/-- `<label> ::= <letter> [ [ <ldh-str> ] <let-dig> ]`. -/
inductive Label : List UInt8 → Prop
  | letter {c : UInt8} (hc : isLetter c) : Label [c]
  | letDig {c d : UInt8} (hc : isLetter c) (hd : isLetDig d) : Label [c, d]
  | ldhStr {c d : UInt8} {s : List UInt8} (hc : isLetter c) (hs : LdhStr s) (hd : isLetDig d) :
      Label (c :: (s ++ [d]))

/-- A label of three characters or more. -/
def LongLabel (l : List UInt8) : Prop := Label l ∧ 3 ≤ l.length

/-- `<subdomain> ::= <label> | <subdomain> "." <label>`. -/
inductive Subdomain : List UInt8 → Prop
  | label {l : List UInt8} (hl : LongLabel l) : Subdomain l
  | dot {s l : List UInt8} (hs : Subdomain s) (hl : LongLabel l) : Subdomain (s ++ dot :: l)

/-- `<domain> ::= <subdomain> | " "`. -/
inductive Domain : List UInt8 → Prop
  | subdomain {s : List UInt8} (hs : Subdomain s) : Domain s
  | space : Domain [32]

/-! ## Labels -/

theorem ldhStr_iff {s : List UInt8} : LdhStr s ↔ s ≠ [] ∧ ∀ c ∈ s, isLetDigHyp c = true := by
  constructor
  · intro h
    induction h with
    | last hc => exact ⟨List.cons_ne_nil _ _, by simpa using hc⟩
    | more hc _ ih => exact ⟨List.cons_ne_nil _ _, List.forall_mem_cons.2 ⟨hc, ih.2⟩⟩
  · rintro ⟨hne, hs⟩
    induction s with
    | nil => exact absurd rfl hne
    | cons c s ih =>
      obtain ⟨hc, hs⟩ := List.forall_mem_cons.1 hs
      rcases eq_or_ne s [] with rfl | hne
      · exact .last hc
      · exact .more hc (ih hne hs)

/-- A label of three characters or more has a letter first, a letter or digit last, and letters,
digits and hyphens between them. -/
theorem longLabel_iff {l : List UInt8} : LongLabel l ↔ ∃ c s d, l = c :: (s ++ [d]) ∧ s ≠ [] ∧
    isLetter c = true ∧ isLetDig d = true ∧ ∀ x ∈ s, isLetDigHyp x = true := by
  constructor
  · rintro ⟨hl, hlength⟩
    cases hl with
    | letter => exact absurd hlength (by simp)
    | letDig => exact absurd hlength (by simp)
    | ldhStr hc hs hd =>
      obtain ⟨hne, hs⟩ := ldhStr_iff.1 hs
      exact ⟨_, _, _, rfl, hne, hc, hd, hs⟩
  · rintro ⟨c, s, d, rfl, hne, hc, hd, hs⟩
    have hpos := List.length_pos_of_ne_nil hne
    refine ⟨.ldhStr hc (ldhStr_iff.2 ⟨hne, hs⟩) hd, ?_⟩
    rw [List.length_cons, List.length_append, List.length_singleton]
    omega

theorem isLetDigHyp_of_isLetDig {c : UInt8} (h : isLetDig c = true) : isLetDigHyp c = true :=
  decide_eq_true (.inl h)

theorem isLetDig_of_isLetter {c : UInt8} (h : isLetter c = true) : isLetDig c = true :=
  decide_eq_true (.inl h)

/-- There is no dot in a label. -/
theorem LongLabel.dot_notMem {l : List UInt8} (h : LongLabel l) : dot ∉ l := by
  obtain ⟨c, s, d, rfl, -, hc, hd, hs⟩ := longLabel_iff.1 h
  have hdot : isLetDigHyp dot = false := by decide
  have hall : ∀ x ∈ c :: (s ++ [d]), isLetDigHyp x = true := by
    refine List.forall_mem_cons.2 ⟨isLetDigHyp_of_isLetDig (isLetDig_of_isLetter hc), ?_⟩
    refine List.forall_mem_append.2 ⟨hs, List.forall_mem_singleton.2 ?_⟩
    exact isLetDigHyp_of_isLetDig hd
  exact fun hmem ↦ Bool.false_ne_true (hdot.symm.trans (hall dot hmem))

/-! ## Labels from the left -/

/-- A sequence of labels, read from the left. -/
inductive Dotted : List UInt8 → Prop
  | label {l : List UInt8} (hl : LongLabel l) : Dotted l
  | dot {l s : List UInt8} (hl : LongLabel l) (hs : Dotted s) : Dotted (l ++ dot :: s)

theorem Dotted.append {s l : List UInt8} (hs : Dotted s) (hl : LongLabel l) :
    Dotted (s ++ Graphene.dot :: l) := by
  induction hs with
  | label hs => exact .dot hs (.label hl)
  | dot hl' _ ih =>
    rw [List.append_assoc, List.cons_append]
    exact .dot hl' ih

theorem Subdomain.prepend {l s : List UInt8} (hl : LongLabel l) (hs : Subdomain s) :
    Subdomain (l ++ Graphene.dot :: s) := by
  induction hs with
  | label hs => exact .dot (.label hl) hs
  | dot _ hl' ih =>
    rw [← List.cons_append, ← List.append_assoc]
    exact .dot ih hl'

theorem subdomain_iff_dotted {s : List UInt8} : Subdomain s ↔ Dotted s := by
  constructor
  · intro h
    induction h with
    | label hl => exact .label hl
    | dot _ hl ih => exact ih.append hl
  · intro h
    induction h with
    | label hl => exact .label hl
    | dot hl _ ih => exact ih.prepend hl

theorem dotted_iff_of_notMem {s : List UInt8} (h : dot ∉ s) : Dotted s ↔ LongLabel s := by
  refine ⟨fun hs ↦ ?_, .label⟩
  cases hs with
  | label hl => exact hl
  | dot => exact absurd (List.mem_append_right _ List.mem_cons_self) h

/-- What is before the first dot is a label, and so on. -/
theorem dotted_append_iff {l s : List UInt8} (h : dot ∉ l) :
    Dotted (l ++ dot :: s) ↔ LongLabel l ∧ Dotted s := by
  refine ⟨fun hs ↦ ?_, fun ⟨hl, hs⟩ ↦ .dot hl hs⟩
  generalize ht : l ++ dot :: s = t at hs
  cases hs with
  | label hl =>
    subst ht
    exact absurd (List.mem_append_right _ List.mem_cons_self) hl.dot_notMem
  | @dot l' s' hl' hs' =>
    have hfront : ∀ {a b : List UInt8}, dot ∉ a → (a ++ dot :: b).takeWhile (· ≠ dot) = a := by
      intro a b ha
      have hne : ∀ x ∈ a, decide (x ≠ dot) = true := by
        intro x hx
        exact decide_eq_true (ne_of_mem_of_not_mem hx ha)
      rw [List.takeWhile_append_of_pos hne, List.takeWhile_cons_of_neg (by simp), List.append_nil]
    obtain rfl : l = l' := by rw [← hfront h, ht, hfront hl'.dot_notMem]
    obtain rfl := (List.cons.inj (List.append_cancel_left ht)).2
    exact ⟨hl', hs'⟩

/-! ## What the scanner finds -/

theorem sizeSub_eq {a b : ℕ} (hle : b ≤ a) (hlt : a < 2 ^ 64) : sizeSub a b = a - b := by
  unfold sizeSub
  omega

theorem getElem?_middle {before after : List UInt8} {c : UInt8} :
    (before ++ c :: after)[before.length]? = some c := by
  rw [List.getElem?_append_right (Nat.le_refl _), Nat.sub_self, List.getElem?_cons_zero]

/-- The characters in the middle, by induction on them. -/
theorem checkMiddle_spec (before s after : List UInt8) :
    checkMiddle (before ++ (s ++ after)) s.length before.length =
      some (s.all isLetDigHyp) := by
  induction s generalizing before with
  | nil => rfl
  | cons c s ih =>
    have hrest := ih (before ++ [c])
    rw [List.append_assoc, List.singleton_append, List.length_append, List.length_singleton]
      at hrest
    rw [List.length_cons, checkMiddle, List.cons_append, getElem?_middle, List.all_cons]
    cases hc : isLetDigHyp c with
    | false => simp [hc]
    | true =>
      rw [Bool.true_and, ← hrest]
      simp [hc]

/-- **The checks of a label** read nothing else, and accept labels of three characters or more. -/
theorem checkLabel_spec (before l after : List UInt8)
    (hlt : (before ++ (l ++ after)).length < 2 ^ 64) :
    ∃ b, checkLabel (before ++ (l ++ after)) before.length (before.length + l.length) = some b ∧
      (b = true ↔ LongLabel l) := by
  rw [List.length_append, List.length_append] at hlt
  have hsize : sizeSub (before.length + l.length) before.length = l.length := by
    rw [sizeSub_eq (by omega) (by omega), Nat.add_sub_cancel_left]
  rw [checkLabel, hsize]
  by_cases hshort : l.length < 3
  · refine ⟨false, if_pos hshort, iff_of_false Bool.false_ne_true fun hl ↦ ?_⟩
    exact absurd hl.2 (Nat.not_le.2 hshort)
  obtain ⟨c, t, rfl⟩ := List.exists_cons_of_length_pos (l := l) (by omega)
  obtain rfl | ⟨s, d, rfl⟩ := List.eq_nil_or_concat t
  · exact absurd hshort (by simp)
  have hs : s ≠ [] := by
    rintro rfl
    exact hshort (by simp)
  rw [List.concat_eq_append] at hlt hshort ⊢
  have hstop : sizeSub (before.length + (c :: (s ++ [d])).length) 1 =
      (before ++ c :: s).length := by
    rw [sizeSub_eq (by simp; omega) (by omega)]
    simp only [List.length_cons, List.length_append, List.length_nil]
    omega
  have hfirst : (before ++ (c :: (s ++ [d]) ++ after))[before.length]? = some c := getElem?_middle
  have hlast : (before ++ (c :: (s ++ [d]) ++ after))[(before ++ c :: s).length]? = some d := by
    have hname : before ++ (c :: (s ++ [d]) ++ after) = (before ++ c :: s) ++ d :: after := by simp
    rw [hname]
    exact getElem?_middle
  have hmiddle : checkMiddle (before ++ (c :: (s ++ [d]) ++ after))
      ((before ++ c :: s).length - (before.length + 1)) (before.length + 1) =
      some (s.all isLetDigHyp) := by
    have hspec := checkMiddle_spec (before ++ [c]) s (d :: after)
    have hname : before ++ (c :: (s ++ [d]) ++ after) = (before ++ [c]) ++ (s ++ d :: after) := by
      simp
    have hlength : (before ++ c :: s).length - (before.length + 1) = s.length := by
      rw [List.length_append, List.length_cons]
      omega
    rw [hname, hlength, ← hspec, List.length_append, List.length_singleton]
  have hlabel : LongLabel (c :: (s ++ [d])) ↔
      isLetter c = true ∧ isLetDig d = true ∧ ∀ x ∈ s, isLetDigHyp x = true := by
    rw [longLabel_iff]
    constructor
    · rintro ⟨c', s', d', heq, -, hall⟩
      obtain ⟨rfl, htail⟩ := List.cons.inj heq
      obtain ⟨rfl, hsingle⟩ := List.append_inj' htail rfl
      obtain rfl := List.singleton_inj.1 hsingle
      exact hall
    · exact fun hall ↦ ⟨c, s, d, rfl, hs, hall⟩
  rw [if_neg hshort, hstop, hfirst, hlast, hmiddle, hlabel, ← List.all_eq_true]
  cases hc : isLetter c with
  | false => exact ⟨false, by simp [hc], by simp⟩
  | true =>
    cases hd : isLetDig d with
    | false => exact ⟨false, by simp [hd], by simp⟩
    | true => exact ⟨s.all isLetDigHyp, by simp [hc, hd], by simp⟩

/-- Either there is no dot, or the first one has a place. -/
theorem findIdx?_dot (s : List UInt8) : (s.findIdx? (· = dot) = none ∧ dot ∉ s) ∨
    ∃ l rest, s = l ++ dot :: rest ∧ dot ∉ l ∧ s.findIdx? (· = dot) = some l.length := by
  induction s with
  | nil => exact .inl ⟨rfl, List.not_mem_nil⟩
  | cons c s ih =>
    rw [List.findIdx?_cons]
    by_cases hc : c = dot
    · subst hc
      exact .inr ⟨[], s, rfl, List.not_mem_nil, by simp⟩
    · rw [if_neg (by simpa using hc)]
      rcases ih with ⟨hnone, hnot⟩ | ⟨l, rest, rfl, hnot, hsome⟩
      · exact .inl ⟨by rw [hnone]; rfl, fun hmem ↦ hnot ((List.mem_cons.1 hmem).resolve_left
          (Ne.symm hc))⟩
      · exact .inr ⟨c :: l, rest, rfl, fun hmem ↦ hnot ((List.mem_cons.1 hmem).resolve_left
          (Ne.symm hc)), by rw [hsome]; rfl⟩

/-- **The loop over the labels**, from a position on, by induction on the rounds: each takes one
label off what is left. -/
theorem scanLabels_spec {rounds : ℕ} (before s : List UInt8) (hrounds : s.length < rounds)
    (hlt : (before ++ s).length < 2 ^ 64) :
    ∃ b, scanLabels (before ++ s) rounds before.length = some b ∧ (b = true ↔ Dotted s) := by
  induction rounds generalizing before s with
  | zero => exact absurd hrounds (Nat.not_lt_zero _)
  | succ rounds ih =>
    rw [scanLabels, findFirstOf, List.drop_left]
    rcases findIdx?_dot s with ⟨hnone, hnot⟩ | ⟨l, rest, rfl, hnot, hsome⟩
    · -- This is the last label.
      obtain ⟨b, hb, hlabel⟩ := checkLabel_spec before s [] (by rwa [List.append_nil])
      rw [List.append_nil, ← List.length_append] at hb
      rw [hnone, dotted_iff_of_notMem hnot, ← hlabel]
      refine ⟨b, ?_, Iff.rfl⟩
      simp only [Option.map_none, Option.getD_none, hb, Option.bind_eq_bind, Option.bind_some]
      cases b with
      | false => rfl
      | true => simp
    · obtain ⟨b, hb, hlabel⟩ := checkLabel_spec before l (dot :: rest) hlt
      have hname : before ++ (l ++ dot :: rest) = (before ++ l ++ [dot]) ++ rest := by simp
      have hstart : before.length + l.length + 1 = (before ++ l ++ [dot]).length := by
        rw [List.length_append, List.length_append, List.length_singleton]
      rw [List.length_append, List.length_cons] at hrounds
      obtain ⟨b', hb', hrest⟩ := ih (before ++ l ++ [dot]) rest (by omega) (hname ▸ hlt)
      rw [hsome, dotted_append_iff hnot, ← hlabel, ← hrest]
      simp only [Option.map_some, Option.getD_some, hb, Option.bind_eq_bind, Option.bind_some]
      cases b with
      | false => exact ⟨false, by simp, by simp⟩
      | true =>
        refine ⟨b', ?_, by simp⟩
        have hne : before.length + l.length ≠ (before ++ (l ++ dot :: rest)).length := by
          simp
        rw [← hb', hstart, ← hname]
        simp

/-! ## What is accepted -/

/-- **A name is valid** exactly if its length is within the bounds and it complies with the grammar,
and nothing is read that is not part of it. -/
theorem is_valid_name_iff (name : List UInt8) :
    ∃ b, isValidName name = some b ∧
      (b = true ↔ (minAccountNameLength ≤ name.length ∧ name.length ≤ maxAccountNameLength) ∧
        Domain name) := by
  rw [isValidName]
  split_ifs with hshort hlong
  · exact ⟨false, rfl, iff_of_false Bool.false_ne_true fun h ↦ Nat.not_le.2 hshort h.1.1⟩
  · exact ⟨false, rfl, iff_of_false Bool.false_ne_true fun h ↦ Nat.not_le.2 hlong h.1.2⟩
  · have hbound : name.length < 2 ^ 64 := (Nat.le_of_not_lt hlong).trans_lt (by decide)
    obtain ⟨b, hb, hdotted⟩ := scanLabels_spec [] name (Nat.lt_succ_self name.length) hbound
    refine ⟨b, hb, ?_⟩
    rw [hdotted, ← subdomain_iff_dotted,
      and_iff_right ⟨Nat.le_of_not_lt hshort, Nat.le_of_not_lt hlong⟩]
    refine ⟨.subdomain, fun h ↦ ?_⟩
    cases h with
    | subdomain hs => exact hs
    | space => exact absurd (by decide) hshort

end Graphene
