import Graphene.Auth.Authority

/-!
# The keys that have an address

An address is one of five hashes of a key.  `signed_by` looks an address up in two tables, one of
the keys that have signed and one of the keys that could sign, both of which it sets up the first
time that it is asked for an address.

* `KeyState` — what `sign_state` knows of keys and addresses.
* `tabulate_eq` — a table has the last of the keys that have an address.
* `KeyState.Tabled` — what the tables are, whichever calls have been made.
* `signedByAddress_exact_iff` — when the answer for an address is the right one.
* `signedByAddress_simulates` — without keys that could sign, this is the `signedByAddress` of the
  search that decides on authorities.

Nothing is said of the hashes: they may collide, also for one key.
-/

set_option autoImplicit false

namespace Graphene

/-! ## The tables -/

/-- The hashes of a key that are its addresses. -/
inductive AddressForm where
  /-- `pts_address( key, false, 56 )`. -/
  | uncompressed56
  /-- `pts_address( key, true, 56 )`. -/
  | compressed56
  /-- `pts_address( key, false, 0 )`. -/
  | uncompressed0
  /-- `pts_address( key, true, 0 )`. -/
  | compressed0
  /-- `address( key )`. -/
  | plain
deriving DecidableEq

/-- The forms, in the order in which they are entered. -/
def AddressForm.all : List AddressForm :=
  [.uncompressed56, .compressed56, .uncompressed0, .compressed0, .plain]

theorem AddressForm.mem_all (form : AddressForm) : form ∈ AddressForm.all := by
  cases form <;> decide

variable {A K : Type} [DecidableEq A] (address : AddressForm → K → A)

/-- A key has an address in one of the forms. -/
def HasAddress (a : A) (k : K) : Prop := ∃ form, address form k = a

instance (a : A) (k : K) : Decidable (HasAddress address a k) :=
  decidable_of_iff (∃ form ∈ AddressForm.all, address form k = a)
    ⟨fun ⟨form, _, h⟩ ↦ ⟨form, h⟩, fun ⟨form, h⟩ ↦ ⟨form, form.mem_all, h⟩⟩

/-- What the loop over a set of keys enters for one of them. -/
def enter (table : A → Option K) (k : K) : A → Option K :=
  AddressForm.all.foldl (fun table form ↦ Function.update table (address form k) (some k)) table

attribute [local instance] isTrans_keys antisymm_keys

/-- The loop over a set of keys. -/
def tabulate [LinearOrder K] (keys : Finset K) : A → Option K :=
  (keys.sort (· ≤ ·)).foldl (enter address) fun _ ↦ none

variable {address} {a : A} {k : K}

theorem foldl_update_apply (forms : List AddressForm) (table : A → Option K) :
    forms.foldl (fun table form ↦ Function.update table (address form k) (some k)) table a =
      if ∃ form ∈ forms, address form k = a then some k else table a := by
  induction forms generalizing table with
  | nil => simp
  | cons form forms ih =>
    rw [List.foldl_cons, ih]
    by_cases hrest : ∃ form ∈ forms, address form k = a
    · have hall : ∃ f ∈ form :: forms, address f k = a :=
        hrest.imp fun f hf ↦ ⟨List.mem_cons_of_mem _ hf.1, hf.2⟩
      rw [if_pos hrest, if_pos hall]
    · rw [if_neg hrest, Function.update_apply]
      refine if_congr ⟨fun h ↦ ⟨form, List.mem_cons_self, h.symm⟩, ?_⟩ rfl rfl
      rintro ⟨f, hf, hfa⟩
      rcases List.mem_cons.1 hf with rfl | hf
      · exact hfa.symm
      · exact absurd ⟨f, hf, hfa⟩ hrest

theorem enter_apply (table : A → Option K) :
    enter address table k a = if HasAddress address a k then some k else table a := by
  rw [enter, foldl_update_apply]
  exact if_congr ⟨fun ⟨form, _, h⟩ ↦ ⟨form, h⟩, fun ⟨form, h⟩ ↦ ⟨form, form.mem_all, h⟩⟩ rfl rfl

theorem foldl_enter (keys : List K) (table : A → Option K) :
    keys.foldl (enter address) table a =
      (keys.reverse.find? (HasAddress address a)).or (table a) := by
  induction keys generalizing table with
  | nil => rfl
  | cons key keys ih =>
    rw [List.foldl_cons, ih, enter_apply, List.reverse_cons, List.find?_append, Option.or_assoc]
    congr 1
    by_cases h : HasAddress address a key <;> simp [h]

variable [LinearOrder K]

/-- **A table** has for an address the last of the keys that have it. -/
theorem tabulate_eq (keys : Finset K) :
    tabulate address keys a =
      (keys.sort (· ≤ ·)).reverse.find? (HasAddress address a) := by
  rw [tabulate, foldl_enter, Option.or_none]

theorem of_tabulate_eq_some {keys : Finset K} (h : tabulate address keys a = some k) :
    k ∈ keys ∧ HasAddress address a k := by
  rw [tabulate_eq] at h
  have hmem := List.mem_of_find?_eq_some h
  rw [List.mem_reverse, Finset.mem_sort] at hmem
  have hhas := List.find?_some h
  exact ⟨hmem, of_decide_eq_true hhas⟩

theorem tabulate_eq_none {keys : Finset K} :
    tabulate address keys a = none ↔ ∀ k ∈ keys, ¬HasAddress address a k := by
  rw [tabulate_eq, List.find?_eq_none]
  simp only [List.mem_reverse, Finset.mem_sort, decide_eq_true_eq]

/-! ## `signed_by` -/

/-- What `sign_state` knows of keys and addresses. -/
structure KeyState (A K : Type) where
  /-- `available_keys`. -/
  availableKeys : Finset K
  /-- The keys of `provided_signatures`. -/
  provided : Finset K
  /-- The keys whose flag in `provided_signatures` is set. -/
  used : Finset K
  /-- `available_address_sigs`. -/
  availableAddressSigs : Option (A → Option K)
  /-- `provided_address_sigs`. -/
  providedAddressSigs : Option (A → Option K)

namespace KeyState

/-- What `sign_state` is made of, before it has been asked for anything. -/
def start (availableKeys provided : Finset K) : KeyState A K :=
  ⟨availableKeys, provided, ∅, none, none⟩

/-- `provided_signatures[k] = true`. -/
def record (s : KeyState A K) (k : K) : KeyState A K :=
  { s with provided := insert k s.provided, used := insert k s.used }

/-- `signed_by`, for a key. -/
def signedByKey (s : KeyState A K) (k : K) : Bool × KeyState A K :=
  if k ∈ s.provided then (true, { s with used := insert k s.used })
  else if k ∈ s.availableKeys then (true, s.record k)
  else (false, s)

variable (address)

/-- The first statement of `signed_by` for an address. -/
def setUp (s : KeyState A K) : KeyState A K :=
  match s.availableAddressSigs with
  | some _ => s
  | none =>
    { s with
      availableAddressSigs := some (tabulate address s.availableKeys)
      providedAddressSigs := some (tabulate address s.provided) }

/-- `signed_by`, for an address: nothing, if it reads what is not there. -/
def signedByAddress (s : KeyState A K) (a : A) : Option (Bool × KeyState A K) := do
  let s := s.setUp address
  match (← s.providedAddressSigs) a with
  | some k => some (true, s.record k)
  | none =>
    match (← s.availableAddressSigs) a with
    | some k => if k ∈ s.availableKeys then some (true, s.record k) else some (false, s)
    -- `itr->second` of the end of `provided_address_sigs`
    | none => none

/-- What there can be after any number of calls. -/
inductive Reached : KeyState A K → Prop
  /-- No call has been made. -/
  | start (availableKeys provided : Finset K) : Reached (start availableKeys provided)
  /-- A call for a key. -/
  | key {s : KeyState A K} (k : K) : Reached s → Reached (s.signedByKey k).2
  /-- A call for an address that comes to an end. -/
  | address {s s' : KeyState A K} {a : A} {result : Bool} :
    Reached s → s.signedByAddress address a = some (result, s') → Reached s'

/-- **What is asked of `signed_by`**: it comes to an end, tells whether a key that has signed or
could sign has the address, and sets the flag of such a key. -/
def Exact (s : KeyState A K) (a : A) : Prop :=
  ∃ result s', s.signedByAddress address a = some (result, s') ∧
    (result = true ↔ ∃ k ∈ s.provided ∪ s.availableKeys, HasAddress address a k) ∧
    (result = true → ∃ k ∈ s.provided ∪ s.availableKeys, HasAddress address a k ∧
      s'.provided = insert k s.provided ∧ s'.used = insert k s.used)

/-- What the tables are, whichever calls have been made: they are those of the available keys, and
of the signatures that there were when they were set up.  Only available keys have come since. -/
inductive Tabled (s : KeyState A K) : Prop
  /-- They have not been set up. -/
  | unset (available : s.availableAddressSigs = none) (provided : s.providedAddressSigs = none)
  /-- They have been set up when `keys` had signed. -/
  | set (keys : Finset K)
    (available : s.availableAddressSigs = some (tabulate address s.availableKeys))
    (provided : s.providedAddressSigs = some (tabulate address keys))
    (subset : keys ⊆ s.provided) (since : s.provided ⊆ keys ∪ s.availableKeys)

variable {address} {s s' : KeyState A K} {result : Bool}

theorem Tabled.record (h : s.Tabled address) (hk : k ∈ s.provided ∪ s.availableKeys) :
    (s.record k).Tabled address := by
  cases h with
  | unset available provided => exact .unset available provided
  | set keys available provided subset since =>
    refine .set keys available provided (subset.trans (Finset.subset_insert k _)) ?_
    show insert k s.provided ⊆ keys ∪ s.availableKeys
    rw [Finset.insert_subset_iff]
    refine ⟨?_, since⟩
    rcases Finset.mem_union.1 hk with hk | hk
    · exact since hk
    · exact Finset.mem_union_right _ hk

theorem Tabled.signedByKey (h : s.Tabled address) (k : K) :
    (s.signedByKey k).2.Tabled address := by
  rw [KeyState.signedByKey]
  split_ifs with hprovided havailable
  · cases h with
    | unset available provided => exact .unset available provided
    | set keys available provided subset since => exact .set keys available provided subset since
  · exact h.record (Finset.mem_union_right _ havailable)
  · exact h

/-- The tables, when they are set up. -/
theorem Tabled.setUp_eq (h : s.Tabled address) :
    ∃ keys, keys ⊆ s.provided ∧ s.provided ⊆ keys ∪ s.availableKeys ∧
      s.setUp address =
        { s with
          availableAddressSigs := some (tabulate address s.availableKeys)
          providedAddressSigs := some (tabulate address keys) } := by
  cases h with
  | unset available provided =>
    refine ⟨s.provided, Finset.Subset.refl _, Finset.subset_union_left, ?_⟩
    rw [setUp, available]
  | set keys available provided subset since =>
    refine ⟨keys, subset, since, ?_⟩
    rw [setUp, available]
    obtain ⟨_, _, _, _, _⟩ := s
    dsimp only at available provided ⊢
    rw [available, provided]

theorem Tabled.setUp (h : s.Tabled address) : (s.setUp address).Tabled address := by
  obtain ⟨keys, hsubset, hsince, heq⟩ := h.setUp_eq
  rw [heq]
  exact .set keys rfl rfl hsubset hsince

@[simp] theorem setUp_provided : (s.setUp address).provided = s.provided := by
  rw [KeyState.setUp]
  split <;> rfl

@[simp] theorem setUp_used : (s.setUp address).used = s.used := by
  rw [KeyState.setUp]
  split <;> rfl

@[simp] theorem setUp_availableKeys : (s.setUp address).availableKeys = s.availableKeys := by
  rw [KeyState.setUp]
  split <;> rfl

/-- An address that a key at hand has. -/
theorem Tabled.signedByAddress_of_has (h : s.Tabled address)
    (hhas : ∃ k ∈ s.provided ∪ s.availableKeys, HasAddress address a k) :
    ∃ k ∈ s.provided ∪ s.availableKeys, HasAddress address a k ∧
      s.signedByAddress address a = some (true, (s.setUp address).record k) := by
  obtain ⟨keys, hsubset, hsince, heq⟩ := h.setUp_eq
  rw [KeyState.signedByAddress, heq]
  dsimp only [Option.bind_eq_bind, Option.bind_some]
  cases hprovided : tabulate address keys a with
  | some k =>
    obtain ⟨hk, hka⟩ := of_tabulate_eq_some hprovided
    exact ⟨k, Finset.mem_union_left _ (hsubset hk), hka, rfl⟩
  | none =>
    cases havailable : tabulate address s.availableKeys a with
    | some k =>
      obtain ⟨hk, hka⟩ := of_tabulate_eq_some havailable
      exact ⟨k, Finset.mem_union_right _ hk, hka, if_pos hk⟩
    | none =>
      -- neither table has the address, so that no key has it
      obtain ⟨k, hk, hka⟩ := hhas
      have hk : k ∈ keys ∪ s.availableKeys :=
        Finset.union_subset hsince Finset.subset_union_right hk
      rcases Finset.mem_union.1 hk with hk | hk
      · exact absurd hka (tabulate_eq_none.1 hprovided k hk)
      · exact absurd hka (tabulate_eq_none.1 havailable k hk)

/-- An address that no key at hand has. -/
theorem Tabled.signedByAddress_of_not_has (h : s.Tabled address)
    (hhas : ¬∃ k ∈ s.provided ∪ s.availableKeys, HasAddress address a k) :
    s.signedByAddress address a = none := by
  obtain ⟨keys, hsubset, -, heq⟩ := h.setUp_eq
  have hprovided : tabulate address keys a = none :=
    tabulate_eq_none.2 fun k hk hka ↦ hhas ⟨k, Finset.mem_union_left _ (hsubset hk), hka⟩
  have havailable : tabulate address s.availableKeys a = none :=
    tabulate_eq_none.2 fun k hk hka ↦ hhas ⟨k, Finset.mem_union_right _ hk, hka⟩
  rw [KeyState.signedByAddress, heq]
  dsimp only [Option.bind_eq_bind, Option.bind_some]
  rw [hprovided, havailable]

/-- **The tables are right**, whichever calls have been made. -/
theorem Reached.tabled (h : Reached address s) : s.Tabled address := by
  induction h with
  | start availableKeys provided => exact .unset rfl rfl
  | key k _ ih => exact ih.signedByKey k
  | @address s s' a result _ hcall ih =>
    by_cases hhas : ∃ k ∈ s.provided ∪ s.availableKeys, HasAddress address a k
    · obtain ⟨k, hk, -, heq⟩ := ih.signedByAddress_of_has hhas
      obtain ⟨-, rfl⟩ := Prod.mk.inj (Option.some.inj (heq.symm.trans hcall))
      refine ih.setUp.record ?_
      rwa [setUp_provided, setUp_availableKeys]
    · cases (ih.signedByAddress_of_not_has hhas).symm.trans hcall

end KeyState

open KeyState

/-- **`signed_by` for an address**, whichever calls have been made before, is right exactly for the
addresses that a key at hand has.  For any other it reads past the end of a table. -/
theorem signedByAddress_exact_iff {s : KeyState A K} (h : Reached address s) (a : A) :
    s.Exact address a ↔ ∃ k ∈ s.provided ∪ s.availableKeys, HasAddress address a k := by
  constructor
  · rintro ⟨result, s', hcall, -⟩
    by_contra hhas
    cases (h.tabled.signedByAddress_of_not_has hhas).symm.trans hcall
  · intro hhas
    obtain ⟨k, hk, hka, hcall⟩ := h.tabled.signedByAddress_of_has hhas
    refine ⟨true, _, hcall, iff_of_true rfl hhas, fun _ ↦ ⟨k, hk, hka, ?_, ?_⟩⟩
    · exact congrArg (insert k) setUp_provided
    · exact congrArg (insert k) setUp_used

/-- The key `7` could sign, and it is asked for what is its address in the last form. -/
theorem signedByAddress_exact_seven :
    (start {7} ∅ : KeyState (AddressForm × ℕ) ℕ).Exact (fun form k ↦ (form, k)) (.plain, 7) :=
  (signedByAddress_exact_iff (.start {7} ∅) _).2
    ⟨7, by decide, .plain, rfl⟩

/-- Nobody has signed and nobody could: the answer should be no, and there is none. -/
theorem signedByAddress_reads_past_end :
    (start ∅ ∅ : KeyState (AddressForm × ℕ) ℕ).signedByAddress (fun form k ↦ (form, k))
        (.plain, 7) =
        none ∧
      ¬(start ∅ ∅ : KeyState (AddressForm × ℕ) ℕ).Exact (fun form k ↦ (form, k)) (.plain, 7) := by
  have hnone : (start ∅ ∅ : KeyState (AddressForm × ℕ) ℕ).signedByAddress (fun form k ↦ (form, k))
      (.plain, 7) = none := by
    refine (Tabled.unset rfl rfl).signedByAddress_of_not_has ?_
    rintro ⟨k, hk, -⟩
    exact absurd hk (Finset.notMem_empty k)
  refine ⟨hnone, ?_⟩
  rintro ⟨result, s', hcall, -⟩
  cases hnone.symm.trans hcall

/-! ## The search for authorities -/

local instance neZero_forms : NeZero 5 := ⟨by decide⟩

/-- The number of a form. -/
def AddressForm.index : AddressForm → Fin 5
  | uncompressed56 => 0
  | compressed56 => 1
  | uncompressed0 => 2
  | compressed0 => 3
  | plain => 4

theorem AddressForm.exists_index (i : Fin 5) : ∃ form : AddressForm, form.index = i := by
  match i with
  | 0 => exact ⟨.uncompressed56, rfl⟩
  | 1 => exact ⟨.compressed56, rfl⟩
  | 2 => exact ⟨.uncompressed0, rfl⟩
  | 3 => exact ⟨.compressed0, rfl⟩
  | 4 => exact ⟨.plain, rfl⟩

/-- An address, when it is known what it is a hash of. -/
def AddressForm.of (form : AddressForm) (k : K) : Address K := ⟨k, form.index⟩

omit [LinearOrder K] in
theorem hasAddress_of_iff {a : Address K} {k : K} : HasAddress AddressForm.of a k ↔ k = a.key := by
  constructor
  · rintro ⟨form, rfl⟩
    rfl
  · rintro rfl
    obtain ⟨form, hform⟩ := AddressForm.exists_index a.form
    exact ⟨form, by rw [AddressForm.of, hform]⟩

/-- **Without keys that could sign**, the answers are those that the search for authorities gets,
and the search knows when one of them is none. -/
theorem signedByAddress_simulates {s : KeyState (Address K) K} {t : SignState K}
    (h : Reached AddressForm.of s) (havailable : s.availableKeys = ∅)
    (hprovided : s.provided = t.provided) (hused : s.used = t.used) (a : Address K) :
    (∃ s', s.signedByAddress AddressForm.of a = some ((signedByAddress a t).1, s') ∧
        s'.availableKeys = ∅ ∧ s'.provided = (signedByAddress a t).2.provided ∧
        s'.used = (signedByAddress a t).2.used) ∨
      s.signedByAddress AddressForm.of a = none ∧ (signedByAddress a t).2.pastEnd = true := by
  have hhas : (∃ k ∈ s.provided ∪ s.availableKeys, HasAddress AddressForm.of a k) ↔
      a.key ∈ t.provided := by
    rw [havailable, Finset.union_empty, hprovided]
    simp only [hasAddress_of_iff, exists_eq_right]
  rw [signedByAddress]
  by_cases hkey : a.key ∈ t.provided
  · obtain ⟨k, -, hka, hcall⟩ := h.tabled.signedByAddress_of_has (hhas.2 hkey)
    obtain rfl := hasAddress_of_iff.1 hka
    rw [if_pos hkey]
    refine .inl ⟨_, hcall, setUp_availableKeys.trans havailable, ?_, ?_⟩
    · show insert a.key (s.setUp AddressForm.of).provided = t.provided
      rw [setUp_provided, hprovided, Finset.insert_eq_of_mem hkey]
    · show insert a.key (s.setUp AddressForm.of).used = insert a.key t.used
      rw [setUp_used, hused]
  · rw [if_neg hkey]
    exact .inr ⟨h.tabled.signedByAddress_of_not_has (hhas.not.2 hkey), rfl⟩

end Graphene
