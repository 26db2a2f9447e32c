import Mathlib.Data.List.DropRight
import Mathlib.Data.List.Sort
import Mathlib.Logic.Function.Basic

/-!
# The three kinds of index

`generic_index` keeps its objects in a `multi_index_container`, `simple_index` in a vector of
pointers and `flat_index` in a vector of objects.  Each is to be a map from instance numbers to
objects; that is what their users, undo and loading among them, take them for.  But a modifier that
throws makes the container drop the object, a constructor that throws leaves its object in either
vector, `flat_index` has no way of saying that there is no object, and the iterator of
`simple_index` starts at the first pointer even if that is null.

* `Container` — what an index does and answers; `genericIndex`, `simpleIndex`, `flatIndex`.
* `IndexRun.step` — a call, of the index and of the map it is to be.
* `Represents` — the index answers as the map does.
* `index_refines_map` — the runs along which it does, for each kind, and where the first call that
  is not of this sort leads.
-/

set_option autoImplicit false

namespace Graphene

/-- An object: the instance of its id, and all that is not its id. -/
structure Obj (T : Type) where
  /-- The instance. -/
  id : ℕ
  /-- The other fields. -/
  value : T
deriving DecidableEq

/-- How a function that changes something ends: what it leaves, and whether it throws. -/
structure Exit (S : Type) where
  /-- What it leaves. -/
  value : S
  /-- It throws. -/
  threw : Bool

/-- An index on a state `S`, with objects that have the fields `T`. -/
structure Container (T S : Type) where
  /-- `create`, with `get_next_id()` and a constructor. -/
  create : ℕ → (T → Exit T) → S → Exit S
  /-- `insert`. -/
  insert : ℕ → T → S → Exit S
  /-- `modify`. -/
  modify : ℕ → (T → Exit T) → S → Exit S
  /-- `remove`. -/
  remove : ℕ → S → Exit S
  /-- `find`. -/
  find : S → ℕ → Option (Obj T)
  /-- The objects that `inspect_all_objects` goes through. -/
  inspect : S → List (Obj T)
  /-- The objects from `begin()` to `end()`, unless the iterator stands on a null pointer. -/
  iterate : S → Option (List (Obj T))

variable {T : Type}

/-! ## `generic_index` -/

section generic

variable [Inhabited T] (sharesKey : T → T → Bool)

/-- Insert an object into the container; no, if there is one with the same id or a secondary key
in common. -/
def emplace (o : Obj T) (s : List (Obj T)) : Exit (List (Obj T)) :=
  if s.any fun o' ↦ o'.id = o.id ∨ sharesKey o'.value o.value then ⟨s, true⟩
  else ⟨s.orderedInsert (fun a b ↦ a.id ≤ b.id) o, false⟩

/-- `generic_index`, whose container is unique by id and by the keys of which `sharesKey` says
whether two objects have one in common.  Its `modify` drops the object if the modifier throws or
gives it a key of another. -/
def genericIndex : Container T (List (Obj T)) where
  create i constructor s :=
    let item := constructor default
    if item.threw then ⟨s, true⟩ else emplace sharesKey ⟨i, item.value⟩ s
  insert i t s := emplace sharesKey ⟨i, t⟩ s
  modify i modifier s :=
    match s.find? (·.id = i) with
    | some o =>
      let item := modifier o.value
      let others := s.filter (·.id ≠ i)
      if item.threw then ⟨others, true⟩ else emplace sharesKey ⟨i, item.value⟩ others
    | none => ⟨s, true⟩
  remove i s := ⟨s.filter (·.id ≠ i), false⟩
  find s i := s.find? (·.id = i)
  inspect s := s
  iterate s := some s

end generic

/-! ## `simple_index` -/

/-- `resize`, where the vector is shorter. -/
def growTo {X : Type} (n : ℕ) (x : X) (s : List X) : List X :=
  s ++ List.replicate (n - s.length) x

/-- The objects of a vector of pointers, from the pointer number `i` on. -/
def inspectFrom : ℕ → List (Option T) → List (Obj T)
  | _, [] => []
  | i, none :: s => inspectFrom (i + 1) s
  | i, some t :: s => ⟨i, t⟩ :: inspectFrom (i + 1) s

/-- The pointer at an instance; null beyond the end. -/
def slot (s : List (Option T)) (i : ℕ) : Option T := s[i]?.join

/-- `simple_index`: a vector of pointers. -/
def simpleIndex [Inhabited T] : Container T (List (Option T)) where
  create i constructor s :=
    let item := constructor default
    ⟨(growTo (i + 1) none s).set i (some item.value), item.threw⟩
  insert i t s := ⟨(growTo (i + 1) none s).set i (some t), false⟩
  modify i modifier s :=
    match slot s i with
    | some t =>
      let item := modifier t
      ⟨s.set i (some item.value), item.threw⟩
    | none => ⟨s, true⟩
  remove i s := ⟨(s.set i none).rdropWhile Option.isNone, false⟩
  find s i := (slot s i).map (Obj.mk i)
  inspect s := inspectFrom 0 s
  -- `begin()` does not look for the first pointer that is not null, as `operator++` does
  iterate s :=
    match s with
    | none :: _ => none
    | _ => some (inspectFrom 0 s)

/-! ## `flat_index` -/

/-- `T()`. -/
def defaultObj [Inhabited T] : Obj T := ⟨0, default⟩

/-- `flat_index`: a vector of objects. -/
def flatIndex [Inhabited T] : Container T (List (Obj T)) where
  create i constructor s :=
    let s := growTo (i + 1) defaultObj s
    -- the constructor gets what there is at the instance
    let item := constructor (s.getD i defaultObj).value
    ⟨s.set i ⟨i, item.value⟩, item.threw⟩
  insert i t s := ⟨(growTo (i + 1) defaultObj s).set i ⟨i, t⟩, false⟩
  modify i modifier s :=
    match s[i]? with
    | some o =>
      let item := modifier o.value
      ⟨s.set i ⟨o.id, item.value⟩, item.threw⟩
    | none => ⟨s, true⟩
  remove i s := ⟨s.set i defaultObj, false⟩
  find s i := s[i]?
  inspect s := s
  iterate s := some s

/-! ## Runs -/

/-- A call of an index. -/
inductive IndexCall (T : Type) where
  /-- `create`. -/
  | create (constructor : T → Exit T)
  /-- `insert` of an object, as undo and loading do. -/
  | insert (i : ℕ) (t : T)
  /-- `modify`. -/
  | modify (i : ℕ) (modifier : T → Exit T)
  /-- `remove`. -/
  | remove (i : ℕ)
  /-- `set_next_id`, as undo and loading do. -/
  | setNextId (n : ℕ)

/-- An index, and the map it is to be. -/
structure IndexRun (T S : Type) where
  /-- The index. -/
  index : S
  /-- `_next_id`. -/
  next : ℕ
  /-- The objects there are. -/
  objects : ℕ → Option T

namespace IndexRun

variable {S : Type}

/-- What is next after something that changes the index, and the map unless it throws. -/
def after (r : IndexRun T S) (x : Exit S) (next : ℕ) (objects : ℕ → Option T) : IndexRun T S :=
  { index := x.value
    next := bif x.threw then r.next else next
    objects := bif x.threw then r.objects else objects }

/-- A call.  In the map, it does what its name says, or nothing if it throws. -/
def step [Inhabited T] (C : Container T S) (r : IndexRun T S) : IndexCall T → IndexRun T S
  | .create constructor => r.after (C.create r.next constructor r.index) (r.next + 1)
      (Function.update r.objects r.next (some (constructor default).value))
  | .insert i t => r.after (C.insert i t r.index) r.next (Function.update r.objects i (some t))
  | .modify i modifier => r.after (C.modify i modifier r.index) r.next
      (Function.update r.objects i ((r.objects i).map fun t ↦ (modifier t).value))
  | .remove i => r.after (C.remove i r.index) r.next (Function.update r.objects i none)
  | .setNextId n => { r with next := n }

/-- A call that a user makes: of an object that there is, or with an id that is free and has been
given out. -/
def Proper (r : IndexRun T S) : IndexCall T → Prop
  | .create _ => True
  | .insert i _ => r.objects i = none ∧ i < r.next
  | .modify i _ => (r.objects i).isSome
  | .remove i => (r.objects i).isSome
  | .setNextId n => ∀ i, (r.objects i).isSome → i < n

/-- No object has an id that is yet to be given out. -/
def Fresh (r : IndexRun T S) : Prop := ∀ i, (r.objects i).isSome → i < r.next

end IndexRun

/-- The list has each object of the map once, and nothing else. -/
def Visits (l : List (Obj T)) (objects : ℕ → Option T) : Prop :=
  (l.map Obj.id).Nodup ∧ ∀ i t, ⟨i, t⟩ ∈ l ↔ objects i = some t

/-- **The index answers as the map does.** -/
structure Represents {S : Type} (C : Container T S) (s : S) (objects : ℕ → Option T) : Prop where
  /-- `find` gives an object exactly if there is one, with its value. -/
  find : ∀ i, C.find s i = (objects i).map (Obj.mk i)
  /-- `inspect_all_objects` visits each object once. -/
  inspect : Visits (C.inspect s) objects
  /-- So do the iterators. -/
  iterate : ∃ l, C.iterate s = some l ∧ Visits l objects

/-! ## `generic_index` is a map -/

section generic

variable {sharesKey : T → T → Bool} {s : List (Obj T)} {objects : ℕ → Option T}

/-- Looking for an id in a list that has each object once. -/
theorem Visits.find (h : Visits s objects) (i : ℕ) :
    s.find? (·.id = i) = (objects i).map (Obj.mk i) := by
  cases hi : objects i with
  | none =>
    rw [Option.map_none, List.find?_eq_none]
    rintro ⟨j, t⟩ ho hid
    obtain rfl : j = i := by simpa using hid
    rw [(h.2 j t).1 ho] at hi
    cases hi
  | some t =>
    have hmem : (⟨i, t⟩ : Obj T) ∈ s := (h.2 i t).2 hi
    cases hfind : s.find? (·.id = i) with
    | none => exact absurd (List.find?_eq_none.1 hfind _ hmem) (by simp)
    | some o =>
      obtain ⟨j, t'⟩ := o
      obtain rfl : j = i := by simpa using List.find?_some hfind
      have hsome := (h.2 j t').1 (List.mem_of_find?_eq_some hfind)
      rw [hi] at hsome
      obtain rfl := Option.some_inj.1 hsome
      rfl

theorem represents_generic [Inhabited T] :
    Represents (genericIndex sharesKey) s objects ↔ Visits s objects := by
  constructor
  · exact fun h ↦ h.inspect
  · exact fun h ↦ ⟨h.find, h, s, rfl, h⟩

/-- Nothing with the id `i`. -/
theorem Visits.filter (h : Visits s objects) (i : ℕ) :
    Visits (s.filter (·.id ≠ i)) (Function.update objects i none) := by
  refine ⟨h.1.sublist (List.filter_sublist.map _), fun j t ↦ ?_⟩
  rw [List.mem_filter, h.2 j t]
  by_cases hj : j = i
  · subst hj
    simp
  · simp [hj]

/-- A new object, with an id that is free. -/
theorem Visits.orderedInsert (h : Visits s objects) {i : ℕ} (hi : objects i = none) (t : T) :
    Visits (s.orderedInsert (fun a b ↦ a.id ≤ b.id) ⟨i, t⟩)
      (Function.update objects i (some t)) := by
  have hperm := List.perm_orderedInsert (fun a b : Obj T ↦ a.id ≤ b.id) ⟨i, t⟩ s
  constructor
  · rw [(hperm.map Obj.id).nodup_iff, List.map_cons, List.nodup_cons]
    refine ⟨fun hmem ↦ ?_, h.1⟩
    obtain ⟨⟨j, t'⟩, ho, rfl⟩ := List.mem_map.1 hmem
    rw [(h.2 j t').1 ho] at hi
    cases hi
  · intro j t'
    rw [hperm.mem_iff, List.mem_cons, h.2 j t']
    by_cases hj : j = i
    · subst hj
      simp [hi, eq_comm]
    · simp [hj]

/-- The container takes an object whose id is free unless another has one of its keys. -/
theorem Visits.emplace (h : Visits s objects) {i : ℕ} (hi : objects i = none) (t : T) :
    Visits (emplace sharesKey ⟨i, t⟩ s).value (bif (Graphene.emplace sharesKey ⟨i, t⟩ s).threw
      then objects else Function.update objects i (some t)) := by
  rw [Graphene.emplace]
  split
  · exact h
  · exact h.orderedInsert hi t

theorem threw_emplace {o : Obj T} : (Graphene.emplace sharesKey o s).threw = true ↔
    ∃ o' ∈ s, o'.id = o.id ∨ sharesKey o'.value o.value = true := by
  rw [Graphene.emplace]
  split <;> simp_all

theorem value_emplace {o : Obj T} (h : (Graphene.emplace sharesKey o s).threw = true) :
    (Graphene.emplace sharesKey o s).value = s := by
  rw [Graphene.emplace] at h ⊢
  split at h
  · rw [if_pos ‹_›]
  · cases h

/-- The modifications that `generic_index` survives: the modifier returns, and no other object has
a key in common with what it makes. -/
def GenericOk {S : Type} (sharesKey : T → T → Bool) (r : IndexRun T S) : IndexCall T → Prop
  | .modify i modifier => ∀ t, r.objects i = some t → (modifier t).threw = false ∧
      ∀ j t', j ≠ i → r.objects j = some t' → sharesKey t' (modifier t).value = false
  | _ => True

end generic

/-- The calls that keep an index answering as the map does are the ones that meet `Ok`. -/
def Exact [Inhabited T] {S : Type} (C : Container T S)
    (Ok : IndexRun T S → IndexCall T → Prop) : Prop :=
  ∀ (r : IndexRun T S) (call : IndexCall T), Represents C r.index r.objects → r.Fresh →
    r.Proper call → (Represents C (r.step C call).index (r.step C call).objects ↔ Ok r call)

theorem IndexRun.Fresh.next {S : Type} {r : IndexRun T S} (h : r.Fresh) :
    r.objects r.next = none := by
  by_contra hne
  exact Nat.lt_irrefl _ (h r.next (Option.isSome_iff_ne_none.2 hne))

theorem generic_exact [Inhabited T] (sharesKey : T → T → Bool) :
    Exact (genericIndex sharesKey) (GenericOk sharesKey) := by
  intro r call hagrees hfresh hproper
  rw [represents_generic] at hagrees ⊢
  cases call with
  | create constructor =>
    refine iff_of_true ?_ trivial
    rw [IndexRun.step, IndexRun.after, genericIndex]
    dsimp only
    split
    · exact hagrees
    · exact hagrees.emplace hfresh.next _
  | insert i t =>
    exact iff_of_true (hagrees.emplace hproper.1 t) trivial
  | modify i modifier =>
    obtain ⟨t, ht⟩ := Option.isSome_iff_exists.1 hproper
    have hfind := hagrees.find i
    have hothers := hagrees.filter i
    have hdropped : ¬ Visits (r.index.filter (·.id ≠ i)) r.objects := by
      intro hvisits
      have hmem := (hvisits.2 i t).2 ht
      simp at hmem
    rw [ht, Option.map_some] at hfind
    simp only [IndexRun.step, IndexRun.after, genericIndex, hfind, ht, Option.map_some]
    cases hthrew : (modifier t).threw with
    | true =>
      refine iff_of_false hdropped fun hok ↦ ?_
      simpa [hthrew] using (hok t ht).1
    | false =>
      have hnone : Function.update r.objects i none i = none := Function.update_self ..
      have hemplace : Visits (emplace sharesKey ⟨i, (modifier t).value⟩
          (r.index.filter (·.id ≠ i))).value _ := hothers.emplace hnone (modifier t).value
      rw [if_neg Bool.false_ne_true]
      cases hshares : (emplace sharesKey ⟨i, (modifier t).value⟩
          (r.index.filter (·.id ≠ i))).threw with
      | true =>
        obtain ⟨⟨j, t'⟩, hmem, hclash⟩ := threw_emplace.1 hshares
        have hj := (hothers.2 j t').1 hmem
        have hne : j ≠ i := by
          rintro rfl
          rw [Function.update_self] at hj
          cases hj
        rw [Function.update_of_ne hne] at hj
        refine iff_of_false ?_ fun hok ↦ ?_
        · rw [value_emplace hshares]
          exact hdropped
        · have hshares' := (hok t ht).2 j t' hne hj
          simp [hne, hshares'] at hclash
      | false =>
        rw [hshares, cond_false, Function.update_idem] at hemplace
        refine iff_of_true hemplace fun t₁ ht₁ ↦ ?_
        obtain rfl := Option.some_inj.1 (ht.symm.trans ht₁)
        refine ⟨hthrew, fun j t' hne hj ↦ ?_⟩
        by_contra hclash
        have hmem := (hothers.2 j t').2 (by rw [Function.update_of_ne hne, hj])
        rw [Bool.not_eq_false] at hclash
        rw [threw_emplace.2 ⟨_, hmem, .inr hclash⟩] at hshares
        cases hshares
  | remove i => exact iff_of_true (hagrees.filter i) trivial
  | setNextId n => exact iff_of_true hagrees trivial

/-! ## `simple_index` is one while it has its first object -/

section simple

variable {s : List (Option T)} {objects : ℕ → Option T}

theorem length_growTo {X : Type} (n : ℕ) (x : X) (s : List X) :
    (growTo n x s).length = max n s.length := by
  rw [growTo, List.length_append, List.length_replicate]
  omega

theorem slot_growTo (n : ℕ) (s : List (Option T)) (i : ℕ) :
    slot (growTo n none s) i = slot s i := by
  rw [slot, slot, growTo]
  by_cases hi : i < s.length
  · rw [List.getElem?_append_left hi]
  · rw [List.getElem?_append_right (by omega), List.getElem?_eq_none (by omega : s.length ≤ i),
      List.getElem?_replicate]
    split <;> rfl

theorem slot_set {i : ℕ} (hi : i < s.length) (x : Option T) (j : ℕ) :
    slot (s.set i x) j = if j = i then x else slot s j := by
  rw [slot, slot, List.getElem?_set]
  by_cases hj : j = i
  · simp [hj, hi]
  · rw [if_neg (Ne.symm hj), if_neg hj]

theorem slot_rdropWhile (s : List (Option T)) (i : ℕ) :
    slot (s.rdropWhile Option.isNone) i = slot s i := by
  induction s using List.reverseRecOn with
  | nil => rfl
  | append_singleton s x ih =>
    rw [List.rdropWhile_concat]
    split
    · next hnone =>
      rw [ih, Option.isNone_iff_eq_none.1 hnone]
      exact (slot_growTo (s.length + 1) s i).symm.trans (by simp [growTo])
    · rfl

theorem lt_length_of_slot {i : ℕ} {t : T} (h : slot s i = some t) : i < s.length := by
  by_contra hlt
  rw [slot, List.getElem?_eq_none (by omega)] at h
  cases h

theorem slot_cons_succ (x : Option T) (s : List (Option T)) (i : ℕ) :
    slot (x :: s) (i + 1) = slot s i := by
  rw [slot, slot, List.getElem?_cons_succ]

theorem mem_inspectFrom {i j : ℕ} {t : T} :
    (⟨j, t⟩ : Obj T) ∈ inspectFrom i s ↔ ∃ k, j = i + k ∧ slot s k = some t := by
  induction s generalizing i with
  | nil => simp [inspectFrom, slot]
  | cons x s ih =>
    have hsplit : (∃ k, j = i + k ∧ slot (x :: s) k = some t) ↔
        j = i ∧ x = some t ∨ ∃ k, j = i + 1 + k ∧ slot s k = some t := by
      constructor
      · rintro ⟨k, hj, hslot⟩
        cases k with
        | zero => exact .inl ⟨hj, by simpa [slot] using hslot⟩
        | succ k => exact .inr ⟨k, by omega, by rwa [slot_cons_succ] at hslot⟩
      · rintro (⟨hj, rfl⟩ | ⟨k, hj, hslot⟩)
        · exact ⟨0, hj, by simp [slot]⟩
        · exact ⟨k + 1, by omega, by rwa [slot_cons_succ]⟩
    rw [hsplit]
    cases x with
    | none => simp [inspectFrom, ih]
    | some t' => simp [inspectFrom, ih, eq_comm]

theorem nodup_inspectFrom (s : List (Option T)) (i : ℕ) :
    ((inspectFrom i s).map Obj.id).Nodup := by
  induction s generalizing i with
  | nil => exact List.nodup_nil
  | cons x s ih =>
    cases x with
    | none => exact ih (i + 1)
    | some t =>
      rw [inspectFrom, List.map_cons, List.nodup_cons]
      refine ⟨fun hmem ↦ ?_, ih (i + 1)⟩
      obtain ⟨⟨j, t'⟩, ho, hid⟩ := List.mem_map.1 hmem
      obtain ⟨k, hk, -⟩ := mem_inspectFrom.1 ho
      dsimp only at hid
      omega

/-- The iterator does not start on a null pointer. -/
def Begins (s : List (Option T)) : Prop := s ≠ [] → (slot s 0).isSome

theorem represents_simple [Inhabited T] :
    Represents simpleIndex s objects ↔ (∀ i, slot s i = objects i) ∧ Begins s := by
  constructor
  · rintro ⟨hfind, -, l, hl, -⟩
    refine ⟨fun i ↦ ?_, fun hne ↦ ?_⟩
    · have hi := hfind i
      rw [simpleIndex] at hi
      exact Option.map_injective (fun _ _ h ↦ by injection h) hi
    · cases s with
      | nil => exact absurd rfl hne
      | cons x s =>
        cases x with
        | none => cases hl
        | some t => rfl
  · rintro ⟨hslot, hbegins⟩
    have hvisits : Visits (inspectFrom 0 s) objects := by
      refine ⟨nodup_inspectFrom s 0, fun i t ↦ ?_⟩
      rw [mem_inspectFrom, ← hslot]
      constructor
      · rintro ⟨k, rfl, hk⟩
        rwa [Nat.zero_add]
      · exact fun h ↦ ⟨i, (Nat.zero_add i).symm, h⟩
    refine ⟨fun i ↦ by rw [← hslot]; rfl, hvisits, inspectFrom 0 s, ?_, hvisits⟩
    cases s with
    | nil => rfl
    | cons x s =>
      cases x with
      | none => exact absurd (hbegins (List.cons_ne_nil _ _)) (by simp [slot])
      | some t => rfl

/-- The calls that `simple_index` survives: nothing throws that leaves something, and the first
object comes first and goes last. -/
def SimpleOk [Inhabited T] {S : Type} (r : IndexRun T S) : IndexCall T → Prop
  | .create constructor => (constructor default).threw = false ∧
      (r.next = 0 ∨ (r.objects 0).isSome)
  | .insert i _ => i = 0 ∨ (r.objects 0).isSome
  | .modify i modifier => ∀ t, r.objects i = some t → (modifier t).threw = true →
      (modifier t).value = t
  | .remove i => i = 0 → ∀ j, j ≠ 0 → r.objects j = none
  | .setNextId _ => True

/-- Setting a pointer of a vector that has been grown to have it. -/
theorem slot_set_growTo (hslot : ∀ i, slot s i = objects i) (i : ℕ) (t : T) (j : ℕ) :
    slot ((growTo (i + 1) none s).set i (some t)) j = Function.update objects i (some t) j := by
  have hlt : i < (growTo (i + 1) none s).length := by
    rw [length_growTo]
    omega
  rw [slot_set hlt, slot_growTo, hslot, Function.update_apply]

/-- The iterator of such a vector begins at an object if that is the first, or there is one. -/
theorem begins_set_growTo (hslot : ∀ i, slot s i = objects i) (i : ℕ) (t : T) :
    Begins ((growTo (i + 1) none s).set i (some t)) ↔ i = 0 ∨ (objects 0).isSome := by
  have hne : (growTo (i + 1) none s).set i (some t) ≠ [] := by
    rw [Ne, ← List.length_eq_zero_iff, List.length_set, length_growTo]
    omega
  rw [Begins, slot_set_growTo hslot]
  by_cases hi : i = 0
  · subst hi
    simp
  · rw [Function.update_of_ne (Ne.symm hi), or_iff_right hi]
    exact ⟨fun h ↦ h hne, fun h _ ↦ h⟩

/-- The vector is empty once the last object is gone. -/
theorem rdropWhile_isNone_eq_nil :
    s.rdropWhile Option.isNone = [] ↔ ∀ i, slot s i = none := by
  constructor
  · intro hnil i
    rw [← slot_rdropWhile, hnil]
    rfl
  · intro hnone
    rw [List.rdropWhile_eq_nil_iff]
    intro x hx
    obtain ⟨i, hi, rfl⟩ := List.getElem_of_mem hx
    have hslot := hnone i
    rw [slot, List.getElem?_eq_getElem hi, Option.join_some] at hslot
    rw [hslot]
    rfl

theorem simple_exact [Inhabited T] : Exact simpleIndex (SimpleOk (T := T)) := by
  intro r call hagrees hfresh hproper
  obtain ⟨hslot, hbegins⟩ := represents_simple.1 hagrees
  rw [represents_simple]
  cases call with
  | create constructor =>
    simp only [IndexRun.step, IndexRun.after, simpleIndex, begins_set_growTo hslot,
      slot_set_growTo hslot]
    cases hthrew : (constructor default).threw with
    | true =>
      refine iff_of_false (fun h ↦ ?_) fun h ↦ by simp [SimpleOk, hthrew] at h
      have hnew := h.1 r.next
      rw [cond_true, Function.update_self, hfresh.next] at hnew
      cases hnew
    | false => simp [SimpleOk, hthrew]
  | insert i t =>
    simp only [IndexRun.step, IndexRun.after, simpleIndex, begins_set_growTo hslot,
      slot_set_growTo hslot]
    simp [SimpleOk]
  | modify i modifier =>
    obtain ⟨t, ht⟩ := Option.isSome_iff_exists.1 hproper
    have hlt := lt_length_of_slot ((hslot i).trans ht)
    have hbegins' : Begins (r.index.set i (some (modifier t).value)) := by
      intro hne
      rw [slot_set hlt]
      split
      · rfl
      · exact hbegins fun hnil ↦ by simp [hnil] at hne
    simp only [IndexRun.step, IndexRun.after, simpleIndex, hslot, ht, hbegins', and_true,
      slot_set hlt, Option.map_some, SimpleOk, Option.some.injEq, forall_eq']
    cases hthrew : (modifier t).threw with
    | true =>
      simp only [cond_true, forall_const]
      constructor
      · intro h
        have hi := h i
        rw [if_pos rfl, ht] at hi
        exact Option.some_inj.1 hi
      · intro h j
        rw [h]
        split
        · next hj => rw [hj, ht]
        · rfl
    | false =>
      refine iff_of_true (fun j ↦ ?_) fun h ↦ absurd h Bool.false_ne_true
      rw [cond_false, Function.update_apply]
  | remove i =>
    obtain ⟨t, ht⟩ := Option.isSome_iff_exists.1 hproper
    have hlt := lt_length_of_slot ((hslot i).trans ht)
    have hfirst : (r.objects 0).isSome := by
      rw [← hslot]
      exact hbegins fun hnil ↦ by simp [hnil] at hlt
    simp only [IndexRun.step, IndexRun.after, simpleIndex, slot_rdropWhile, slot_set hlt, hslot,
      Begins, Ne, rdropWhile_isNone_eq_nil, cond_false, SimpleOk,
      Function.update_apply, implies_true, true_and]
    by_cases hi : i = 0
    · subst hi
      simp only [↓reduceIte, Option.isSome_none, Bool.false_eq_true, imp_false, not_not,
        forall_const]
      refine forall_congr' fun j ↦ ?_
      by_cases hj : j = 0 <;> simp [hj]
    · rw [if_neg (Ne.symm hi)]
      exact iff_of_true (fun _ ↦ hfirst) fun h ↦ absurd h hi
  | setNextId n => exact iff_of_true ⟨hslot, hbegins⟩ trivial

end simple

/-! ## `flat_index` is one while it has no gaps -/

section flat

variable [Inhabited T] {s : List (Obj T)} {objects : ℕ → Option T}

theorem represents_flat :
    Represents flatIndex s objects ↔ ∀ i, s[i]? = (objects i).map (Obj.mk i) := by
  constructor
  · exact fun h ↦ h.find
  · intro hfind
    have hids : s.map Obj.id = List.range s.length := by
      refine List.ext_getElem? fun i ↦ ?_
      rw [List.getElem?_map, hfind]
      by_cases hi : i < s.length
      · rw [List.getElem?_range hi]
        have hsome := hfind i
        rw [List.getElem?_eq_getElem hi] at hsome
        cases hobj : objects i with
        | none => simp [hobj] at hsome
        | some t => rfl
      · rw [List.getElem?_eq_none (by simp; omega), ← hfind, List.getElem?_eq_none (by omega)]
        rfl
    have hvisits : Visits s objects := by
      refine ⟨hids ▸ List.nodup_range, fun i t ↦ ?_⟩
      rw [List.mem_iff_getElem?]
      constructor
      · rintro ⟨j, hj⟩
        rw [hfind] at hj
        obtain ⟨t', ht', heq⟩ := Option.map_eq_some_iff.1 hj
        cases heq
        exact ht'
      · intro ht
        exact ⟨i, by rw [hfind, ht, Option.map_some]⟩
    exact ⟨hfind, hvisits, s, rfl, hvisits⟩

/-- The calls that `flat_index` survives: nothing throws that leaves something, every object comes
right after those before it, and none goes. -/
def FlatOk {S : Type} (r : IndexRun T S) : IndexCall T → Prop
  | .create constructor => (constructor default).threw = false ∧
      ∀ j < r.next, (r.objects j).isSome
  | .insert i _ => ∀ j < i, (r.objects j).isSome
  | .modify i modifier => ∀ t, r.objects i = some t → (modifier t).threw = true →
      (modifier t).value = t
  | .remove _ => False
  | .setNextId _ => True

omit [Inhabited T] in
theorem getElem?_set_growTo {X : Type} (s : List X) (x y : X) (i j : ℕ) :
    ((growTo (i + 1) x s).set i y)[j]? =
      if j = i then some y else if j < s.length then s[j]? else if j < i then some x else none := by
  have hlt : i < (growTo (i + 1) x s).length := by
    rw [length_growTo]
    omega
  rw [List.getElem?_set]
  by_cases hj : j = i
  · rw [if_pos hj.symm, if_pos hlt, if_pos hj]
  · rw [if_neg (Ne.symm hj), if_neg hj, growTo]
    split
    · next hs => rw [List.getElem?_append_left hs]
    · next hs =>
      rw [List.getElem?_append_right (by omega), List.getElem?_replicate]
      by_cases hji : j < i
      · rw [if_pos (by omega), if_pos hji]
      · rw [if_neg (by omega), if_neg hji]

omit [Inhabited T] in
theorem lt_length_iff_isSome (hfind : ∀ i, s[i]? = (objects i).map (Obj.mk i)) (i : ℕ) :
    i < s.length ↔ (objects i).isSome := by
  rw [← Option.isSome_map (f := Obj.mk i), ← hfind]
  simp

/-- A new object in a vector that has been grown to have it. -/
theorem flat_set_growTo (hfind : ∀ i, s[i]? = (objects i).map (Obj.mk i)) {i : ℕ}
    (hi : objects i = none) (t : T) :
    (∀ j, ((growTo (i + 1) defaultObj s).set i ⟨i, t⟩)[j]? =
      (Function.update objects i (some t) j).map (Obj.mk j)) ↔ ∀ j < i, (objects j).isSome := by
  have hlive := lt_length_iff_isSome hfind
  constructor
  · intro h j hj
    have hget := h j
    rw [getElem?_set_growTo, if_neg (by omega), Function.update_of_ne (by omega)] at hget
    rw [← hlive]
    by_contra hlt
    have hnone : objects j = none := by
      rwa [hlive, Bool.not_eq_true, Option.isSome_eq_false_iff, Option.isNone_iff_eq_none] at hlt
    rw [if_neg hlt, if_pos hj, hnone] at hget
    cases hget
  · intro h j
    rw [getElem?_set_growTo]
    by_cases hj : j = i
    · subst hj
      rw [if_pos rfl, Function.update_self]
      rfl
    · rw [if_neg hj, Function.update_of_ne hj, ← hfind]
      split
      · rfl
      · next hlt =>
        rw [if_neg fun hji ↦ hlt ((hlive j).2 (h j hji)), List.getElem?_eq_none (by omega)]

theorem flat_exact : Exact flatIndex (FlatOk (T := T)) := by
  intro r call hagrees hfresh hproper
  have hfind := represents_flat.1 hagrees
  have hlive := lt_length_iff_isSome hfind
  rw [represents_flat]
  cases call with
  | create constructor =>
    have hend : r.index.length ≤ r.next := by
      by_contra hlt
      have hsome := (hlive r.next).1 (by omega)
      rw [hfresh.next] at hsome
      cases hsome
    have hdefault : ((growTo (r.next + 1) defaultObj r.index).getD r.next defaultObj).value =
        default := by
      rw [List.getD_eq_getElem?_getD, growTo, List.getElem?_append_right hend,
        List.getElem?_replicate]
      split <;> rfl
    simp only [IndexRun.step, IndexRun.after, flatIndex, hdefault]
    cases hthrew : (constructor default).threw with
    | true =>
      refine iff_of_false (fun h ↦ ?_) fun h ↦ by simp [FlatOk, hthrew] at h
      have hnew := h r.next
      rw [getElem?_set_growTo, if_pos rfl, cond_true, hfresh.next] at hnew
      cases hnew
    | false =>
      rw [cond_false, FlatOk, hthrew, and_iff_right rfl]
      exact flat_set_growTo hfind hfresh.next _
  | insert i t => exact flat_set_growTo hfind hproper.1 t
  | modify i modifier =>
    obtain ⟨t, ht⟩ := Option.isSome_iff_exists.1 hproper
    have hget : r.index[i]? = some ⟨i, t⟩ := by rw [hfind, ht, Option.map_some]
    have hlt : i < r.index.length := (hlive i).2 hproper
    have hset : ∀ j, (r.index.set i ⟨i, (modifier t).value⟩)[j]? =
        (Function.update r.objects i (some (modifier t).value) j).map (Obj.mk j) := by
      intro j
      rw [List.getElem?_set]
      by_cases hj : i = j
      · subst hj
        simp [hlt]
      · rw [if_neg hj, Function.update_of_ne (Ne.symm hj), hfind]
    simp only [IndexRun.step, IndexRun.after, flatIndex, hget, ht, Option.map_some, hset, FlatOk,
      Option.some.injEq, forall_eq']
    cases hthrew : (modifier t).threw with
    | true =>
      simp only [cond_true, forall_const]
      constructor
      · intro h
        have hi := h i
        rw [Function.update_self, ht] at hi
        injection hi with hi
        injection hi
      · intro h j
        rw [h, ← ht, Function.update_eq_self]
    | false => exact iff_of_true (fun j ↦ rfl) fun h ↦ absurd h Bool.false_ne_true
  | remove i =>
    have hlt : i < r.index.length := (hlive i).2 hproper
    refine iff_of_false (fun h ↦ ?_) id
    have hi := h i
    simp only [IndexRun.step, IndexRun.after, flatIndex, cond_false, Function.update_self,
      List.getElem?_set_self hlt] at hi
    cases hi
  | setNextId n => exact iff_of_true hfind trivial

end flat

/-! ## Runs -/

/-- The states of an index that calls which users make, and which meet `Ok`, lead to. -/
inductive IndexRun.Reaches [Inhabited T] {S : Type} (C : Container T S)
    (Ok : IndexRun T S → IndexCall T → Prop) (empty : S) : IndexRun T S → Prop where
  /-- An index that is empty. -/
  | start (next : ℕ) : Reaches C Ok empty ⟨empty, next, fun _ ↦ none⟩
  /-- One more call. -/
  | step {r : IndexRun T S} {call : IndexCall T} (hr : Reaches C Ok empty r)
      (hproper : r.Proper call) (hok : Ok r call) : Reaches C Ok empty (r.step C call)

section runs

variable [Inhabited T] {S : Type} {C : Container T S} {Ok : IndexRun T S → IndexCall T → Prop}

theorem IndexRun.Fresh.step {r : IndexRun T S} (h : r.Fresh) {call : IndexCall T}
    (hproper : r.Proper call) : (r.step C call).Fresh := by
  -- a call gives an object to no id but its own
  have hupdate : ∀ (x : Exit S) (next i : ℕ) (obj : Option T), r.next ≤ next → i < next →
      (r.after x next (Function.update r.objects i obj)).Fresh := by
    rintro ⟨s, threw⟩ next i obj hle hlt j hj
    cases threw with
    | true => exact h j hj
    | false =>
      simp only [after, cond_false] at hj ⊢
      by_cases hji : j = i
      · omega
      · rw [Function.update_of_ne hji] at hj
        exact lt_of_lt_of_le (h j hj) hle
  cases call with
  | create constructor => exact hupdate _ _ _ _ (Nat.le_succ _) (Nat.lt_succ_self _)
  | insert i t => exact hupdate _ _ _ _ le_rfl hproper.2
  | modify i modifier => exact hupdate _ _ _ _ le_rfl (h i hproper)
  | remove i => exact hupdate _ _ _ _ le_rfl (h i hproper)
  | setNextId n => exact hproper

/-- What one call keeps, a run keeps. -/
theorem Exact.reaches (h : Exact C Ok) {empty : S} (hempty : Represents C empty fun _ ↦ none)
    {r : IndexRun T S} (hr : IndexRun.Reaches C Ok empty r) :
    Represents C r.index r.objects ∧ r.Fresh := by
  induction hr with
  | start next => exact ⟨hempty, fun _ hi ↦ absurd hi (by simp)⟩
  | step hr hproper hok ih =>
    exact ⟨(h _ _ ih.1 ih.2 hproper).2 hok, ih.2.step hproper⟩

/-- The runs of calls that meet `Ok` are those along which the index answers as the map, and the
first call that does not ends that. -/
def RefinesMap (C : Container T S) (Ok : IndexRun T S → IndexCall T → Prop) (empty : S) : Prop :=
  ∀ r, IndexRun.Reaches C Ok empty r → Represents C r.index r.objects ∧
    ∀ call, r.Proper call → (Represents C (r.step C call).index (r.step C call).objects ↔ Ok r call)

theorem Exact.refinesMap (h : Exact C Ok) {empty : S} (hempty : Represents C empty fun _ ↦ none) :
    RefinesMap C Ok empty := by
  intro r hr
  obtain ⟨hagrees, hfresh⟩ := h.reaches hempty hr
  exact ⟨hagrees, fun call hproper ↦ h r call hagrees hfresh hproper⟩

end runs

/-- **Each kind of index is a map along the runs that its `Ok` describes**, and at no call after
them that is not of that sort. -/
theorem index_refines_map [Inhabited T] (sharesKey : T → T → Bool) :
    RefinesMap (genericIndex sharesKey) (GenericOk sharesKey) [] ∧
      RefinesMap simpleIndex (SimpleOk (T := T)) [] ∧
        RefinesMap flatIndex (FlatOk (T := T)) [] := by
  refine ⟨(generic_exact sharesKey).refinesMap ?_, simple_exact.refinesMap ?_,
    flat_exact.refinesMap ?_⟩
  · exact represents_generic.2 ⟨List.nodup_nil, by simp⟩
  · exact represents_simple.2 ⟨fun _ ↦ rfl, fun h ↦ absurd rfl h⟩
  · exact represents_flat.2 fun _ ↦ rfl

/-- Two objects are created and the first is removed, as when a session that has created them is
undone halfway. -/
def twoThenOne : List (IndexCall ℕ) :=
  [.create fun _ ↦ ⟨5, false⟩, .create fun _ ↦ ⟨6, false⟩, .remove 0]

/-- **None of the three is a map throughout.**  After a failed constructor `simple_index` has an
object; after the removal of the first its iterator begins at a null pointer; `flat_index` finds an
object that has been removed; and `generic_index` loses one whose modifier throws. -/
theorem index_not_map :
    (∃ r : IndexRun ℕ (List (Option ℕ)),
      r = IndexRun.step simpleIndex ⟨[], 0, fun _ ↦ none⟩ (.create fun _ ↦ ⟨7, true⟩) ∧
        r.objects 0 = none ∧ simpleIndex.find r.index 0 = some ⟨0, 7⟩) ∧
    (∃ r : IndexRun ℕ (List (Option ℕ)),
      r = twoThenOne.foldl (IndexRun.step simpleIndex) ⟨[], 0, fun _ ↦ none⟩ ∧
        r.objects 1 = some 6 ∧ simpleIndex.iterate r.index = none) ∧
    (∃ r : IndexRun ℕ (List (Obj ℕ)),
      r = twoThenOne.foldl (IndexRun.step flatIndex) ⟨[], 0, fun _ ↦ none⟩ ∧
        r.objects 0 = none ∧ flatIndex.find r.index 0 = some defaultObj) ∧
    ∃ r : IndexRun ℕ (List (Obj ℕ)),
      r = [IndexCall.create fun _ ↦ ⟨5, false⟩, .modify 0 fun _ ↦ ⟨8, true⟩].foldl
          (IndexRun.step (genericIndex fun _ _ ↦ false)) ⟨[], 0, fun _ ↦ none⟩ ∧
        r.objects 0 = some 5 ∧ (genericIndex fun _ _ ↦ false).find r.index 0 = none :=
  ⟨⟨_, rfl, rfl, rfl⟩, ⟨_, rfl, rfl, rfl⟩, ⟨_, rfl, rfl, rfl⟩, _, rfl, rfl, rfl⟩

end Graphene
