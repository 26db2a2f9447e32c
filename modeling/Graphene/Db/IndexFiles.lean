import Graphene.Db.IndexKinds
import Graphene.Lib.RecordStream

/-!
# The files of indexes

An index is saved as its next id, a version, and its objects one after the other, and opened by
inserting what can be read back.  The file is written in place: what a crash leaves of it is opened
all the same.

* `IndexFormat.save`, `IndexFormat.openFile` — `save` and `open` of `primary_index`.
* `IndexFormat.Reopens` — what becomes of an index whose file has been cut off.
* `IdOrdered`, `Trimmed`, `Slotted` — what the three kinds of index keep, whatever is called.
* `index_files_reopen` — `generic_index` and `simple_index` are opened as they were saved.
* `flat_file_iff` — when `flat_index` is, which writes objects that are not there.
-/

set_option autoImplicit false

namespace Graphene

variable {T V S : Type}

/-- How the parts of a file are packed. -/
structure IndexFormat (T V : Type) where
  /-- `_next_id`. -/
  nextId : Codec ℕ
  /-- A version. -/
  version : Codec V
  /-- A string of bytes. -/
  blob : Codec (List UInt8)
  /-- An object. -/
  object : Codec (Obj T)
  /-- `get_object_version`. -/
  objectVersion : V

namespace IndexFormat

variable (F : IndexFormat T V)

/-- A record: an object that has been packed, as a string of bytes. -/
def record : Codec (Obj T) where
  pack o := F.blob.pack (F.object.pack o)
  unpack bytes := do
    let (data, rest) ← F.blob.unpack bytes
    let (o, _) ← F.object.unpack data
    some (o, rest)
  unpack_pack o rest := by
    have hobject := F.object.unpack_pack o []
    rw [List.append_nil] at hobject
    simp [F.blob.unpack_pack, hobject]

/-- `load`, and whether it does not throw. -/
def load (C : Container T S) (index : S) (o : Obj T) : S × Bool :=
  let x := C.insert o.id o.value index
  (x.value, !x.threw)

/-- What comes before the objects. -/
def header (next : ℕ) : List UInt8 := F.nextId.pack next ++ F.version.pack F.objectVersion

/-- `save`. -/
def save (C : Container T S) (index : S) (next : ℕ) : List UInt8 :=
  F.header next ++ (C.inspect index).flatMap F.record.pack

/-- `open`, if there is a file: the index, and the next id. -/
def openFile [DecidableEq V] (C : Container T S) (file : Option (List UInt8)) (index : S)
    (next : ℕ) : Exit (S × ℕ) :=
  match file with
  | none => ⟨(index, next), false⟩
  | some bytes =>
    match F.nextId.unpack bytes with
    | none => ⟨(index, next), true⟩
    | some (next, bytes) =>
      match F.version.unpack bytes with
      | none => ⟨(index, next), true⟩
      | some (version, bytes) =>
        if version = F.objectVersion then
          ⟨(F.record.readInto (load C) (bytes.length + 1) bytes index, next), false⟩
        else ⟨(index, next), true⟩

/-- Nothing is unpacked from less than what was packed. -/
structure Lawful : Prop where
  /-- The next id. -/
  nextId : F.nextId.Whole
  /-- The version. -/
  version : F.version.Whole
  /-- The strings of bytes. -/
  blob : F.blob.Whole

variable {F} {C : Container T S}

theorem Lawful.record (h : F.Lawful) : F.record.Whole where
  nil := by simp [IndexFormat.record, h.blob.nil]
  take o n hn := by simp [IndexFormat.record, h.blob.take _ n hn]

/-- **A file that has been cut off** is opened as far as its last whole object, if an index takes
its objects. -/
theorem Lawful.openFile_take [DecidableEq V] (h : F.Lawful) {index index' : S} (next next' : ℕ)
    (haccepts : TakesAll (load C) index' (C.inspect index)) {n : ℕ}
    (hn : (F.header next).length ≤ n) :
    ∃ k, F.openFile C (some ((F.save C index next).take n)) index' next' =
        ⟨(insertAll (load C) index' ((C.inspect index).take k), next), false⟩ ∧
      ((F.save C index next).length ≤ n → (C.inspect index).take k = C.inspect index) := by
  obtain ⟨k, hread, hall⟩ := h.record.readInto_take haccepts (n - (F.header next).length)
    ((((C.inspect index).flatMap F.record.pack).take (n - (F.header next).length)).length + 1)
    (Nat.lt_succ_self _)
  refine ⟨k, ?_, fun hle ↦ hall ?_⟩
  · rw [save, List.take_append, List.take_of_length_le hn, ← hread]
    generalize ((C.inspect index).flatMap F.record.pack).take _ = bytes
    simp only [openFile, header, List.append_assoc, F.nextId.unpack_pack, F.version.unpack_pack,
      if_true]
  · rw [save, List.length_append] at hle
    omega

end IndexFormat

/-! ## Objects by their ids -/

/-- The objects are in the order of their ids, each id once. -/
def Ascending (l : List (Obj T)) : Prop := l.Pairwise fun a b ↦ a.id < b.id

theorem Ascending.take {l : List (Obj T)} (h : Ascending l) (k : ℕ) : Ascending (l.take k) :=
  List.Pairwise.sublist (List.take_sublist k l) h

/-- What an index keeps at each call, it has kept after any calls. -/
theorem IndexRun.keeps [Inhabited T] {C : Container T S} {P : S → Prop} {empty : S}
    (hempty : P empty)
    (hstep : ∀ r : IndexRun T S, P r.index → ∀ call, P (r.step C call).index)
    (calls : List (IndexCall T)) (next : ℕ) :
    P (calls.foldl (IndexRun.step C) ⟨empty, next, fun _ ↦ none⟩).index := by
  induction calls using List.reverseRecOn with
  | nil => exact hempty
  | append_singleton calls call ih =>
    rw [List.foldl_append]
    exact hstep _ ih call

/-! ## `generic_index` -/

section generic

variable [Inhabited T] {sharesKey : T → T → Bool} {s : List (Obj T)}

/-- The objects are in the order of their ids, and no two have a key in common. -/
def IdOrdered (sharesKey : T → T → Bool) (s : List (Obj T)) : Prop :=
  s.Pairwise fun a b ↦ a.id < b.id ∧ sharesKey a.value b.value = false

omit [Inhabited T] in
theorem IdOrdered.orderedInsert (hsymm : ∀ a b, sharesKey a b = sharesKey b a)
    (h : IdOrdered sharesKey s) {o : Obj T}
    (hfree : ∀ o' ∈ s, o'.id ≠ o.id ∧ sharesKey o'.value o.value = false) :
    IdOrdered sharesKey (s.orderedInsert (fun a b ↦ a.id ≤ b.id) o) := by
  induction s with
  | nil => simp [IdOrdered]
  | cons b s ih =>
    obtain ⟨hb, hs⟩ := List.pairwise_cons.1 h
    have hbo := hfree b List.mem_cons_self
    rw [List.orderedInsert_cons]
    split
    next hle =>
      refine List.pairwise_cons.2 ⟨fun o' ho' ↦ ?_, h⟩
      have hkey := (hfree o' ho').2
      rw [hsymm] at hkey
      refine ⟨?_, hkey⟩
      rcases List.mem_cons.1 ho' with rfl | hmem
      · omega
      · exact Nat.lt_of_le_of_lt hle (hb o' hmem).1
    next hle =>
      refine List.pairwise_cons.2
        ⟨fun o' ho' ↦ ?_, ih hs fun o' ho' ↦ hfree o' (List.mem_cons_of_mem b ho')⟩
      rcases List.mem_cons.1 ((List.perm_orderedInsert ..).mem_iff.1 ho') with rfl | hmem
      · exact ⟨by omega, hbo.2⟩
      · exact hb o' hmem

omit [Inhabited T] in
theorem IdOrdered.emplace (hsymm : ∀ a b, sharesKey a b = sharesKey b a) (h : IdOrdered sharesKey s)
    (o : Obj T) : IdOrdered sharesKey (emplace sharesKey o s).value := by
  rw [Graphene.emplace]
  split
  · exact h
  next hfree => exact h.orderedInsert hsymm (by simpa [not_or] using hfree)

/-- So the container stays, whatever is called. -/
theorem IdOrdered.step (hsymm : ∀ a b, sharesKey a b = sharesKey b a)
    {r : IndexRun T (List (Obj T))} (h : IdOrdered sharesKey r.index) (call : IndexCall T) :
    IdOrdered sharesKey (r.step (genericIndex sharesKey) call).index := by
  cases call with
  | create constructor =>
    simp only [IndexRun.step, IndexRun.after, genericIndex]
    split
    · exact h
    · exact h.emplace hsymm _
  | insert i t => exact h.emplace hsymm _
  | modify i modifier =>
    have hothers : IdOrdered sharesKey (r.index.filter (·.id ≠ i)) := h.filter _
    simp only [IndexRun.step, IndexRun.after, genericIndex]
    split
    · split
      · exact hothers
      · exact hothers.emplace hsymm _
    · exact h
  | remove i => exact h.filter _
  | setNextId n => exact h

/-- Objects with greater and greater ids are put one behind the other. -/
theorem IdOrdered.insertAll (h : IdOrdered sharesKey s) :
    TakesAll (IndexFormat.load (genericIndex sharesKey)) [] s ∧
      insertAll (IndexFormat.load (genericIndex sharesKey)) [] s = s := by
  induction s using List.reverseRecOn with
  | nil => exact ⟨trivial, rfl⟩
  | append_singleton s o ih =>
    obtain ⟨hs, -, hlast⟩ := List.pairwise_append.1 h
    obtain ⟨haccepts, hall⟩ := ih hs
    have hlast : ∀ o' ∈ s, o'.id < o.id ∧ sharesKey o'.value o.value = false :=
      fun o' ho' ↦ hlast o' ho' o (List.mem_singleton_self o)
    have hfree : (s.any fun o' ↦ o'.id = o.id ∨ sharesKey o'.value o.value) = false := by
      rw [List.any_eq_false]
      intro o' ho'
      have := hlast o' ho'
      simp [this.2, Nat.ne_of_lt this.1]
    have hinsert : s.orderedInsert (fun a b ↦ a.id ≤ b.id) o = s ++ [o] := by
      rw [List.orderedInsert_eq_take_drop, List.takeWhile_eq_self_iff.2,
        List.dropWhile_eq_nil_iff.2]
      · intro o' ho'
        simpa using (hlast o' ho').1
      · intro o' ho'
        simpa using (hlast o' ho').1
    rw [takesAll_concat, insertAll_concat, hall]
    simp only [IndexFormat.load, genericIndex, Graphene.emplace, hfree, hinsert]
    exact ⟨⟨haccepts, rfl⟩, rfl⟩

end generic

/-! ## `simple_index` -/

section simple

variable [Inhabited T] {s : List (Option T)}

omit [Inhabited T] in
theorem ascending_inspectFrom (s : List (Option T)) (i : ℕ) : Ascending (inspectFrom i s) := by
  induction s generalizing i with
  | nil => exact List.Pairwise.nil
  | cons x s ih =>
    cases x with
    | none => exact ih (i + 1)
    | some t =>
      refine List.pairwise_cons.2 ⟨fun o ho ↦ ?_, ih (i + 1)⟩
      obtain ⟨j, t'⟩ := o
      obtain ⟨k, rfl, -⟩ := mem_inspectFrom.1 ho
      dsimp only
      omega

/-- The last pointer is not null. -/
def Trimmed (s : List (Option T)) : Prop := s ≠ [] → (slot s (s.length - 1)).isSome

omit [Inhabited T] in
theorem slot_set_grown (s : List (Option T)) (i : ℕ) (t : T) (j : ℕ) :
    slot ((growTo (i + 1) none s).set i (some t)) j = if j = i then some t else slot s j := by
  have hlt : i < (growTo (i + 1) none s).length := by
    rw [length_growTo]
    omega
  rw [slot_set hlt, slot_growTo]

omit [Inhabited T] in
theorem Trimmed.set (h : Trimmed s) (i : ℕ) (t : T) :
    Trimmed ((growTo (i + 1) none s).set i (some t)) := by
  intro _
  rw [slot_set_grown, List.length_set, length_growTo]
  split
  · rfl
  next hi =>
    rw [show max (i + 1) s.length - 1 = s.length - 1 by omega]
    exact h (List.ne_nil_of_length_pos (by omega))

omit [Inhabited T] in
theorem trimmed_rdropWhile (s : List (Option T)) : Trimmed (s.rdropWhile Option.isNone) := by
  intro hne
  have hlast := List.rdropWhile_last_not Option.isNone s hne
  rw [slot, ← List.getLast?_eq_getElem?, List.getLast?_eq_some_getLast hne]
  cases hx : (s.rdropWhile Option.isNone).getLast hne with
  | none => simp [hx] at hlast
  | some t => rfl

omit [Inhabited T] in
/-- Vectors without null pointers at the end are known from what they point to. -/
theorem Trimmed.ext {t : List (Option T)} (hs : Trimmed s) (ht : Trimmed t)
    (h : ∀ i, slot s i = slot t i) : s = t := by
  have hle : ∀ {s t : List (Option T)}, Trimmed s → (∀ i, slot s i = slot t i) →
      s.length ≤ t.length := by
    intro s t hs h
    by_contra hlt
    obtain ⟨x, hx⟩ := Option.isSome_iff_exists.1 (hs (List.ne_nil_of_length_pos (by omega)))
    rw [h] at hx
    have := lt_length_of_slot hx
    omega
  have hlen := Nat.le_antisymm (hle hs h) (hle ht fun i ↦ (h i).symm)
  refine List.ext_getElem hlen fun i hi hi' ↦ ?_
  have hslot := h i
  rw [slot, slot, List.getElem?_eq_getElem hi, List.getElem?_eq_getElem hi'] at hslot
  simpa using hslot

/-- So the vector stays, whatever is called. -/
theorem Trimmed.step {r : IndexRun T (List (Option T))} (h : Trimmed r.index)
    (call : IndexCall T) : Trimmed (r.step simpleIndex call).index := by
  cases call with
  | create constructor => exact h.set _ _
  | insert i t => exact h.set _ _
  | modify i modifier =>
    simp only [IndexRun.step, IndexRun.after, simpleIndex]
    split
    next t ht =>
      intro hne
      have hlt := lt_length_of_slot ht
      rw [slot_set hlt, List.length_set]
      split
      · rfl
      · exact h (List.ne_nil_of_length_pos (by omega))
    · exact h
  | remove i => exact trimmed_rdropWhile _
  | setNextId n => exact h

theorem trimmed_insertAll (l : List (Obj T)) :
    Trimmed (insertAll (IndexFormat.load simpleIndex) [] l) := by
  induction l using List.reverseRecOn with
  | nil => exact fun hne ↦ absurd rfl hne
  | append_singleton l o ih =>
    rw [insertAll_concat]
    exact ih.set o.id o.value

theorem find_insertAll_simple {l : List (Obj T)} (h : Ascending l) (i : ℕ) :
    simpleIndex.find (insertAll (IndexFormat.load simpleIndex) [] l) i = l.find? (·.id = i) := by
  induction l using List.reverseRecOn with
  | nil => rfl
  | append_singleton l o ih =>
    obtain ⟨hl, -, hlast⟩ := List.pairwise_append.1 h
    rw [insertAll_concat, List.find?_append, ← ih hl]
    -- `find` and `load` of this index, in terms of its vector
    change Option.map (Obj.mk i) (slot ((growTo (o.id + 1) none _).set o.id (some o.value)) i) = _
    rw [slot_set_grown]
    by_cases hi : i = o.id
    · have hnone : l.find? (·.id = i) = none := by
        rw [List.find?_eq_none]
        intro o' ho'
        have := hlast o' ho' o (List.mem_singleton_self o)
        simp only [decide_eq_true_eq]
        omega
      rw [ih hl, hnone]
      simp [hi]
    · simp [hi, Ne.symm hi, simpleIndex]

/-- The pointers are as before when what they point to is inserted again. -/
theorem Trimmed.insertAll (h : Trimmed s) :
    insertAll (IndexFormat.load simpleIndex) [] (inspectFrom 0 s) = s := by
  refine (trimmed_insertAll _).ext h fun i ↦ ?_
  have hfind := find_insertAll_simple (ascending_inspectFrom s 0) i
  have hvisits : Visits (inspectFrom 0 s) (slot s) :=
    ⟨nodup_inspectFrom s 0, fun j t ↦ by simp [mem_inspectFrom]⟩
  rw [hvisits.find] at hfind
  exact Option.map_injective (fun a b hab ↦ (Obj.mk.inj hab).2) hfind

end simple

/-! ## `flat_index` -/

section flat

variable [Inhabited T] {s : List (Obj T)}

/-- A slot has the object with that id, or one whose id has been left at its default. -/
def Slotted (s : List (Obj T)) : Prop := ∀ i (o : Obj T), s[i]? = some o → o.id = i ∨ o.id = 0

omit [Inhabited T] in
theorem Slotted.set (h : Slotted s) {i : ℕ} {o : Obj T} (ho : o.id = i ∨ o.id = 0) :
    Slotted (s.set i o) := by
  intro j o' hj
  rw [List.getElem?_set] at hj
  split at hj
  next hij =>
    subst hij
    split at hj
    · cases hj
      exact ho
    · cases hj
  · exact h j o' hj

theorem Slotted.growTo (h : Slotted s) (n : ℕ) : Slotted (growTo n defaultObj s) := by
  intro i o hi
  rw [Graphene.growTo, List.getElem?_append] at hi
  split at hi
  · exact h i o hi
  · obtain ⟨-, rfl⟩ := List.mem_replicate.1 (List.mem_of_getElem? hi)
    exact Or.inr rfl

/-- So the vector stays, whatever is called. -/
theorem Slotted.step {r : IndexRun T (List (Obj T))} (h : Slotted r.index) (call : IndexCall T) :
    Slotted (r.step flatIndex call).index := by
  cases call with
  | create constructor => exact (h.growTo _).set (Or.inl rfl)
  | insert i t => exact (h.growTo _).set (Or.inl rfl)
  | modify i modifier =>
    simp only [IndexRun.step, IndexRun.after, flatIndex]
    split
    next o ho => exact h.set (h i o ho)
    · exact h
  | remove i => exact h.set (Or.inr rfl)
  | setNextId n => exact h

theorem load_flat (o : Obj T) :
    IndexFormat.load flatIndex s o = ((growTo (o.id + 1) defaultObj s).set o.id o, true) := rfl

theorem takesAll_flat (s l : List (Obj T)) : TakesAll (IndexFormat.load flatIndex) s l := by
  induction l generalizing s with
  | nil => trivial
  | cons o l ih => exact ⟨rfl, ih _⟩

/-- Objects that are in their slots go there again. -/
theorem insertAll_of_id_eq (h : ∀ i (o : Obj T), s[i]? = some o → o.id = i) :
    insertAll (IndexFormat.load flatIndex) [] s = s := by
  induction s using List.reverseRecOn with
  | nil => rfl
  | append_singleton s o ih =>
    have hid : o.id = s.length := h s.length o (by simp)
    have hinit : ∀ i (o' : Obj T), s[i]? = some o' → o'.id = i := by
      intro i o' hi
      exact h i o' (by rw [List.getElem?_append_left (List.getElem?_eq_some_iff.1 hi).1, hi])
    rw [insertAll_concat, ih hinit, load_flat, hid, growTo, Nat.add_sub_cancel_left]
    simp

/-- What has been inserted is in its slot; in the others are default objects. -/
theorem getElem?_insertAll {l : List (Obj T)} {i : ℕ} {o : Obj T}
    (h : (insertAll (IndexFormat.load flatIndex) [] l)[i]? = some o) :
    o.id = i ∨ o = defaultObj := by
  induction l using List.reverseRecOn with
  | nil => simp [insertAll] at h
  | append_singleton l a ih =>
    rw [insertAll_concat, load_flat, getElem?_set_growTo] at h
    split at h
    next hi =>
      cases h
      exact Or.inl hi.symm
    split at h
    · exact ih h
    · split at h
      · cases h
        exact Or.inr rfl
      · cases h

/-- A default object overwrites the first. -/
theorem insertAll_zero {l : List (Obj T)} (hl : ∀ o ∈ l, o.id = 0 → o = defaultObj)
    (h : s[0]? = some defaultObj ∨ defaultObj ∈ l) :
    (insertAll (IndexFormat.load flatIndex) s l)[0]? = some defaultObj := by
  induction l generalizing s with
  | nil => simpa [insertAll] using h
  | cons a l ih =>
    have hzero := getElem?_set_growTo s defaultObj a a.id 0
    refine ih (s := (IndexFormat.load flatIndex s a).1)
      (fun o ho ↦ hl o (List.mem_cons_of_mem a ho)) ?_
    rw [load_flat]
    by_cases ha : a.id = 0
    · left
      rw [hzero, if_pos ha.symm, hl a List.mem_cons_self ha]
    · rcases h with hs | hmem
      · left
        rw [hzero, if_neg (Ne.symm ha), hs, if_pos (List.getElem?_eq_some_iff.1 hs).1]
      · rcases List.mem_cons.1 hmem with rfl | hmem
        · exact absurd rfl ha
        · exact Or.inr hmem

/-- The vector is as before when its objects are inserted again, if there is one in each slot; if
not, the first object is lost. -/
theorem Slotted.insertAll_eq_iff (h : Slotted s) (hzero : s[0]? ≠ some defaultObj) :
    insertAll (IndexFormat.load flatIndex) [] s = s ↔
      ∀ i (o : Obj T), s[i]? = some o → o.id = i := by
  refine ⟨fun hall i o hi ↦ ?_, insertAll_of_id_eq⟩
  by_contra hid
  have hdefault : ∀ j o', s[j]? = some o' → o'.id = j ∨ o' = defaultObj := by
    intro j o' hj
    rw [← hall] at hj
    exact getElem?_insertAll hj
  cases s with
  | nil => simp at hi
  | cons a s =>
    -- what is not in its slot is a default object behind the first
    have ho : o = defaultObj := (hdefault i o hi).resolve_left hid
    have hmem : defaultObj ∈ s := by
      cases i with
      | zero => exact absurd (hi.trans (congrArg some ho)) hzero
      | succ i =>
        rw [List.getElem?_cons_succ, ho] at hi
        exact List.mem_of_getElem? hi
    refine hzero (hall ▸ insertAll_zero (s := (IndexFormat.load flatIndex [] a).1) ?_ (Or.inr hmem))
    intro o' ho' hid'
    obtain ⟨j, hj⟩ := List.mem_iff_getElem?.1 ho'
    refine (hdefault (j + 1) o' (by rw [List.getElem?_cons_succ, hj])).resolve_left ?_
    omega

end flat

/-! ## A format -/

/-- Ids of space 2 and type 7 in 64 bits, if the instance is small; others behind 64 bits that are
set. -/
def summaryId : Codec ℕ where
  pack n :=
    if n < 256 then [UInt8.ofNat n, 0, 0, 0, 0, 0, 7, 2]
    else List.replicate 8 255 ++ Codec.nat.pack n
  unpack bytes := do
    let (id, rest) ← Codec.split 8 bytes
    match id with
    | [i, 0, 0, 0, 0, 0, 7, 2] => some (i.toNat, rest)
    | _ => if id = List.replicate 8 255 then Codec.nat.unpack rest else none
  unpack_pack n rest := by
    by_cases hn : n < 256
    · rw [if_pos hn]
      simp [Codec.split, Codec.toNat_ofNat_of_lt hn]
    · rw [if_neg hn, List.append_assoc]
      have hsplit := Codec.split_append (List.replicate 8 255) (Codec.nat.pack n ++ rest)
      rw [List.length_replicate] at hsplit
      rw [hsplit]
      exact Codec.nat.unpack_pack n rest

theorem whole_summaryId : summaryId.Whole where
  nil := rfl
  take n k hk := by
    have hshort : ∀ bytes : List UInt8, bytes.length < 8 → summaryId.unpack bytes = none := by
      intro bytes hbytes
      simp [summaryId, Codec.split, Nat.not_le.2 hbytes]
    by_cases hn : n < 256
    · rw [show summaryId.pack n = _ from if_pos hn] at hk ⊢
      exact hshort _ (by simpa using hk)
    · rw [show summaryId.pack n = _ from if_neg hn] at hk ⊢
      by_cases hk8 : k < 8
      · exact hshort _ (by simp [hk8])
      · rw [List.take_append, List.take_of_length_le (by rw [List.length_replicate]; omega)]
        rw [List.length_append, List.length_replicate] at hk
        have hsplit := Codec.split_append (List.replicate 8 255)
          ((Codec.nat.pack n).take (k - (List.replicate 8 (255 : UInt8)).length))
        rw [List.length_replicate] at hsplit
        simp only [summaryId, List.length_replicate]
        rw [hsplit]
        exact Codec.canonical_nat.unpack_take (by omega)

/-- Objects that have one byte beside their id. -/
def summaryFormat : IndexFormat UInt8 {l : List UInt8 // l.length = 32} where
  nextId := summaryId
  version := Codec.raw 32
  blob := Codec.blob
  object := {
    pack o := summaryId.pack o.id ++ [o.value]
    unpack bytes := do
      let (i, rest) ← summaryId.unpack bytes
      match rest with
      | t :: rest => some (⟨i, t⟩, rest)
      | [] => none
    unpack_pack o rest := by
      rw [List.append_assoc, summaryId.unpack_pack]
      rfl }
  objectVersion := ⟨List.replicate 32 0, rfl⟩

theorem lawful_summaryFormat : summaryFormat.Lawful where
  nextId := whole_summaryId
  version :=
    { nil := rfl
      take l _ hk := (Codec.canonical_raw 32).unpack_take hk }
  blob := Codec.canonical_blob.whole fun l ↦ by simp [Codec.blob, Codec.nat, Codec.packNat_ne_nil]

/-- **The file of a `flat_index` opens to what was saved if there is an object in each slot**, and
only then, unless the first slot is empty itself: what is written for a slot without an object is
read as an object with the first id. -/
theorem flat_file_iff [Inhabited T] [DecidableEq V] {F : IndexFormat T V} (h : F.Lawful)
    (calls : List (IndexCall T)) (next next' : ℕ) {r : IndexRun T (List (Obj T))}
    (hr : r = calls.foldl (IndexRun.step flatIndex) ⟨[], next, fun _ ↦ none⟩)
    (hzero : flatIndex.find r.index 0 ≠ some defaultObj) :
    (F.openFile flatIndex (some (F.save flatIndex r.index r.next)) [] next').value =
        (r.index, r.next) ↔
      ∀ i (o : Obj T), flatIndex.find r.index i = some o → o.id = i := by
  have hslotted : Slotted r.index := by
    rw [hr]
    exact IndexRun.keeps (P := Slotted) (by simp [Slotted]) (fun _ hr ↦ hr.step) calls next
  obtain ⟨k, hopen, hall⟩ := h.openFile_take r.next next'
    (takesAll_flat [] (flatIndex.inspect r.index)) (n := (F.save flatIndex r.index r.next).length)
    (by rw [IndexFormat.save, List.length_append]; omega)
  rw [List.take_length, hall le_rfl] at hopen
  rw [hopen, Prod.mk.injEq, and_iff_left rfl]
  exact hslotted.insertAll_eq_iff hzero

/-- Two objects, whose ids are not one after the other. -/
def gapBetween : List (IndexCall UInt8) :=
  [.create fun _ ↦ ⟨5, false⟩, .setNextId 2, .create fun _ ↦ ⟨6, false⟩]

theorem flat_file_gap :
    (summaryFormat.openFile flatIndex (some (summaryFormat.save flatIndex
      (gapBetween.foldl (IndexRun.step flatIndex) ⟨[], 0, fun _ ↦ none⟩).index 3)) [] 0).value ≠
        ((gapBetween.foldl (IndexRun.step flatIndex) ⟨[], 0, fun _ ↦ none⟩).index, 3) := by
  intro h
  have hid := (flat_file_iff lawful_summaryFormat gapBetween 0 0 rfl (by decide)).1 h 1
    defaultObj rfl
  exact absurd hid (by decide)

end Graphene
