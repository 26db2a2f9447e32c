import Graphene.Lib.Codec
import Mathlib.Data.List.Nodup

/-!
# Extensions

An extension is a struct of optional members, packed as the number of those that are set and then,
for each of these, its index and its value.  The visitors of `ext.hpp` go through the members in the
order in which they are reflected.

* `ExtensionMember`, `ExtensionValue` — the members of an extension type, and its values.
* `pack`, `unpack` — `operator <<` and `operator >>`.
* `toVariant`, `fromVariant` — the conversions to and from variants.
* `unpack_eq_some_iff` — what is unpacked: the members in order, each at most once, nothing else.
* `extension_round_trips` — what was packed is unpacked and what was converted is converted back;
  and if the members unpack nothing but what they pack, neither does the extension.

How members are packed and converted is up to them.  The one thing asked of `unsigned_int` is that
it unpacks nothing but what it packs.
-/

set_option autoImplicit false

namespace Graphene

/-- `fc::variant`. -/
inductive Variant where
  /-- Null. -/
  | null
  /-- A `uint64_t`. -/
  | uint64 (n : ℕ)
  /-- Any other number, a bool, a string or a blob. -/
  | scalar (text : String)
  /-- `variants`. -/
  | array (elems : List Variant)
  /-- `variant_object`. -/
  | object (entries : List (String × Variant))

/-- A member of an extension type: an `optional<T>`. -/
structure ExtensionMember where
  /-- The name it is reflected by. -/
  name : String
  /-- `T`. -/
  Value : Type
  /-- How a `T` is packed. -/
  codec : Codec Value
  /-- `to_variant` of the optional. -/
  toVariant : Option Value → Variant
  /-- `from_variant` of the optional; it may throw. -/
  fromVariant : Variant → Option (Option Value)
  /-- A value converted is converted back. -/
  fromVariant_toVariant : ∀ a, fromVariant (toVariant (some a)) = some (some a)

/-- An extension type. -/
structure ExtensionType where
  /-- The members, in the order they are visited in. -/
  members : List ExtensionMember
  /-- No two have the same name. -/
  nodup : (members.map ExtensionMember.name).Nodup
  /-- The members can be counted in 32 bits. -/
  length_lt : members.length < 2 ^ 32

/-- The values of a struct of the members. -/
def ExtensionValue : List ExtensionMember → Type
  | [] => Unit
  | m :: ms => Option m.Value × ExtensionValue ms

namespace Extension

/-! ## Packing -/

/-- How many members are set. -/
def countSet : (ms : List ExtensionMember) → ExtensionValue ms → ℕ
  | [], _ => 0
  | _ :: ms, (x, v) => (if x.isSome then 1 else 0) + countSet ms v

/-- `graphene_extension_pack_count_visitor`. -/
def packCount : (ms : List ExtensionMember) → UInt32 → ExtensionValue ms → UInt32
  | [], count, _ => count
  | _ :: ms, count, (x, v) => packCount ms (count + if x.isSome then 1 else 0) v

/-- `graphene_extension_pack_read_visitor`: the bytes it writes. -/
def packRead (varint : Codec UInt32) :
    (ms : List ExtensionMember) → UInt32 → ExtensionValue ms → List UInt8
  | [], _, _ => []
  | m :: ms, which, (some a, v) =>
    varint.pack which ++ m.codec.pack a ++ packRead varint ms (which + 1) v
  | _ :: ms, which, (none, v) => packRead varint ms (which + 1) v

/-- `operator <<`. -/
def pack (varint : Codec UInt32) (T : ExtensionType) (value : ExtensionValue T.members) :
    List UInt8 :=
  varint.pack (packCount T.members 0 value) ++ packRead varint T.members 0 value

/-! ## Unpacking -/

/-- `graphene_extension_unpack_visitor`. -/
structure UnpackVisitor where
  /-- The index of the member that is visited. -/
  which : UInt32 := 0
  /-- The index that was read last. -/
  nextWhich : UInt32 := 0
  /-- How many values are still to come. -/
  countLeft : UInt32
  /-- What was not read yet. -/
  stream : List UInt8

/-- `maybe_read_next_which`. -/
def UnpackVisitor.maybeReadNextWhich (varint : Codec UInt32) (s : UnpackVisitor) :
    Option UnpackVisitor :=
  if 0 < s.countLeft then do
    let (w, stream) ← varint.unpack s.stream
    some { s with nextWhich := w, stream }
  else some s

/-- The visit of one member: its value is read if it is the one whose index was read last. -/
def UnpackVisitor.visitMember (varint : Codec UInt32) (m : ExtensionMember) (s : UnpackVisitor) :
    Option (Option m.Value × UnpackVisitor) :=
  if 0 < s.countLeft ∧ s.which = s.nextWhich then do
    let (temp, stream) ← m.codec.unpack s.stream
    let s ← UnpackVisitor.maybeReadNextWhich varint { s with countLeft := s.countLeft - 1, stream }
    some (some temp, { s with which := s.which + 1 })
  else some (none, { s with which := s.which + 1 })

/-- The visit of all members. -/
def UnpackVisitor.visit (varint : Codec UInt32) :
    (ms : List ExtensionMember) → UnpackVisitor → Option (ExtensionValue ms × UnpackVisitor)
  | [], s => some ((), s)
  | m :: ms, s => do
    let (x, s) ← s.visitMember varint m
    let (v, s) ← visit varint ms s
    some ((x, v), s)

/-- `operator >>`; throws where a value is left that no member took. -/
def unpack (varint : Codec UInt32) (T : ExtensionType) (bytes : List UInt8) :
    Option (ExtensionValue T.members × List UInt8) := do
  let (c, stream) ← varint.unpack bytes
  let s ← UnpackVisitor.maybeReadNextWhich varint { countLeft := c, stream }
  let (value, s) ← s.visit varint T.members
  if s.countLeft = 0 then some (value, s.stream) else none

/-! ## Variants -/

/-- `mvo[name] = v`. -/
def setEntry (mvo : List (String × Variant)) (name : String) (v : Variant) :
    List (String × Variant) :=
  if (mvo.lookup name).isSome then mvo.map fun e ↦ if e.1 = name then (name, v) else e
  else mvo ++ [(name, v)]

/-- `graphene_extension_to_variant_visitor`. -/
def toVariantVisit :
    (ms : List ExtensionMember) → List (String × Variant) → ExtensionValue ms →
      List (String × Variant)
  | [], mvo, _ => mvo
  | m :: ms, mvo, (x, v) =>
    toVariantVisit ms (if x.isSome then setEntry mvo m.name (m.toVariant x) else mvo) v

/-- `to_variant`. -/
def toVariant (T : ExtensionType) (value : ExtensionValue T.members) : Variant :=
  .object (toVariantVisit T.members [] value)

/-- `graphene_extension_from_variant_visitor`, on a struct with no member set: what it sets, and
`count_left`. -/
def fromVariantVisit :
    (ms : List ExtensionMember) → List (String × Variant) → ℕ → Option (ExtensionValue ms × ℕ)
  | [], _, countLeft => some ((), countLeft)
  | m :: ms, vo, countLeft =>
    match vo.lookup m.name with
    | some var => do
      let x ← m.fromVariant var
      let (v, countLeft) ← fromVariantVisit ms vo (countLeft - 1)
      some ((x, v), countLeft)
    | none => do
      let (v, countLeft) ← fromVariantVisit ms vo countLeft
      some ((none, v), countLeft)

/-- The struct with no member set. -/
def noneSet : (ms : List ExtensionMember) → ExtensionValue ms
  | [] => ()
  | _ :: ms => (none, noneSet ms)

/-- `from_variant`; throws where an entry is left that no member took. -/
def fromVariant (T : ExtensionType) : Variant → Option (ExtensionValue T.members)
  | .null => some (noneSet T.members)
  | .array elems => if elems.length = 0 then some (noneSet T.members) else none
  | .object vo => do
    let (value, countLeft) ← fromVariantVisit T.members vo vo.length
    if countLeft = 0 then some value else none
  | .uint64 _ | .scalar _ => none

variable {varint : Codec UInt32} {ms : List ExtensionMember}

/-! ## What is unpacked -/

theorem countSet_le (v : ExtensionValue ms) : countSet ms v ≤ ms.length := by
  induction ms with
  | nil => exact Nat.le_refl 0
  | cons m ms ih =>
    have hle := ih v.2
    show (if v.1.isSome then 1 else 0) + countSet ms v.2 ≤ ms.length + 1
    split_ifs <;> omega

/-- The members have been counted. -/
theorem packCount_eq (count : UInt32) (v : ExtensionValue ms) :
    packCount ms count v = count + UInt32.ofNat (countSet ms v) := by
  induction ms generalizing count with
  | nil => exact (UInt32.add_zero count).symm
  | cons m ms ih =>
    show packCount ms (count + if v.1.isSome then 1 else 0) v.2 =
      count + UInt32.ofNat ((if v.1.isSome then 1 else 0) + countSet ms v.2)
    rw [ih, UInt32.ofNat_add, ← UInt32.add_assoc]
    split_ifs <;> rfl

/-- The bytes, up to `rest`, are those of the members that are set: in order, and each with its
index.  What the bytes of a value are is up to the member. -/
def Reads (varint : Codec UInt32) :
    (ms : List ExtensionMember) → UInt32 → List UInt8 → ExtensionValue ms → List UInt8 → Prop
  | [], _, bytes, _, rest => bytes = rest
  | m :: ms, which, bytes, (some a, v), rest =>
    ∃ b₁ b₂, bytes = varint.pack which ++ b₁ ∧ m.codec.unpack b₁ = some (a, b₂) ∧
      Reads varint ms (which + 1) b₂ v rest
  | _ :: ms, which, bytes, (none, v), rest => Reads varint ms (which + 1) bytes v rest

/-- What was packed is read. -/
theorem reads_packRead (which : UInt32) (v : ExtensionValue ms) (rest : List UInt8) :
    Reads varint ms which (packRead varint ms which v ++ rest) v rest := by
  induction ms generalizing which with
  | nil => rfl
  | cons m ms ih =>
    obtain ⟨_ | a, v⟩ := v
    · exact ih (which + 1) v
    · refine ⟨m.codec.pack a ++ (packRead varint ms (which + 1) v ++ rest), _, ?_,
        m.codec.unpack_pack a _, ih (which + 1) v⟩
      simp only [packRead, List.append_assoc]

/-- If the members unpack nothing but what they pack, nothing else is read. -/
theorem Reads.eq_packRead_append {which : UInt32} {bytes rest : List UInt8} {v : ExtensionValue ms}
    (h : Reads varint ms which bytes v rest) (hms : ∀ m ∈ ms, m.codec.Canonical) :
    bytes = packRead varint ms which v ++ rest := by
  induction ms generalizing which bytes with
  | nil => exact h
  | cons m ms ih =>
    have hms' : ∀ m ∈ ms, m.codec.Canonical := fun m hm ↦ hms m (List.mem_cons_of_mem _ hm)
    obtain ⟨_ | a, v⟩ := v
    · exact ih h hms'
    · obtain ⟨b₁, b₂, rfl, hunpack, hreads⟩ := h
      rw [(hms m List.mem_cons_self).eq_pack_append hunpack, ih hreads hms']
      simp only [packRead, List.append_assoc]

/-- What is read begins with the index of a member, if one is set. -/
theorem Reads.eq_pack_append {which : UInt32} {bytes rest : List UInt8} {v : ExtensionValue ms}
    (h : Reads varint ms which bytes v rest) (hpos : 0 < countSet ms v) :
    ∃ k < ms.length, ∃ b, bytes = varint.pack (which + UInt32.ofNat k) ++ b := by
  induction ms generalizing which bytes with
  | nil => exact absurd hpos (Nat.lt_irrefl 0)
  | cons m ms ih =>
    obtain ⟨_ | a, v⟩ := v
    · rw [countSet, Option.isSome_none, if_neg Bool.false_ne_true, Nat.zero_add] at hpos
      obtain ⟨k, hk, b, hb⟩ := ih h hpos
      refine ⟨k + 1, Nat.succ_lt_succ hk, b, hb.trans ?_⟩
      rw [UInt32.ofNat_add, UInt32.add_assoc, UInt32.add_comm 1]
      rfl
    · obtain ⟨b₁, b₂, hb, -, -⟩ := h
      refine ⟨0, Nat.succ_pos _, b₁, hb.trans ?_⟩
      show varint.pack which ++ b₁ = varint.pack (which + 0) ++ b₁
      rw [UInt32.add_zero]

namespace UnpackVisitor

/-- What was not used yet: the stream, and the index that was read last. -/
def unused (varint : Codec UInt32) (s : UnpackVisitor) : List UInt8 :=
  if 0 < s.countLeft then varint.pack s.nextWhich ++ s.stream else s.stream

variable {s s' : UnpackVisitor}

/-- Reading an index uses nothing. -/
theorem maybeReadNextWhich_spec (hvarint : varint.Canonical)
    (h : s.maybeReadNextWhich varint = some s') :
    s'.unused varint = s.stream ∧ s'.countLeft = s.countLeft ∧ s'.which = s.which := by
  rw [maybeReadNextWhich] at h
  split_ifs at h with hleft
  · obtain ⟨⟨w, stream⟩, hw, hs⟩ := Option.bind_eq_some_iff.1 h
    obtain rfl := Option.some_inj.1 hs
    exact ⟨(if_pos hleft).trans (hvarint.eq_pack_append hw).symm, rfl, rfl⟩
  · obtain rfl := Option.some_inj.1 h
    exact ⟨if_neg hleft, rfl, rfl⟩

theorem exists_maybeReadNextWhich (varint : Codec UInt32) (s : UnpackVisitor)
    (h : 0 < s.countLeft → ∃ w b, s.stream = varint.pack w ++ b) :
    ∃ s', s.maybeReadNextWhich varint = some s' := by
  rw [maybeReadNextWhich]
  split_ifs with hleft
  · obtain ⟨w, b, hb⟩ := h hleft
    rw [hb, varint.unpack_pack]
    exact ⟨_, rfl⟩
  · exact ⟨_, rfl⟩

theorem visit_none {m : ExtensionMember} {v : ExtensionValue ms} :
    s.visit varint (m :: ms) = some ((none, v), s') ↔
      ¬(0 < s.countLeft ∧ s.which = s.nextWhich) ∧
        visit varint ms { s with which := s.which + 1 } = some (v, s') := by
  rw [visit, visitMember, Option.bind_eq_bind]
  constructor
  · intro h
    obtain ⟨⟨x, s₁⟩, hmember, h⟩ := Option.bind_eq_some_iff.1 h
    obtain ⟨⟨v', s₂⟩, hvisit, h⟩ := Option.bind_eq_some_iff.1 h
    obtain ⟨hv, rfl⟩ := Prod.mk.inj (Option.some_inj.1 h)
    obtain ⟨rfl, rfl⟩ := Prod.mk.inj hv
    split_ifs at hmember with hnext
    · obtain ⟨_, -, hmember⟩ := Option.bind_eq_some_iff.1 hmember
      obtain ⟨_, -, hmember⟩ := Option.bind_eq_some_iff.1 hmember
      cases hmember
    · obtain ⟨-, rfl⟩ := Prod.mk.inj (Option.some_inj.1 hmember)
      exact ⟨hnext, hvisit⟩
  · rintro ⟨hnext, hvisit⟩
    rw [if_neg hnext]
    show (visit varint ms { s with which := s.which + 1 }).bind _ = _
    rw [hvisit]
    rfl

theorem visit_some {m : ExtensionMember} {a : m.Value} {v : ExtensionValue ms} :
    s.visit varint (m :: ms) = some ((some a, v), s') ↔
      (0 < s.countLeft ∧ s.which = s.nextWhich) ∧ ∃ b s₁,
        m.codec.unpack s.stream = some (a, b) ∧
        maybeReadNextWhich varint { s with countLeft := s.countLeft - 1, stream := b } = some s₁ ∧
        visit varint ms { s₁ with which := s₁.which + 1 } = some (v, s') := by
  rw [visit, visitMember, Option.bind_eq_bind]
  constructor
  · intro h
    obtain ⟨⟨x, s₁⟩, hmember, h⟩ := Option.bind_eq_some_iff.1 h
    obtain ⟨⟨v', s₂⟩, hvisit, h⟩ := Option.bind_eq_some_iff.1 h
    obtain ⟨hv, rfl⟩ := Prod.mk.inj (Option.some_inj.1 h)
    obtain ⟨rfl, rfl⟩ := Prod.mk.inj hv
    split_ifs at hmember with hnext
    · obtain ⟨⟨temp, b⟩, hunpack, hmember⟩ := Option.bind_eq_some_iff.1 hmember
      obtain ⟨s₃, hread, hmember⟩ := Option.bind_eq_some_iff.1 hmember
      obtain ⟨htemp, rfl⟩ := Prod.mk.inj (Option.some_inj.1 hmember)
      obtain rfl := Option.some_inj.1 htemp
      exact ⟨hnext, b, s₃, hunpack, hread, hvisit⟩
    · cases hmember
  · rintro ⟨hnext, b, s₁, hunpack, hread, hvisit⟩
    rw [if_pos hnext, hunpack]
    show ((maybeReadNextWhich varint { s with countLeft := s.countLeft - 1, stream := b }).bind
      _).bind _ = _
    rw [hread]
    show (visit varint ms { s₁ with which := s₁.which + 1 }).bind _ = _
    rw [hvisit]
    rfl

theorem pos_of_countLeft {n : ℕ} {count : UInt32} (hcount : count = UInt32.ofNat n)
    (hpos : 0 < count) : 0 < n := by
  refine Nat.pos_of_ne_zero fun hzero ↦ ?_
  rw [hcount, hzero] at hpos
  exact absurd hpos (by decide)

/-- Where a member is not set, its index is not the one that was read last. -/
theorem not_next_of_reads {v : ExtensionValue ms} {rest : List UInt8}
    (hlen : s.which.toNat + (ms.length + 1) < 2 ^ 32)
    (hleft : s.countLeft = UInt32.ofNat (countSet ms v))
    (hreads : Reads varint ms (s.which + 1) (s.unused varint) v rest) :
    ¬(0 < s.countLeft ∧ s.which = s.nextWhich) := by
  rintro ⟨hpos, hnext⟩
  obtain ⟨k, hk, b, hb⟩ := hreads.eq_pack_append (pos_of_countLeft hleft hpos)
  rw [unused, if_pos hpos, ← hnext] at hb
  have hwhich := congrArg UInt32.toNat (Codec.pack_append_inj hb).1
  rw [UInt32.toNat_add, UInt32.toNat_add, UInt32.toNat_ofNat', UInt32.toNat_one] at hwhich
  omega

/-- **The visit** of the members reads those that are set, and leaves no value over. -/
theorem visit_iff (hvarint : varint.Canonical) {v : ExtensionValue ms} {rest : List UInt8}
    (hlen : s.which.toNat + ms.length < 2 ^ 32) :
    (∃ s', s.visit varint ms = some (v, s') ∧ s'.countLeft = 0 ∧ s'.stream = rest) ↔
      s.countLeft = UInt32.ofNat (countSet ms v) ∧
        Reads varint ms s.which (s.unused varint) v rest := by
  induction ms generalizing s with
  | nil =>
    constructor
    · rintro ⟨s', hvisit, hleft, rfl⟩
      obtain ⟨-, rfl⟩ := Prod.mk.inj (Option.some_inj.1 hvisit)
      exact ⟨hleft, if_neg (by simp [hleft])⟩
    · rintro ⟨hleft, hreads⟩
      have hunused : s.unused varint = s.stream := if_neg (by simp [hleft, countSet])
      exact ⟨s, rfl, hleft, hunused.symm.trans hreads⟩
  | cons m ms ih =>
    rw [List.length_cons] at hlen
    have hnext : (s.which + 1).toNat = s.which.toNat + 1 := by
      rw [UInt32.toNat_add]
      exact Nat.mod_eq_of_lt (by show s.which.toNat + 1 < 2 ^ 32; omega)
    obtain ⟨_ | a, v⟩ := v
    · have hcount : countSet (m :: ms) (none, v) = countSet ms v := Nat.zero_add _
      have ih := ih (s := { s with which := s.which + 1 }) (v := v) (by rw [hnext]; omega)
      rw [hcount]
      constructor
      · rintro ⟨s', hvisit, hs'⟩
        exact ih.1 ⟨s', (visit_none.1 hvisit).2, hs'⟩
      · rintro ⟨hleft, hreads⟩
        obtain ⟨s', hvisit, hs'⟩ := ih.2 ⟨hleft, hreads⟩
        exact ⟨s', visit_none.2 ⟨not_next_of_reads (by omega) hleft hreads, hvisit⟩, hs'⟩
    · have hcount : countSet (m :: ms) (some a, v) = 1 + countSet ms v := rfl
      have hle := countSet_le v
      rw [hcount]
      constructor
      · rintro ⟨s', hvisit, hs'⟩
        obtain ⟨⟨hpos, heq⟩, b, s₁, hunpack, hread, hvisit⟩ := visit_some.1 hvisit
        obtain ⟨hunused, hleft₁, hwhich₁⟩ := maybeReadNextWhich_spec hvarint hread
        obtain ⟨hleft, hreads⟩ := (ih (s := { s₁ with which := s₁.which + 1 }) (v := v) (by
          show (s₁.which + 1).toNat + ms.length < 2 ^ 32
          rw [hwhich₁, hnext]
          omega)).1 ⟨s', hvisit, hs'⟩
        have hreads : Reads varint ms (s₁.which + 1) (s₁.unused varint) v rest := hreads
        rw [hwhich₁, hunused] at hreads
        refine ⟨?_, s.stream, b, (if_pos hpos).trans (by rw [heq]), hunpack, hreads⟩
        rw [UInt32.ofNat_add, ← hleft, hleft₁, UInt32.add_comm]
        exact (UInt32.sub_add_cancel _ _).symm
      · rintro ⟨hleft, b₁, b₂, hb, hunpack, hreads⟩
        have hpos : 0 < s.countLeft := by
          rw [hleft, UInt32.lt_iff_toNat_lt, UInt32.toNat_ofNat']
          show 0 < _
          omega
        rw [unused, if_pos hpos] at hb
        obtain ⟨heq, rfl⟩ := Codec.pack_append_inj hb
        have hleft' : s.countLeft - 1 = UInt32.ofNat (countSet ms v) := by
          rw [hleft, UInt32.ofNat_add, UInt32.add_comm]
          exact UInt32.add_sub_cancel _ _
        obtain ⟨s₁, hread⟩ := exists_maybeReadNextWhich varint
          { s with countLeft := s.countLeft - 1, stream := b₂ } fun hset ↦ by
            have hset : 0 < s.countLeft - 1 := hset
            obtain ⟨k, -, b, hb⟩ := hreads.eq_pack_append (pos_of_countLeft hleft' hset)
            exact ⟨_, b, hb⟩
        obtain ⟨hunused, hleft₁, hwhich₁⟩ := maybeReadNextWhich_spec hvarint hread
        obtain ⟨s', hvisit, hs'⟩ := (ih (s := { s₁ with which := s₁.which + 1 }) (v := v) (by
          show (s₁.which + 1).toNat + ms.length < 2 ^ 32
          rw [hwhich₁, hnext]
          omega)).2 ⟨hleft₁.trans hleft', by
            show Reads varint ms (s₁.which + 1) (s₁.unused varint) v rest
            rw [hwhich₁, hunused]
            exact hreads⟩
        exact ⟨s', visit_some.2 ⟨⟨hpos, heq.symm⟩, b₂, s₁, hunpack, hread, hvisit⟩, hs'⟩

end UnpackVisitor

/-- **What is unpacked**: as many values as the number at the front says, of members in order. -/
theorem unpack_eq_some_iff (hvarint : varint.Canonical) {T : ExtensionType}
    {bytes rest : List UInt8} {value : ExtensionValue T.members} :
    unpack varint T bytes = some (value, rest) ↔
      ∃ b, bytes = varint.pack (packCount T.members 0 value) ++ b ∧
        Reads varint T.members 0 b value rest := by
  have hcount : packCount T.members 0 value = UInt32.ofNat (countSet T.members value) := by
    rw [packCount_eq, UInt32.zero_add]
  have hlen : (0 : UInt32).toNat + T.members.length < 2 ^ 32 := by
    rw [UInt32.toNat_zero, Nat.zero_add]
    exact T.length_lt
  rw [hcount]
  constructor
  · intro h
    obtain ⟨⟨c, stream⟩, hc, h⟩ := Option.bind_eq_some_iff.1 h
    obtain ⟨s, hread, h⟩ := Option.bind_eq_some_iff.1 h
    obtain ⟨⟨value', s'⟩, hvisit, h⟩ := Option.bind_eq_some_iff.1 h
    dsimp only at h
    split_ifs at h with hzero
    obtain ⟨rfl, hrest⟩ := Prod.mk.inj (Option.some_inj.1 h)
    obtain ⟨hunused, hleft, hwhich⟩ := UnpackVisitor.maybeReadNextWhich_spec hvarint hread
    obtain ⟨hleft', hreads⟩ :=
      (UnpackVisitor.visit_iff hvarint (hwhich ▸ hlen)).1 ⟨s', hvisit, hzero, hrest⟩
    rw [hwhich, hunused] at hreads
    refine ⟨stream, ?_, hreads⟩
    rw [← hleft', hleft]
    exact hvarint.eq_pack_append hc
  · rintro ⟨b, rfl, hreads⟩
    obtain ⟨s, hread⟩ := UnpackVisitor.exists_maybeReadNextWhich varint
      { countLeft := UInt32.ofNat (countSet T.members value), stream := b } fun hpos ↦ by
        obtain ⟨k, -, b', hb⟩ := hreads.eq_pack_append (UnpackVisitor.pos_of_countLeft rfl hpos)
        exact ⟨_, b', hb⟩
    obtain ⟨hunused, hleft, hwhich⟩ := UnpackVisitor.maybeReadNextWhich_spec hvarint hread
    obtain ⟨s', hvisit, hzero, hrest⟩ := (UnpackVisitor.visit_iff hvarint (hwhich ▸ hlen)).2
      ⟨hleft, by rw [hwhich, hunused]; exact hreads⟩
    rw [unpack, varint.unpack_pack]
    show (UnpackVisitor.maybeReadNextWhich varint _).bind _ = _
    rw [hread]
    show (UnpackVisitor.visit varint T.members s).bind _ = _
    rw [hvisit]
    show (if s'.countLeft = 0 then _ else _) = _
    rw [if_pos hzero, hrest]

/-! ## What is converted -/

/-- The entry of a member. -/
def entryOf (m : ExtensionMember) (x : Option m.Value) : Option Variant :=
  if x.isSome then some (m.toVariant x) else none

/-- The object has the entries of the members. -/
def HasEntries (vo : List (String × Variant)) :
    (ms : List ExtensionMember) → ExtensionValue ms → Prop
  | [], _ => True
  | m :: ms, (x, v) => vo.lookup m.name = entryOf m x ∧ HasEntries vo ms v

/-- An object with the entries of the members is converted back to them. -/
theorem fromVariantVisit_eq {vo : List (String × Variant)} {v : ExtensionValue ms}
    (h : HasEntries vo ms v) (countLeft : ℕ) :
    fromVariantVisit ms vo countLeft = some (v, countLeft - countSet ms v) := by
  induction ms generalizing countLeft with
  | nil => rfl
  | cons m ms ih =>
    obtain ⟨x, v⟩ := v
    obtain ⟨hlookup, hrest⟩ := h
    rw [fromVariantVisit, hlookup]
    cases x with
    | none =>
      show (fromVariantVisit ms vo countLeft).bind _ = _
      rw [ih hrest]
      show some ((none, v), countLeft - countSet ms v) = some ((none, v), countLeft - (0 + _))
      rw [Nat.zero_add]
    | some a =>
      show (m.fromVariant (m.toVariant (some a))).bind _ = _
      rw [m.fromVariant_toVariant, Option.bind_some]
      show (fromVariantVisit ms vo (countLeft - 1)).bind _ = _
      rw [ih hrest]
      show some ((some a, v), countLeft - 1 - countSet ms v) =
        some ((some a, v), countLeft - (1 + _))
      rw [Nat.sub_sub]

theorem setEntry_of_lookup_eq_none {mvo : List (String × Variant)} {name : String}
    (h : mvo.lookup name = none) (v : Variant) : setEntry mvo name v = mvo ++ [(name, v)] := by
  rw [setEntry, h]
  rfl

theorem lookup_setEntry {mvo : List (String × Variant)} {name : String}
    (h : mvo.lookup name = none) (v : Variant) (name' : String) :
    (setEntry mvo name v).lookup name' = if name' = name then some v else mvo.lookup name' := by
  rw [setEntry_of_lookup_eq_none h, List.lookup_append]
  by_cases hname : name' = name
  · simp [hname, h]
  · have hbeq : (name' == name) = false := beq_eq_false_iff_ne.2 hname
    simp [List.lookup_cons, hname, hbeq]

/-- The visit of the members adds an entry for each that is set. -/
theorem toVariantVisit_spec (mvo : List (String × Variant)) (v : ExtensionValue ms)
    (hnodup : (ms.map ExtensionMember.name).Nodup)
    (hmvo : ∀ m ∈ ms, mvo.lookup m.name = none) :
    HasEntries (toVariantVisit ms mvo v) ms v ∧
      (toVariantVisit ms mvo v).length = mvo.length + countSet ms v ∧
      ∀ name, name ∉ ms.map ExtensionMember.name →
        (toVariantVisit ms mvo v).lookup name = mvo.lookup name := by
  induction ms generalizing mvo with
  | nil => exact ⟨trivial, rfl, fun _ _ ↦ rfl⟩
  | cons m ms ih =>
    obtain ⟨x, v⟩ := v
    obtain ⟨hm, hnodup⟩ := List.nodup_cons.1 hnodup
    have hfresh := hmvo m List.mem_cons_self
    have hnames : ∀ m' ∈ ms, m'.name ≠ m.name := fun m' hm' heq ↦
      hm (List.mem_map.2 ⟨m', hm', heq⟩)
    cases x with
    | none =>
      obtain ⟨hentries, hlength, hother⟩ := ih mvo v hnodup fun m' hm' ↦
        hmvo m' (List.mem_cons_of_mem _ hm')
      refine ⟨⟨(hother m.name hm).trans hfresh, hentries⟩, ?_, fun name hname ↦ ?_⟩
      · rw [countSet, Option.isSome_none, if_neg Bool.false_ne_true, Nat.zero_add]
        exact hlength
      · exact hother name fun hmem ↦ hname (List.mem_cons_of_mem _ hmem)
    | some a =>
      have hset := lookup_setEntry hfresh (m.toVariant (some a))
      obtain ⟨hentries, hlength, hother⟩ :=
        ih (setEntry mvo m.name (m.toVariant (some a))) v hnodup fun m' hm' ↦ by
          rw [hset, if_neg (hnames m' hm')]
          exact hmvo m' (List.mem_cons_of_mem _ hm')
      refine ⟨⟨?_, hentries⟩, ?_, fun name hname ↦ ?_⟩
      · refine (hother m.name hm).trans ?_
        rw [hset, if_pos rfl]
        rfl
      · refine hlength.trans ?_
        rw [setEntry_of_lookup_eq_none hfresh, List.length_append, List.length_singleton, countSet,
          Option.isSome_some, if_pos rfl, Nat.add_assoc]
      · refine (hother name fun hmem ↦ hname (List.mem_cons_of_mem _ hmem)).trans ?_
        rw [hset, if_neg]
        rintro rfl
        exact hname List.mem_cons_self

/-- **What was converted** is converted back. -/
theorem fromVariant_toVariant (T : ExtensionType) (value : ExtensionValue T.members) :
    fromVariant T (toVariant T value) = some value := by
  obtain ⟨hentries, hlength, -⟩ :=
    toVariantVisit_spec [] value T.nodup fun _ _ ↦ rfl
  rw [toVariant, fromVariant, fromVariantVisit_eq hentries, hlength, List.length_nil, Nat.zero_add,
    Nat.sub_self]
  rfl

/-- **Extensions round-trip.** What was packed is unpacked, and no other bytes are used; what was
converted to a variant is converted back; only the members that are set are unpacked, in order and
each once; and if the members unpack nothing but what they pack, neither does the extension. -/
theorem extension_round_trips (hvarint : varint.Canonical) (T : ExtensionType) :
    (∀ value rest, unpack varint T (pack varint T value ++ rest) = some (value, rest)) ∧
    (∀ value, fromVariant T (toVariant T value) = some value) ∧
    (∀ bytes value rest, unpack varint T bytes = some (value, rest) →
      ∃ b, bytes = varint.pack (packCount T.members 0 value) ++ b ∧
        Reads varint T.members 0 b value rest) ∧
    ((∀ m ∈ T.members, m.codec.Canonical) →
      ∀ bytes value rest, unpack varint T bytes = some (value, rest) →
        bytes = pack varint T value ++ rest) := by
  refine ⟨fun value rest ↦ ?_, fromVariant_toVariant T, fun bytes value rest h ↦ ?_,
    fun hmembers bytes value rest h ↦ ?_⟩
  · refine (unpack_eq_some_iff hvarint).2 ⟨_, ?_, reads_packRead 0 value rest⟩
    rw [pack, List.append_assoc]
  · exact (unpack_eq_some_iff hvarint).1 h
  · obtain ⟨b, rfl, hreads⟩ := (unpack_eq_some_iff hvarint).1 h
    rw [hreads.eq_packRead_append hmembers, pack, List.append_assoc]

/-! ## Members that can be unpacked in other ways than they are packed -/

/-- `optional<void_t>`. -/
def nullExt : ExtensionMember where
  name := "null_ext"
  Value := Unit
  codec := { pack := fun _ ↦ [], unpack := fun bytes ↦ some ((), bytes), unpack_pack _ _ := rfl }
  toVariant x := if x.isSome then .object [] else .null
  fromVariant
    | .null => some none
    | .object _ => some (some ())
    | _ => none
  fromVariant_toVariant _ := rfl

/-- An optional id. -/
def assetToBuy : ExtensionMember where
  name := "asset_to_buy"
  Value := ℕ
  codec := .nat
  toVariant x := x.elim .null .uint64
  fromVariant
    | .null => some none
    | .uint64 n => some (some n)
    | _ => none
  fromVariant_toVariant _ := rfl

/-- The number of a variant. -/
def asUInt64 : Variant → Option ℕ
  | .uint64 n => some n
  | _ => none

theorem mapM_asUInt64 (l : List ℕ) : (l.map Variant.uint64).mapM asUInt64 = some l := by
  induction l with
  | nil => rfl
  | cons n l ih =>
    rw [List.map_cons, List.mapM_cons, ih]
    rfl

/-- An optional `flat_set` of ids. -/
def markets : ExtensionMember where
  name := "markets"
  Value := Finset ℕ
  codec := .finset .nat
  toVariant x := x.elim .null fun s ↦ .array ((s.sort (· ≤ ·)).map .uint64)
  fromVariant
    | .null => some none
    | .array elems => (elems.mapM asUInt64).map fun l ↦ some l.toFinset
    | _ => none
  fromVariant_toVariant s := by
    show (((s.sort (· ≤ ·)).map Variant.uint64).mapM asUInt64).map _ = _
    rw [mapM_asUInt64, Option.map_some, s.sort_toFinset]

/-- An extension without a set. -/
def withoutMarkets : ExtensionType where
  members := [nullExt, assetToBuy]
  nodup := by decide
  length_lt := by decide

/-- An extension with a set. -/
def withMarkets : ExtensionType where
  members := [nullExt, markets]
  nodup := by decide
  length_lt := by decide

theorem withoutMarkets_round_trips :
    unpack .varint withoutMarkets (pack .varint withoutMarkets (some (), some (7 : ℕ), ()) ++ [0]) =
      some ((some (), some (7 : ℕ), ()), [0]) ∧
    fromVariant withoutMarkets (toVariant withoutMarkets (none, some (7 : ℕ), ())) =
      some (none, some (7 : ℕ), ()) ∧
    [1, 1, 7] = pack .varint withoutMarkets (none, some (7 : ℕ), ()) ++ [] := by
  obtain ⟨hpack, hvariant, -, hcanonical⟩ :=
    extension_round_trips Codec.canonical_varint withoutMarkets
  refine ⟨hpack _ _, hvariant _, hcanonical ?_ _ _ _ rfl⟩
  intro m hm
  rcases List.mem_pair.1 hm with rfl | rfl
  · intro bytes a rest h
    exact (Prod.mk.inj (Option.some.inj h)).2
  · exact Codec.canonical_nat

/-- A set is unpacked in any order. -/
theorem unordered_markets_unpacked :
    ¬∀ bytes value rest, unpack .varint withMarkets bytes = some (value, rest) →
      bytes = pack .varint withMarkets value ++ rest := by
  intro h
  have hsets : ([2, 1] : List ℕ).toFinset = [1, 2].toFinset := by decide
  have h₁ := h [1, 1, 2, 2, 1] (none, some ([2, 1] : List ℕ).toFinset, ()) [] rfl
  have h₂ := h [1, 1, 2, 1, 2] (none, some ([1, 2] : List ℕ).toFinset, ()) [] rfl
  rw [hsets, ← h₂] at h₁
  exact absurd h₁ (by decide)

end Extension

end Graphene
