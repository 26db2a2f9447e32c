import Mathlib.Data.Finset.Sort
import Mathlib.Logic.Encodable.Basic
import Mathlib.Tactic.Common

/-!
# Packing and unpacking

A codec packs values into bytes and unpacks the value at the front of a string of bytes.

* `Codec` — a codec: what was packed is unpacked, and the bytes after it are left.
* `Codec.Canonical` — nothing is unpacked but what was packed.
* `Codec.nat`, `Codec.varint` — numbers, seven bits to the byte and lowest first, and the numbers
  of 32 bits among them.
* `Codec.ofEncodable` — values of a countable type.
* `Codec.finset` — sets, whose elements are packed in order, but unpacked in any.
-/

set_option autoImplicit false

namespace Graphene

/-- A way to write values as bytes. -/
structure Codec (α : Type) where
  /-- The bytes of a value. -/
  pack : α → List UInt8
  /-- The value at the front of some bytes, and the bytes after it; `none` if there is none. -/
  unpack : List UInt8 → Option (α × List UInt8)
  /-- What was packed is unpacked. -/
  unpack_pack : ∀ a rest, unpack (pack a ++ rest) = some (a, rest)

namespace Codec

variable {α : Type} {c : Codec α}

/-- Nothing is unpacked but what was packed. -/
def Canonical (c : Codec α) : Prop :=
  ∀ bytes a rest, c.unpack bytes = some (a, rest) → bytes = c.pack a ++ rest

theorem Canonical.eq_pack_append (h : c.Canonical) {bytes : List UInt8} {a : α}
    {rest : List UInt8} (hunpack : c.unpack bytes = some (a, rest)) : bytes = c.pack a ++ rest :=
  h bytes a rest hunpack

/-- No packed value is the beginning of another. -/
theorem pack_append_inj {a b : α} {rest rest' : List UInt8}
    (h : c.pack a ++ rest = c.pack b ++ rest') : a = b ∧ rest = rest' := by
  have ha := c.unpack_pack a rest
  rw [h, c.unpack_pack b rest'] at ha
  obtain ⟨hab, hrest⟩ := Prod.mk.inj (Option.some.inj ha)
  exact ⟨hab.symm, hrest.symm⟩

/-- Nothing is unpacked from less than what was packed. -/
theorem Canonical.unpack_take (h : c.Canonical) {a : α} {n : ℕ} (hn : n < (c.pack a).length) :
    c.unpack ((c.pack a).take n) = none := by
  rw [Option.eq_none_iff_forall_ne_some]
  rintro ⟨b, rest⟩ hunpack
  have htake := h.eq_pack_append hunpack
  have hpack : c.pack a ++ [] = c.pack b ++ (rest ++ (c.pack a).drop n) := by
    rw [← List.append_assoc, ← htake, List.take_append_drop, List.append_nil]
  have hlen := congrArg List.length (pack_append_inj hpack).2
  rw [List.length_nil, List.length_append, List.length_drop] at hlen
  omega

/-! ## Numbers -/

/-- The bytes of a number: seven bits to the byte, lowest first, and the high bit set in every byte
but the last. -/
def packNat (n : ℕ) : List UInt8 :=
  if n < 128 then [UInt8.ofNat n] else UInt8.ofNat (n % 128 + 128) :: packNat (n / 128)
termination_by n
decreasing_by omega

/-- The number at the front of some bytes; one that could be shorter is rejected. -/
def unpackNat : List UInt8 → Option (ℕ × List UInt8)
  | [] => none
  | b :: bytes =>
    if b.toNat < 128 then some (b.toNat, bytes)
    else
      match unpackNat bytes with
      | some (n + 1, rest) => some (b.toNat - 128 + 128 * (n + 1), rest)
      | _ => none

theorem packNat_of_lt {n : ℕ} (h : n < 128) : packNat n = [UInt8.ofNat n] := by
  rw [packNat, if_pos h]

theorem packNat_of_le {n : ℕ} (h : 128 ≤ n) :
    packNat n = UInt8.ofNat (n % 128 + 128) :: packNat (n / 128) := by
  rw [packNat, if_neg (by omega)]

theorem toNat_ofNat_of_lt {n : ℕ} (h : n < 256) : (UInt8.ofNat n).toNat = n := by
  rw [UInt8.toNat_ofNat']
  exact Nat.mod_eq_of_lt h

theorem packNat_ne_nil (n : ℕ) : packNat n ≠ [] := by
  rw [packNat]
  split_ifs <;> simp

theorem unpackNat_packNat (n : ℕ) (rest : List UInt8) :
    unpackNat (packNat n ++ rest) = some (n, rest) := by
  induction n using Nat.strongRecOn with
  | ind n ih =>
    rcases Nat.lt_or_ge n 128 with hlt | hle
    · rw [packNat_of_lt hlt, List.singleton_append, unpackNat,
        toNat_ofNat_of_lt (by omega), if_pos hlt]
    · have hpos : n / 128 = (n / 128 - 1) + 1 := by omega
      rw [packNat_of_le hle, List.cons_append, unpackNat, toNat_ofNat_of_lt (by omega),
        if_neg (by omega), ih (n / 128) (by omega), hpos]
      simp only [Option.some.injEq, Prod.mk.injEq, and_true]
      omega

theorem eq_packNat_append {bytes : List UInt8} {n : ℕ} {rest : List UInt8}
    (h : unpackNat bytes = some (n, rest)) : bytes = packNat n ++ rest := by
  induction bytes generalizing n with
  | nil => simp [unpackNat] at h
  | cons b bytes ih =>
    rw [unpackNat] at h
    split_ifs at h with hlt
    · obtain ⟨rfl, rfl⟩ := Prod.mk.inj (Option.some.inj h)
      rw [packNat_of_lt hlt, UInt8.ofNat_toNat, List.singleton_append]
    · split at h
      · rename_i m rest' hrest
        obtain ⟨rfl, rfl⟩ := Prod.mk.inj (Option.some.inj h)
        have hb := b.toNat_lt
        rw [packNat_of_le (by omega), ih hrest, List.cons_append,
          show (b.toNat - 128 + 128 * (m + 1)) % 128 + 128 = b.toNat by omega,
          show (b.toNat - 128 + 128 * (m + 1)) / 128 = m + 1 by omega, UInt8.ofNat_toNat]
      · simp at h

/-- Numbers. -/
def nat : Codec ℕ where
  pack := packNat
  unpack := unpackNat
  unpack_pack := unpackNat_packNat

theorem canonical_nat : nat.Canonical := fun _ _ _ h ↦ eq_packNat_append h

/-! ## The values of another type that are packed as numbers -/

/-- The values that `f` numbers, where `g` undoes it. -/
def comap (c : Codec ℕ) (f : α → ℕ) (g : ℕ → Option α) (hg : ∀ a, g (f a) = some a) : Codec α where
  pack a := c.pack (f a)
  unpack bytes := do
    let (n, rest) ← c.unpack bytes
    let a ← g n
    some (a, rest)
  unpack_pack a rest := by
    rw [c.unpack_pack]
    show (g (f a)).bind _ = _
    rw [hg]
    rfl

theorem Canonical.comap {c : Codec ℕ} (h : c.Canonical) {f : α → ℕ} {g : ℕ → Option α}
    {hg : ∀ a, g (f a) = some a} (hf : ∀ n a, g n = some a → f a = n) :
    (c.comap f g hg).Canonical := by
  intro bytes a rest hunpack
  obtain ⟨⟨n, rest'⟩, hn, hunpack⟩ := Option.bind_eq_some_iff.1 hunpack
  obtain ⟨a', ha, hunpack⟩ := Option.bind_eq_some_iff.1 hunpack
  obtain ⟨rfl, rfl⟩ := Prod.mk.inj (Option.some.inj hunpack)
  rw [h.eq_pack_append hn, ← hf n a' ha]
  rfl

/-- Numbers of 32 bits. -/
def varint : Codec UInt32 :=
  nat.comap UInt32.toNat (fun n ↦ if n < 2 ^ 32 then some (UInt32.ofNat n) else none) fun n ↦ by
    rw [if_pos n.toNat_lt, UInt32.ofNat_toNat]

theorem canonical_varint : varint.Canonical := by
  refine canonical_nat.comap fun n a h ↦ ?_
  split_ifs at h with hn
  rw [← Option.some.inj h]
  exact UInt32.toNat_ofNat_of_lt' hn

/-- Values of a countable type. -/
def ofEncodable (α : Type) [Encodable α] : Codec α :=
  nat.comap Encodable.encode (Encodable.decode₂ α) Encodable.encodek₂

theorem canonical_ofEncodable [Encodable α] : (ofEncodable α).Canonical :=
  canonical_nat.comap fun _ _ h ↦ Encodable.mem_decode₂.1 h

/-! ## Strings of bytes -/

/-- The first `n` bytes, and the others. -/
def split (n : ℕ) (bytes : List UInt8) : Option (List UInt8 × List UInt8) :=
  if n ≤ bytes.length then some (bytes.take n, bytes.drop n) else none

theorem split_append (l rest : List UInt8) : split l.length (l ++ rest) = some (l, rest) := by
  simp [split]

theorem split_eq_some_iff {n : ℕ} {bytes l rest : List UInt8} :
    split n bytes = some (l, rest) ↔ l.length = n ∧ bytes = l ++ rest := by
  constructor
  · intro h
    rw [split] at h
    split_ifs at h with hn
    obtain ⟨rfl, rfl⟩ := Prod.mk.inj (Option.some.inj h)
    exact ⟨by rw [List.length_take, Nat.min_eq_left hn], (List.take_append_drop n bytes).symm⟩
  · rintro ⟨rfl, rfl⟩
    exact split_append l rest

/-- Strings of a length that need not be said. -/
def raw (n : ℕ) : Codec {l : List UInt8 // l.length = n} where
  pack l := l
  unpack bytes :=
    if h : (bytes.take n).length = n then some (⟨bytes.take n, h⟩, bytes.drop n) else none
  unpack_pack l rest := by
    obtain ⟨l, rfl⟩ := l
    simp

theorem canonical_raw (n : ℕ) : (raw n).Canonical := by
  intro bytes l rest h
  simp only [raw] at h ⊢
  split_ifs at h with hn
  obtain ⟨rfl, rfl⟩ := Prod.mk.inj (Option.some.inj h)
  exact (List.take_append_drop n bytes).symm

/-- Strings with their length in front. -/
def blob : Codec (List UInt8) where
  pack l := nat.pack l.length ++ l
  unpack bytes := do
    let (n, bytes) ← nat.unpack bytes
    split n bytes
  unpack_pack l rest := by
    rw [List.append_assoc, nat.unpack_pack]
    exact split_append l rest

theorem canonical_blob : blob.Canonical := by
  intro bytes l rest h
  obtain ⟨⟨n, bytes'⟩, hn, h⟩ := Option.bind_eq_some_iff.1 h
  obtain ⟨rfl, rfl⟩ := split_eq_some_iff.1 h
  rw [canonical_nat.eq_pack_append hn]
  exact (List.append_assoc ..).symm

/-! ## Sets -/

/-- `n` values. -/
def unpackMany (c : Codec α) : ℕ → List UInt8 → Option (List α × List UInt8)
  | 0, bytes => some ([], bytes)
  | n + 1, bytes => do
    let (a, bytes) ← c.unpack bytes
    let (l, bytes) ← unpackMany c n bytes
    some (a :: l, bytes)

theorem unpackMany_flatMap (l : List α) (rest : List UInt8) :
    c.unpackMany l.length (l.flatMap c.pack ++ rest) = some (l, rest) := by
  induction l with
  | nil => rfl
  | cons a l ih =>
    rw [List.flatMap_cons, List.append_assoc, List.length_cons, unpackMany, c.unpack_pack]
    show (c.unpackMany l.length _).bind _ = _
    rw [ih]
    rfl

/-- Sets: the number of the elements, and the elements in order.  Any elements are unpacked. -/
def finset [LinearOrder α] (c : Codec α) : Codec (Finset α) where
  pack s := nat.pack s.card ++ (s.sort (· ≤ ·)).flatMap c.pack
  unpack bytes := do
    let (n, bytes) ← nat.unpack bytes
    let (l, bytes) ← c.unpackMany n bytes
    some (l.toFinset, bytes)
  unpack_pack s rest := by
    rw [List.append_assoc, nat.unpack_pack, ← s.length_sort (· ≤ ·)]
    show (c.unpackMany (s.sort (· ≤ ·)).length _).bind _ = _
    rw [unpackMany_flatMap]
    show some ((s.sort (· ≤ ·)).toFinset, rest) = _
    rw [s.sort_toFinset]

end Codec

end Graphene
