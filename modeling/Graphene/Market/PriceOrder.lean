import Graphene.Market.OrderBook

/-!
# The order of prices

The order books are sorted by `operator<` of prices, which compares the assets first and then
multiplies across in 128 bits.  On prices of positive amounts it is the order of a key: the two
assets, and the exact ratio.

* `PositivePrice` — a price as it is stored, with positive amounts.
* `Price.lessUint128`, `Price.equalUint128` — the comparisons in 128 bits, which lose nothing.
* `Price.orderKey` — what prices are sorted by.
* `PositivePrice.lessEq_iff_not_less` — `<=` is what `>` denies.
* `price_order_strict_weak` — the comparison is a strict weak order.
-/

set_option autoImplicit false

namespace Graphene

/-! ## Comparisons in 128 bits -/

/-- `uint128_t( x ) * y`. -/
def mulUint128 (x y : ℤ) : ℤ := x % 2 ^ 128 * y % 2 ^ 128

namespace Price

variable (a b : Price)

/-- `a == b`, in 128 bits. -/
def equalUint128 : Bool :=
  a.base.assetId = b.base.assetId ∧ a.quote.assetId = b.quote.assetId ∧
    mulUint128 b.quote.amount a.base.amount = mulUint128 a.quote.amount b.base.amount

/-- `a < b`, in 128 bits. -/
def lessUint128 : Bool :=
  if a.base.assetId < b.base.assetId then true
  else if b.base.assetId < a.base.assetId then false
  else if a.quote.assetId < b.quote.assetId then true
  else if b.quote.assetId < a.quote.assetId then false
  else mulUint128 b.quote.amount a.base.amount < mulUint128 a.quote.amount b.base.amount

/-- Two prices are of the same assets. -/
def SamePair : Prop := a.base.assetId = b.base.assetId ∧ a.quote.assetId = b.quote.assetId

/-- What prices are sorted by: the assets, and then the ratio. -/
def orderKey (p : Price) : ℕ ×ₗ ℕ ×ₗ ℚ := toLex (p.base.assetId, toLex (p.quote.assetId, p.ratio))

end Price

/-- A price of positive amounts, each of which is an `int64_t`. -/
structure PositivePrice extends Price where
  /-- Something is given. -/
  base_pos : 0 < base.amount
  /-- Something is asked for. -/
  quote_pos : 0 < quote.amount
  /-- It is an `int64_t`. -/
  base_lt : base.amount < 2 ^ 63
  /-- It is an `int64_t`. -/
  quote_lt : quote.amount < 2 ^ 63

namespace PositivePrice

variable (a b : PositivePrice)

/-- `a < b`. -/
def Less : Prop := a.lessUint128 b.toPrice = true

/-- `a == b`. -/
def Equal : Prop := a.equalUint128 b.toPrice = true

/-- `a <= b`. -/
def LessEq : Prop := a.Equal b ∨ a.Less b

/-- Neither price is less than the other. -/
def Incomparable : Prop := ¬a.Less b ∧ ¬b.Less a

/-- `~p`. -/
def inverse (p : PositivePrice) : PositivePrice :=
  ⟨p.toPrice.inverse, p.quote_pos, p.base_pos, p.quote_lt, p.base_lt⟩

end PositivePrice

/-! ## Nothing is lost in 128 bits -/

theorem mulUint128_eq {x y : ℤ} (hx : 0 ≤ x) (hy : 0 ≤ y) (hx' : x < 2 ^ 63) (hy' : y < 2 ^ 63) :
    mulUint128 x y = x * y := by
  have hlt : x * y < 2 ^ 128 :=
    calc x * y ≤ 2 ^ 63 * 2 ^ 63 := mul_le_mul hx'.le hy'.le hy (by decide)
      _ < 2 ^ 128 := by decide
  rw [mulUint128, Int.emod_eq_of_lt hx (hx'.trans (by decide)),
    Int.emod_eq_of_lt (mul_nonneg hx hy) hlt]

namespace PositivePrice

variable (a b : PositivePrice)

theorem cross_base : mulUint128 b.quote.amount a.base.amount = b.quote.amount * a.base.amount :=
  mulUint128_eq b.quote_pos.le a.base_pos.le b.quote_lt a.base_lt

theorem lessUint128_eq : a.lessUint128 b.toPrice = a.less b.toPrice := by
  rw [Price.lessUint128, Price.less, cross_base, cross_base]

theorem equalUint128_eq : a.equalUint128 b.toPrice = a.equal b.toPrice := by
  rw [Price.equalUint128, Price.equal, cross_base, cross_base]

/-! ## The comparison is the order of a key -/

theorem cross_lt_iff :
    b.quote.amount * a.base.amount < a.quote.amount * b.base.amount ↔
      a.ratio < b.ratio := by
  rw [Price.ratio, Price.ratio,
    div_lt_div_iff₀ (Int.cast_pos.2 a.quote_pos) (Int.cast_pos.2 b.quote_pos), mul_comm,
    mul_comm a.quote.amount]
  exact_mod_cast Iff.rfl

theorem cross_eq_iff :
    b.quote.amount * a.base.amount = a.quote.amount * b.base.amount ↔
      a.ratio = b.ratio := by
  rw [Price.ratio, Price.ratio,
    div_eq_div_iff (Int.cast_pos.2 a.quote_pos).ne' (Int.cast_pos.2 b.quote_pos).ne', mul_comm,
    mul_comm a.quote.amount]
  exact_mod_cast Iff.rfl

theorem less_iff_orderKey : a.Less b ↔ a.orderKey < b.orderKey := by
  rw [Less, lessUint128_eq, Price.less, Price.orderKey, Price.orderKey, Prod.Lex.toLex_lt_toLex,
    Prod.Lex.toLex_lt_toLex]
  have hcross := cross_lt_iff a b
  split_ifs with hbase hbase' hquote hquote'
  · exact iff_of_true rfl (.inl hbase)
  · refine iff_of_false not_false ?_
    rintro (hlt | ⟨heq, -⟩)
    · exact hbase hlt
    · exact hbase'.ne heq.symm
  · exact iff_of_true rfl (.inr ⟨le_antisymm (not_lt.1 hbase') (not_lt.1 hbase), .inl hquote⟩)
  · refine iff_of_false not_false ?_
    rintro (hlt | ⟨-, hlt | ⟨heq, -⟩⟩)
    · exact hbase hlt
    · exact hquote hlt
    · exact hquote'.ne heq.symm
  · rw [decide_eq_true_iff, hcross]
    refine ⟨fun hlt ↦ .inr ⟨le_antisymm (not_lt.1 hbase') (not_lt.1 hbase),
      .inr ⟨le_antisymm (not_lt.1 hquote') (not_lt.1 hquote), hlt⟩⟩, ?_⟩
    rintro (hlt | ⟨-, hlt | ⟨-, hlt⟩⟩)
    · exact absurd hlt hbase
    · exact absurd hlt hquote
    · exact hlt

theorem equal_iff_orderKey : a.Equal b ↔ a.orderKey = b.orderKey := by
  rw [Equal, equalUint128_eq, Price.equal, decide_eq_true_iff, cross_eq_iff, Price.orderKey,
    Price.orderKey, EmbeddingLike.apply_eq_iff_eq, Prod.mk.injEq, EmbeddingLike.apply_eq_iff_eq,
    Prod.mk.injEq]

theorem incomparable_iff_orderKey : a.Incomparable b ↔ a.orderKey = b.orderKey := by
  rw [Incomparable, less_iff_orderKey, less_iff_orderKey, not_lt, not_lt, and_comm]
  exact le_antisymm_iff.symm

/-- `<=` is what `>` denies, so that the four comparisons agree. -/
theorem lessEq_iff_not_less : a.LessEq b ↔ ¬b.Less a := by
  rw [LessEq, equal_iff_orderKey, less_iff_orderKey, less_iff_orderKey, not_lt, le_iff_lt_or_eq,
    or_comm]

/-- The keys of two prices of the same assets are compared by the ratios. -/
theorem orderKey_lt_iff (h : a.SamePair b.toPrice) :
    a.orderKey < b.orderKey ↔ a.ratio < b.ratio := by
  rw [Price.orderKey, Price.orderKey, h.1, h.2, Prod.Lex.toLex_lt_toLex, Prod.Lex.toLex_lt_toLex]
  simp

/-- The ratio of the inverse of a price. -/
theorem ratio_inverse : a.inverse.ratio = a.ratio⁻¹ := (inv_div _ _).symm

theorem ratio_pos : 0 < a.ratio := div_pos (Int.cast_pos.2 a.base_pos) (Int.cast_pos.2 a.quote_pos)

end PositivePrice

/-! ## A strict weak order -/

instance : IsStrictWeakOrder PositivePrice PositivePrice.Less where
  irrefl a h := lt_irrefl _ ((a.less_iff_orderKey a).1 h)
  trans a b c hab hbc := by
    rw [PositivePrice.less_iff_orderKey] at hab hbc ⊢
    exact hab.trans hbc
  incomp_trans a b c hab hbc := by
    have hab := (a.incomparable_iff_orderKey b).1 hab
    have hbc := (b.incomparable_iff_orderKey c).1 hbc
    exact (a.incomparable_iff_orderKey c).2 (hab.trans hbc)

/-- **The comparison of prices is a strict weak order**, so that an index can be sorted by it: it is
irreflexive and transitive, prices that it does not tell apart are those that `operator==` finds
equal, and that is an equivalence; on prices of the same assets it is the order of the exact ratios,
and inverting them reverses it. -/
theorem price_order_strict_weak :
    IsStrictWeakOrder PositivePrice PositivePrice.Less ∧
      Equivalence PositivePrice.Incomparable ∧
      (∀ a b : PositivePrice, a.Incomparable b ↔ a.Equal b) ∧
      ∀ a b : PositivePrice, a.SamePair b.toPrice →
        (a.Less b ↔ (a.base.amount : ℚ) / a.quote.amount < b.base.amount / b.quote.amount) ∧
          (a.inverse.Less b.inverse ↔ b.Less a) := by
  refine ⟨inferInstance, ⟨fun a ↦ ?_, fun {a b} h ↦ ?_, fun {a b c} hab hbc ↦ ?_⟩, fun a b ↦ ?_,
    fun a b hpair ↦ ⟨?_, ?_⟩⟩
  · exact (a.incomparable_iff_orderKey a).2 rfl
  · exact ⟨h.2, h.1⟩
  · exact IsStrictWeakOrder.incomp_trans a b c hab hbc
  · rw [a.incomparable_iff_orderKey, a.equal_iff_orderKey]
  · rw [a.less_iff_orderKey, a.orderKey_lt_iff b hpair]
    rfl
  · have hinverse : a.inverse.SamePair b.inverse.toPrice := ⟨hpair.2, hpair.1⟩
    have hsymm : b.SamePair a.toPrice := ⟨hpair.1.symm, hpair.2.symm⟩
    rw [PositivePrice.less_iff_orderKey, PositivePrice.orderKey_lt_iff _ _ hinverse,
      b.less_iff_orderKey, b.orderKey_lt_iff a hsymm, a.ratio_inverse, b.ratio_inverse]
    exact inv_lt_inv₀ a.ratio_pos b.ratio_pos

/-- One for two core. -/
def halfPrice : PositivePrice :=
  ⟨⟨⟨1, 1⟩, ⟨2, coreAsset⟩⟩, by decide, by decide, by decide, by decide⟩

/-- Two for three core. -/
def twoThirdsPrice : PositivePrice :=
  ⟨⟨⟨2, 1⟩, ⟨3, coreAsset⟩⟩, by decide, by decide, by decide, by decide⟩

theorem price_order_half :
    halfPrice.Less twoThirdsPrice ∧ twoThirdsPrice.inverse.Less halfPrice.inverse := by
  have hless : halfPrice.Less twoThirdsPrice := rfl
  obtain ⟨-, -, -, hpair⟩ := price_order_strict_weak
  exact ⟨hless, (hpair twoThirdsPrice halfPrice ⟨rfl, rfl⟩).2.2 hless⟩

end Graphene
