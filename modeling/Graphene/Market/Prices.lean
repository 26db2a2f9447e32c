import Graphene.Ledger.Fees
import Mathlib.Data.Rat.Defs

/-!
# Prices

A price is a ratio of two amounts that is never simplified: prices are compared by multiplying
across, first by the two assets and then by the ratio.  Amounts in prices are not negative.

* `Asset.lessEq`, `Asset.minimum` — amounts of one asset; of two assets, comparing throws.
* `Price.equal`, `Price.less`, `Price.lessEq` — the order of prices.
* `Price.isNull`, `Price.inverse`, `Price.maximum`, `Price.minimum`, `Price.validate`.
* `PriceFeed.maxShortSqueezePrice` — the worst price at which a call order is filled.
-/

set_option autoImplicit false

namespace Graphene

/-! ## Amounts -/

namespace Asset

variable (a b : Asset)

/-- `a < b`. -/
def less : Option Bool :=
  if a.assetId = b.assetId then some (decide (a.amount < b.amount)) else none

/-- `a <= b`. -/
def lessEq : Option Bool := if a = b then some true else a.less b

/-- `std::min(a, b)`. -/
def minimum : Option Asset := (b.less a).map fun less ↦ if less then b else a

/-- `a - b`. -/
def sub : Option Asset :=
  if a.assetId = b.assetId then some ⟨a.amount - b.amount, a.assetId⟩ else none

/-- `a + b`. -/
def add : Option Asset :=
  if a.assetId = b.assetId then some ⟨a.amount + b.amount, a.assetId⟩ else none

/-- `base / quote`. -/
def dividedBy (base quote : Asset) : Option Price :=
  if base.assetId ≠ quote.assetId then some ⟨base, quote⟩ else none

variable {a b}

theorem less_eq_some {c : Bool} :
    a.less b = some c ↔ a.assetId = b.assetId ∧ decide (a.amount < b.amount) = c := by
  rw [less]
  split_ifs with h
  · rw [Option.some_inj, and_iff_right h]
  · simp [h]

theorem lessEq_eq_some {c : Bool} :
    a.lessEq b = some c ↔ a.assetId = b.assetId ∧ decide (a.amount ≤ b.amount) = c := by
  obtain ⟨x, i⟩ := a
  obtain ⟨y, j⟩ := b
  rw [lessEq]
  split_ifs with h
  · obtain ⟨rfl, rfl⟩ := Asset.mk.inj h
    simp
  · rw [less_eq_some]
    refine and_congr_right fun (hid : i = j) ↦ ?_
    have hne : x ≠ y := fun hxy ↦ h (by rw [hxy, hid])
    show decide (x < y) = c ↔ decide (x ≤ y) = c
    rw [decide_eq_decide.2 hne.le_iff_lt]

theorem dividedBy_eq_some {p : Price} :
    a.dividedBy b = some p ↔ a.assetId ≠ b.assetId ∧ p = ⟨a, b⟩ := by
  rw [dividedBy]
  split_ifs with h
  · rw [Option.some_inj, and_iff_right h, eq_comm]
  · exact iff_of_false not_false fun hp ↦ h hp.1

theorem amount_minimum {c : Asset} (h : a.minimum b = some c) :
    c.amount = min a.amount b.amount := by
  obtain ⟨less, hless, rfl⟩ := Option.map_eq_some_iff.1 h
  obtain ⟨-, rfl⟩ := less_eq_some.1 hless
  split_ifs with hlt
  · exact (min_eq_right (of_decide_eq_true hlt).le).symm
  · exact (min_eq_left (not_lt.1 fun h ↦ hlt (decide_eq_true h))).symm

theorem add_eq_some {c : Asset} :
    a.add b = some c ↔ a.assetId = b.assetId ∧ c = ⟨a.amount + b.amount, a.assetId⟩ := by
  rw [add]
  split_ifs with h
  · rw [Option.some_inj, and_iff_right h, eq_comm]
  · simp [h]

theorem convert_eq_some {source target c : Asset} :
    a.convert source target = some c ↔
      0 < source.amount ∧ 0 ≤ a.amount * target.amount ∧
        a.amount * target.amount / source.amount ≤ maxShareSupply ∧
        c = ⟨a.amount * target.amount / source.amount, target.assetId⟩ := by
  rw [convert]
  split_ifs with h
  · rw [Option.some_inj, and_iff_right h.1, and_iff_right h.2.1, and_iff_right h.2.2, eq_comm]
  · exact iff_of_false (fun hc ↦ by cases hc) fun hc ↦ h ⟨hc.1, hc.2.1, hc.2.2.1⟩

/-- What is converted is not negative. -/
theorem amount_nonneg_of_mulPrice {p : Price} {c : Asset} (h : a.mulPrice p = some c) :
    0 ≤ c.amount := by
  rw [mulPrice] at h
  split_ifs at h
  · obtain ⟨hpos, hprod, -, rfl⟩ := convert_eq_some.1 h
    exact Int.ediv_nonneg hprod hpos.le
  · obtain ⟨hpos, hprod, -, rfl⟩ := convert_eq_some.1 h
    exact Int.ediv_nonneg hprod hpos.le

end Asset

/-! ## The order of prices -/

namespace Price

variable (a b : Price)

/-- `a == b`. -/
def equal : Bool :=
  a.base.assetId = b.base.assetId ∧ a.quote.assetId = b.quote.assetId ∧
    b.quote.amount * a.base.amount = a.quote.amount * b.base.amount

/-- `a < b`. -/
def less : Bool :=
  if a.base.assetId < b.base.assetId then true
  else if b.base.assetId < a.base.assetId then false
  else if a.quote.assetId < b.quote.assetId then true
  else if b.quote.assetId < a.quote.assetId then false
  else b.quote.amount * a.base.amount < a.quote.amount * b.base.amount

/-- `a <= b`. -/
def lessEq : Bool := a.equal b || a.less b

/-- `~p`. -/
def inverse (p : Price) : Price := ⟨p.quote, p.base⟩

/-- `is_null`: the price is `price()`. -/
def isNull (p : Price) : Bool := p.equal ⟨⟨0, coreAsset⟩, ⟨0, coreAsset⟩⟩

/-- `price::max`. -/
def maximum (base quote : AssetId) : Option Price :=
  Asset.dividedBy ⟨maxShareSupply, base⟩ ⟨1, quote⟩

/-- `price::min`. -/
def minimum (base quote : AssetId) : Option Price :=
  Asset.dividedBy ⟨1, base⟩ ⟨maxShareSupply, quote⟩

/-- `validate`. -/
def Valid (p : Price) : Prop :=
  0 < p.base.amount ∧ 0 < p.quote.amount ∧ p.base.assetId ≠ p.quote.assetId

instance (p : Price) : Decidable p.Valid := inferInstanceAs (Decidable (_ ∧ _ ∧ _))

/-- A price of two assets is not null. -/
theorem isNull_of_ne {p : Price} (h : p.base.assetId ≠ p.quote.assetId) : p.isNull = false := by
  refine decide_eq_false fun hnull ↦ h ?_
  exact hnull.1.trans hnull.2.1.symm

end Price

/-! ## Price feeds -/

/-- `GRAPHENE_COLLATERAL_RATIO_DENOM`. -/
def collateralRatioDenom : ℕ := 1000

/-- What margin calls read of a `price_feed`. -/
structure PriceFeed where
  /-- `settlement_price`. -/
  settlementPrice : Price
  /-- `maximum_short_squeeze_ratio`. -/
  maximumShortSqueezeRatio : ℕ

/-- Half of `n`, rounded up. -/
def halfUp (n : ℤ) : ℤ := n / 2 + n % 2

/-- A fraction of `int128_t`s is halved, until it is one of amounts: 127 times at most. -/
def shrink : ℕ → ℚ → ℚ
  | 0, cp => cp
  | n + 1, cp =>
    if cp.num > maxShareSupply ∨ (cp.den : ℤ) > maxShareSupply then
      shrink n (halfUp cp.num / halfUp cp.den)
    else cp

/-- `max_short_squeeze_price`.  A fraction whose denominator is zero throws. -/
def PriceFeed.maxShortSqueezePrice (feed : PriceFeed) : Option Price :=
  let p := feed.settlementPrice
  if p.quote.amount = 0 ∨ feed.maximumShortSqueezeRatio = 0 then none
  else
    let cp := shrink 127 (p.base.amount / p.quote.amount *
      (collateralRatioDenom / feed.maximumShortSqueezeRatio))
    Asset.dividedBy ⟨cp.num, p.base.assetId⟩ ⟨cp.den, p.quote.assetId⟩

end Graphene
