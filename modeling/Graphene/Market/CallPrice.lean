import Graphene.Market.OrderBook
import Mathlib.Data.Rat.Lemmas
import Mathlib.Tactic.Linarith
import Mathlib.Tactic.Positivity
import Mathlib.Tactic.Ring

/-!
# The call price

A margin position is called at a price that is its debt over its collateral, times the maintenance
collateral ratio.  The fraction is reduced, and halved as often as it takes until both sides are
amounts; each time both sides are rounded up and one is added.

* `Price.callPrice` — the call price of a debt and its collateral.
* `scaleDown_spec` — the loop ends, and each round moves the inverse by two units at most.
* `shrink_spec` — so does the loop of `max_short_squeeze_price`.
* `call_price_in_range` — both prices are in range, and where there is room for the exact call price
  the position is called before it is under water.
-/

set_option autoImplicit false

namespace Graphene

/-- `GRAPHENE_MIN_COLLATERAL_RATIO`. -/
def minCollateralRatio : ℕ := 1001

/-- `GRAPHENE_MAX_COLLATERAL_RATIO`. -/
def maxCollateralRatio : ℕ := 32000

/-- `price_feed::validate` lets a collateral ratio pass. -/
def AdmittedRatio (ratio : ℕ) : Prop := minCollateralRatio ≤ ratio ∧ ratio ≤ maxCollateralRatio

instance (ratio : ℕ) : Decidable (AdmittedRatio ratio) := inferInstanceAs (Decidable (_ ∧ _))

/-- A fraction is not one of amounts: one of its sides is above the maximum. -/
def Oversized (cp : ℚ) : Prop := cp.num > maxShareSupply ∨ (cp.den : ℤ) > maxShareSupply

instance (cp : ℚ) : Decidable (Oversized cp) := inferInstanceAs (Decidable (_ ∨ _))

/-- The loop of `call_price`, in so many rounds at most. -/
def scaleDown : ℕ → ℚ → Option ℚ
  | 0, _ => none
  | rounds + 1, cp =>
    if Oversized cp then
      scaleDown rounds (((cp.num / 2 + 1 : ℤ) : ℚ) / ((cp.den / 2 + 1 : ℤ) : ℚ))
    else some cp

/-- `price::call_price`.  A fraction whose denominator is zero throws. -/
def Price.callPrice (debt collateral : Asset) (collateralRatio : ℕ) : Option Price := do
  guard (collateral.amount ≠ 0)
  let swan : ℚ := debt.amount / collateral.amount
  let ratio : ℚ := collateralRatio / collateralRatioDenom
  let cp ← scaleDown 127 (swan * ratio)
  let price ← Asset.dividedBy ⟨cp.num, debt.assetId⟩ ⟨cp.den, collateral.assetId⟩
  return price.inverse

/-! ## Fractions -/

section Fractions

variable {a b : ℤ} {q : ℚ}

theorem num_div_le (ha : 0 < a) (hb : 0 < b) : ((a : ℚ) / b).num ≤ a := by
  rw [Rat.intCast_div_eq_divInt]
  exact Int.le_of_dvd ha (Rat.num_dvd a hb.ne')

theorem den_div_le (hb : 0 < b) : ((((a : ℚ) / b).den : ℕ) : ℤ) ≤ b := by
  rw [Rat.intCast_div_eq_divInt]
  exact Int.le_of_dvd hb (Rat.den_dvd a b)

/-- The sides of a positive fraction are positive. -/
theorem one_le_num (hq : 0 < q) : 1 ≤ q.num := Rat.num_pos.2 hq

theorem one_le_den : 1 ≤ (q.den : ℤ) := Int.natCast_pos.2 q.den_pos

theorem inv_eq_den_div_num (q : ℚ) : q⁻¹ = q.den / q.num := by
  rw [← inv_div, Rat.num_div_den]

/-- A fraction times another one, as one of products. -/
theorem div_mul_div_cast (a b c d : ℤ) :
    (a : ℚ) / b * ((c : ℚ) / d) = ((a * c : ℤ) : ℚ) / ((b * d : ℤ) : ℚ) := by
  rw [div_mul_div_comm, Int.cast_mul, Int.cast_mul]

end Fractions

/-! ## The loop of `call_price` -/

/-- **One round** adds two units at most to the inverse. -/
theorem inv_halve_le {q : ℚ} (hq : 0 < q) (hover : Oversized q) :
    (((q.num / 2 + 1 : ℤ) : ℚ) / ((q.den / 2 + 1 : ℤ) : ℚ))⁻¹ ≤
      q⁻¹ + 2 / (maxShareSupply : ℚ) := by
  have hn := one_le_num hq
  have hd := one_le_den (q := q)
  rw [Oversized] at hover
  rw [inv_div, inv_eq_den_div_num]
  generalize q.num = n at hn hover ⊢
  generalize hden : (q.den : ℤ) = d at hd hover ⊢
  have hM : (0 : ℤ) < maxShareSupply := by decide
  -- `n'` and `d'` are at least `(n + 1) / 2`, and at most `(d + 2) / 2`.
  obtain ⟨n', hn'⟩ : ∃ n', n' = n / 2 + 1 := ⟨_, rfl⟩
  obtain ⟨d', hd'⟩ : ∃ d', d' = d / 2 + 1 := ⟨_, rfl⟩
  have hnum : n + 1 ≤ 2 * n' := by omega
  have hdenom : 2 * d' ≤ d + 2 := by omega
  have hroom : 2 * n * maxShareSupply ≤ d * maxShareSupply + 2 * n * n + 2 * n := by
    rcases hover with hn | hd
    · nlinarith
    · nlinarith [sq_nonneg (n - maxShareSupply)]
  have hcross : d' * n * maxShareSupply ≤ (d * maxShareSupply + 2 * n) * n' := by
    nlinarith [mul_le_mul_of_nonneg_right hdenom (mul_nonneg (by omega : 0 ≤ n) hM.le),
      mul_le_mul_of_nonneg_left hnum (by nlinarith : 0 ≤ d * maxShareSupply + 2 * n)]
  rw [← hn', ← hd']
  have hn0 : (0 : ℚ) < n := by exact_mod_cast hn
  have hn0' : (0 : ℚ) < n' := by
    have : 0 < n' := by omega
    exact_mod_cast this
  have hM0 : (0 : ℚ) < maxShareSupply := by exact_mod_cast hM
  have hdcast : ((q.den : ℕ) : ℚ) = d := by
    rw [← hden]
    rfl
  rw [hdcast, div_add_div _ _ hn0.ne' hM0.ne', div_le_div_iff₀ hn0' (mul_pos hn0 hM0)]
  have hcast : (d' : ℚ) * n * maxShareSupply ≤ (d * maxShareSupply + 2 * n) * n' := by
    exact_mod_cast hcross
  nlinarith

/-- **The loop of `call_price`** ends after `r` rounds at most if the sides are no more than so many
times the maximum, by induction on `r`; each round adds two units at most to the inverse. -/
theorem scaleDown_spec {r rounds : ℕ} (hrounds : r < rounds) {q : ℚ} (hq : 0 < q)
    (hnum : q.num - 2 ≤ 2 ^ r * (maxShareSupply - 2))
    (hden : (q.den : ℤ) - 2 ≤ 2 ^ r * (maxShareSupply - 2)) :
    ∃ q', scaleDown rounds q = some q' ∧ 0 < q' ∧ ¬Oversized q' ∧
      q'⁻¹ ≤ q⁻¹ + 2 * r / (maxShareSupply : ℚ) := by
  induction r generalizing rounds q with
  | zero =>
    obtain ⟨rounds, rfl⟩ : ∃ k, rounds = k + 1 := ⟨rounds - 1, by omega⟩
    have hfits : ¬Oversized q := by
      rw [Oversized, not_or]
      constructor <;> omega
    exact ⟨q, if_neg hfits, hq, hfits, by simp⟩
  | succ r ih =>
    obtain ⟨rounds, rfl⟩ : ∃ k, rounds = k + 1 := ⟨rounds - 1, by omega⟩
    have hM : (0 : ℚ) < maxShareSupply := by
      exact_mod_cast (by decide : (0 : ℤ) < maxShareSupply)
    by_cases hover : Oversized q
    · have hn := one_le_num hq
      have hd := one_le_den (q := q)
      have hn' : 0 < q.num / 2 + 1 := by omega
      have hd' : 0 < (q.den : ℤ) / 2 + 1 := by omega
      rw [pow_succ', mul_assoc] at hnum hden
      have hnum' := num_div_le hn' hd'
      have hden' := den_div_le (a := q.num / 2 + 1) hd'
      have hpos : (0 : ℚ) < ((q.num / 2 + 1 : ℤ) : ℚ) / ((q.den / 2 + 1 : ℤ) : ℚ) :=
        div_pos (Int.cast_pos.2 hn') (Int.cast_pos.2 hd')
      obtain ⟨q', hq', hpos', hfits, hinv⟩ :=
        ih (Nat.lt_of_succ_lt_succ hrounds) hpos (by omega) (by omega)
      refine ⟨q', (if_pos hover).trans hq', hpos', hfits, hinv.trans ?_⟩
      have hstep := inv_halve_le hq hover
      have hsplit : 2 * ((r + 1 : ℕ) : ℚ) / maxShareSupply =
          2 / maxShareSupply + 2 * r / maxShareSupply := by
        rw [← add_div]
        push_cast
        ring
      rw [hsplit]
      linarith
    · refine ⟨q, if_neg hover, hq, hover, le_add_of_nonneg_right ?_⟩
      exact div_nonneg (by positivity) hM.le

/-! ## The loop of `max_short_squeeze_price` -/

/-- **The loop of `max_short_squeeze_price`** ends too, by induction on the rounds that it takes at
most. -/
theorem shrink_spec {r rounds : ℕ} (hrounds : r ≤ rounds) {q : ℚ} (hq : 0 < q)
    (hnum : q.num - 1 ≤ 2 ^ r * (maxShareSupply - 1))
    (hden : (q.den : ℤ) - 1 ≤ 2 ^ r * (maxShareSupply - 1)) :
    0 < shrink rounds q ∧ ¬Oversized (shrink rounds q) := by
  induction rounds generalizing r q with
  | zero =>
    obtain rfl := Nat.le_zero.1 hrounds
    refine ⟨hq, not_or.2 ⟨?_, ?_⟩⟩
    · show ¬q.num > maxShareSupply
      omega
    · show ¬(q.den : ℤ) > maxShareSupply
      omega
  | succ rounds ih =>
    have hn := one_le_num hq
    have hd := one_le_den (q := q)
    by_cases hover : Oversized q
    · have hr : r ≠ 0 := by
        rintro rfl
        rw [Oversized] at hover
        omega
      obtain ⟨r, rfl⟩ := Nat.exists_eq_succ_of_ne_zero hr
      rw [pow_succ', mul_assoc] at hnum hden
      have hn' : 0 < halfUp q.num := by
        unfold halfUp
        omega
      have hd' : 0 < halfUp q.den := by
        unfold halfUp
        omega
      have hnum' := num_div_le hn' hd'
      have hden' := den_div_le (a := halfUp q.num) hd'
      have hhalf : 2 * halfUp q.num ≤ q.num + 1 ∧ 2 * halfUp q.den ≤ q.den + 1 := by
        unfold halfUp
        constructor <;> omega
      have hstep : shrink (rounds + 1) q = shrink rounds (halfUp q.num / halfUp q.den) :=
        if_pos hover
      rw [hstep]
      exact ih (Nat.le_of_succ_le_succ hrounds)
        (div_pos (Int.cast_pos.2 hn') (Int.cast_pos.2 hd')) (by omega) (by omega)
    · have hstop : shrink (rounds + 1) q = q := if_neg hover
      rw [hstop]
      exact ⟨hq, hover⟩

/-! ## Both prices -/

/-- Both amounts of a price are between one and the maximum. -/
def Price.InRange (p : Price) : Prop :=
  (1 ≤ p.base.amount ∧ p.base.amount ≤ maxShareSupply) ∧
    1 ≤ p.quote.amount ∧ p.quote.amount ≤ maxShareSupply

instance (p : Price) : Decidable p.InRange :=
  inferInstanceAs (Decidable ((_ ∧ _) ∧ _ ∧ _))

/-- The call price, if there were no need to round it. -/
def exactCallPrice (debt collateral : ℤ) (collateralRatio : ℕ) : ℚ :=
  debt / collateral * (collateralRatio / collateralRatioDenom)

/-- The sides of a fraction that is not too large are amounts. -/
theorem inRange_of_fits {q : ℚ} (hq : 0 < q) (hfits : ¬Oversized q) (base quote : AssetId) :
    (⟨⟨q.num, base⟩, ⟨q.den, quote⟩⟩ : Price).InRange ∧
      (⟨⟨q.den, quote⟩, ⟨q.num, base⟩⟩ : Price).InRange := by
  have hn := one_le_num hq
  have hd := one_le_den (q := q)
  rw [Oversized] at hfits
  refine ⟨⟨⟨hn, ?_⟩, hd, ?_⟩, ⟨hd, ?_⟩, hn, ?_⟩ <;> dsimp only <;> omega

theorem ratio_of_fraction (q : ℚ) (base quote : AssetId) :
    (⟨⟨q.num, base⟩, ⟨q.den, quote⟩⟩ : Price).ratio = q := by
  rw [Price.ratio]
  exact_mod_cast Rat.num_div_den q

section CallPrice

variable {debt collateral : Asset} {ratio : ℕ}

theorem exactCallPrice_pos (hdebt : 0 < debt.amount) (hcollateral : 0 < collateral.amount)
    (hratio : AdmittedRatio ratio) : 0 < exactCallPrice debt.amount collateral.amount ratio := by
  have hpos : (0 : ℚ) < ratio := Nat.cast_pos.2 (lt_of_lt_of_le (by decide) hratio.1)
  have hdenom : (0 : ℚ) < collateralRatioDenom := by norm_num [collateralRatioDenom]
  exact mul_pos (div_pos (Int.cast_pos.2 hdebt) (Int.cast_pos.2 hcollateral))
    (div_pos hpos hdenom)

/-- **The call price** is returned, with both sides in range; its ratio is that of the exact one if
that has sides in range, and otherwise at most 30 units above. -/
theorem callPrice_spec (hdebt : 0 < debt.amount ∧ debt.amount ≤ maxShareSupply)
    (hcollateral : 0 < collateral.amount ∧ collateral.amount ≤ maxShareSupply)
    (hids : debt.assetId ≠ collateral.assetId) (hratio : AdmittedRatio ratio) :
    ∃ q : ℚ, Price.callPrice debt collateral ratio =
        some ⟨⟨q.den, collateral.assetId⟩, ⟨q.num, debt.assetId⟩⟩ ∧ 0 < q ∧ ¬Oversized q ∧
      q⁻¹ ≤ (exactCallPrice debt.amount collateral.amount ratio)⁻¹ + 30 / maxShareSupply ∧
      (¬Oversized (exactCallPrice debt.amount collateral.amount ratio) →
        q = exactCallPrice debt.amount collateral.amount ratio) := by
  have hexact := exactCallPrice_pos hdebt.1 hcollateral.1 hratio
  have hfraction : exactCallPrice debt.amount collateral.amount ratio =
      ((debt.amount * ratio : ℤ) : ℚ) / ((collateral.amount * collateralRatioDenom : ℤ) : ℚ) := by
    rw [exactCallPrice, ← div_mul_div_cast, Int.cast_natCast, Int.cast_natCast]
  have hM : maxShareSupply = 1000000000000000 := rfl
  have hratio' : (1001 : ℤ) ≤ ratio ∧ (ratio : ℤ) ≤ 32000 :=
    ⟨by exact_mod_cast hratio.1, by exact_mod_cast hratio.2⟩
  have hnum : 0 < debt.amount * ratio := mul_pos hdebt.1 (by omega)
  have hden : 0 < collateral.amount * (collateralRatioDenom : ℤ) :=
    mul_pos hcollateral.1 (by decide)
  have hnum_le : debt.amount * ratio ≤ maxShareSupply * 32000 :=
    mul_le_mul hdebt.2 hratio'.2 (by omega) (by decide)
  have hden_le : collateral.amount * (collateralRatioDenom : ℤ) ≤ maxShareSupply * 1000 :=
    mul_le_mul hcollateral.2 (by decide) (by decide) (by decide)
  have hbounds := num_div_le hnum hden
  have hbounds' := den_div_le (a := debt.amount * ratio) hden
  rw [← hfraction] at hbounds hbounds'
  obtain ⟨q, hq, hpos, hfits, hinv⟩ :=
    scaleDown_spec (show 15 < 127 by decide) hexact (by omega) (by omega)
  refine ⟨q, ?_, hpos, hfits, ?_, fun hroom ↦ ?_⟩
  · have hscale : scaleDown 127 ((debt.amount : ℚ) / collateral.amount *
        (ratio / collateralRatioDenom)) = some q := hq
    simp only [Price.callPrice, Option.bind_eq_bind, guard, if_pos hcollateral.1.ne', hscale,
      Asset.dividedBy, if_pos hids, Option.bind_some]
    rfl
  · have hthirty : (2 * ((15 : ℕ) : ℚ)) / (maxShareSupply : ℚ) = 30 / maxShareSupply := by norm_num
    rwa [hthirty] at hinv
  · exact (Option.some.inj ((if_neg hroom).symm.trans hq)).symm

/-- **The position is called before it is under water**, if the exact call price has sides in range
or the collateral is worth enough of the debt for the units that rounding takes. -/
theorem lt_of_room (hdebt : 0 < debt.amount) (hcollateral : 0 < collateral.amount)
    (hratio : AdmittedRatio ratio) {q : ℚ} (hq : 0 < q)
    (hinv : q⁻¹ ≤ (exactCallPrice debt.amount collateral.amount ratio)⁻¹ + 30 / maxShareSupply)
    (hroom : 30 * ratio * debt.amount < maxShareSupply * (ratio - 1000) * collateral.amount) :
    (debt.amount : ℚ) / collateral.amount < q := by
  have hd : (0 : ℚ) < debt.amount := Int.cast_pos.2 hdebt
  have hc : (0 : ℚ) < collateral.amount := Int.cast_pos.2 hcollateral
  have hr : (0 : ℚ) < ratio := Nat.cast_pos.2 (lt_of_lt_of_le (by decide) hratio.1)
  have hM : (0 : ℚ) < maxShareSupply := by
    exact_mod_cast (by decide : (0 : ℤ) < maxShareSupply)
  have hroom' : (30 : ℚ) * ratio * debt.amount <
      maxShareSupply * (ratio - 1000) * collateral.amount := by
    exact_mod_cast hroom
  have hexact : (exactCallPrice debt.amount collateral.amount ratio)⁻¹ =
      1000 * collateral.amount / (ratio * debt.amount) := by
    rw [exactCallPrice, collateralRatioDenom, div_mul_div_comm, inv_div]
    push_cast
    ring
  have hlt : q⁻¹ < (collateral.amount : ℚ) / debt.amount := by
    refine hinv.trans_lt ?_
    rw [hexact, div_add_div _ _ (mul_pos hr hd).ne' hM.ne',
      div_lt_div_iff₀ (mul_pos (mul_pos hr hd) hM) hd]
    nlinarith [mul_lt_mul_of_pos_right hroom' hd]
  rw [← inv_div, inv_lt_comm₀ (div_pos hc hd) hq]
  exact hlt

theorem lt_exactCallPrice (hdebt : 0 < debt.amount) (hcollateral : 0 < collateral.amount)
    (hratio : AdmittedRatio ratio) :
    (debt.amount : ℚ) / collateral.amount <
      exactCallPrice debt.amount collateral.amount ratio := by
  have hswan : (0 : ℚ) < debt.amount / collateral.amount :=
    div_pos (Int.cast_pos.2 hdebt) (Int.cast_pos.2 hcollateral)
  have hone : (1 : ℚ) < ratio / collateralRatioDenom := by
    rw [one_lt_div (by norm_num [collateralRatioDenom])]
    exact Nat.cast_lt.2 (lt_of_lt_of_le (by decide) hratio.1)
  exact lt_mul_of_one_lt_right hswan hone

end CallPrice

/-- **The squeeze price** is returned, with both sides in range. -/
theorem maxShortSqueezePrice_inRange {feed : PriceFeed} (hprice : feed.settlementPrice.InRange)
    (hids : feed.settlementPrice.base.assetId ≠ feed.settlementPrice.quote.assetId)
    (hratio : AdmittedRatio feed.maximumShortSqueezeRatio) :
    ∃ p, feed.maxShortSqueezePrice = some p ∧ p.InRange := by
  obtain ⟨⟨hbase, hbase_le⟩, hquote, hquote_le⟩ := hprice
  have hratio' : (1001 : ℤ) ≤ feed.maximumShortSqueezeRatio ∧
      (feed.maximumShortSqueezeRatio : ℤ) ≤ 32000 :=
    ⟨by exact_mod_cast hratio.1, by exact_mod_cast hratio.2⟩
  have hM : maxShareSupply = 1000000000000000 := rfl
  have hfraction : (feed.settlementPrice.base.amount : ℚ) / feed.settlementPrice.quote.amount *
      (collateralRatioDenom / feed.maximumShortSqueezeRatio) =
      ((feed.settlementPrice.base.amount * collateralRatioDenom : ℤ) : ℚ) /
        ((feed.settlementPrice.quote.amount * feed.maximumShortSqueezeRatio : ℤ) : ℚ) := by
    rw [← div_mul_div_cast, Int.cast_natCast, Int.cast_natCast]
  have hnum : 0 < feed.settlementPrice.base.amount * (collateralRatioDenom : ℤ) :=
    mul_pos (by omega) (by decide)
  have hden : 0 < feed.settlementPrice.quote.amount * (feed.maximumShortSqueezeRatio : ℤ) :=
    mul_pos (by omega) (by omega)
  have hnum_le : feed.settlementPrice.base.amount * (collateralRatioDenom : ℤ) ≤
      maxShareSupply * 1000 := mul_le_mul hbase_le (by decide) (by decide) (by decide)
  have hden_le : feed.settlementPrice.quote.amount * (feed.maximumShortSqueezeRatio : ℤ) ≤
      maxShareSupply * 32000 := mul_le_mul hquote_le hratio'.2 (by omega) (by decide)
  have hbounds := num_div_le hnum hden
  have hbounds' := den_div_le
    (a := feed.settlementPrice.base.amount * (collateralRatioDenom : ℤ)) hden
  have hpos := div_pos (Int.cast_pos (R := ℚ).2 hnum) (Int.cast_pos.2 hden)
  rw [← hfraction] at hbounds hbounds' hpos
  obtain ⟨hshrunk, hfits⟩ :=
    shrink_spec (show 15 ≤ 127 by decide) hpos (by omega) (by omega)
  have hnonzero : ¬(feed.settlementPrice.quote.amount = 0 ∨ feed.maximumShortSqueezeRatio = 0) := by
    omega
  rw [PriceFeed.maxShortSqueezePrice]
  dsimp only
  rw [if_neg hnonzero]
  exact ⟨_, Asset.dividedBy_eq_some.2 ⟨hids, rfl⟩,
    (inRange_of_fits hshrunk hfits _ _).1⟩

/-- **The call price is in range**, and so is the squeeze price.  The ratio of the call price is at
most 30 units above the exact one, and the position is called before it is under water if the exact
call price has sides in range, or the collateral is worth enough of the debt for that. -/
theorem call_price_in_range (debt collateral : Asset) (ratio : ℕ) (feed : PriceFeed)
    (hdebt : 0 < debt.amount ∧ debt.amount ≤ maxShareSupply)
    (hcollateral : 0 < collateral.amount ∧ collateral.amount ≤ maxShareSupply)
    (hids : debt.assetId ≠ collateral.assetId) (hratio : AdmittedRatio ratio)
    (hprice : feed.settlementPrice.InRange)
    (hmarket : feed.settlementPrice.base.assetId ≠ feed.settlementPrice.quote.assetId)
    (hsqueeze : AdmittedRatio feed.maximumShortSqueezeRatio) :
    (∃ p, Price.callPrice debt collateral ratio = some p ∧ p.Of collateral.assetId debt.assetId ∧
      p.InRange ∧
      p.ratio ≤ (exactCallPrice debt.amount collateral.amount ratio)⁻¹ + 30 / maxShareSupply ∧
      (¬Oversized (exactCallPrice debt.amount collateral.amount ratio) →
        p.inverse.ratio = exactCallPrice debt.amount collateral.amount ratio) ∧
      (¬Oversized (exactCallPrice debt.amount collateral.amount ratio) ∨
          30 * ratio * debt.amount < maxShareSupply * (ratio - 1000) * collateral.amount →
        (debt.amount : ℚ) / collateral.amount < p.inverse.ratio)) ∧
    ∃ p, feed.maxShortSqueezePrice = some p ∧ p.InRange := by
  refine ⟨?_, maxShortSqueezePrice_inRange hprice hmarket hsqueeze⟩
  obtain ⟨q, hq, hpos, hfits, hinv, hexact⟩ := callPrice_spec hdebt hcollateral hids hratio
  have hinverse : (⟨⟨q.num, debt.assetId⟩, ⟨q.den, collateral.assetId⟩⟩ : Price).ratio = q :=
    ratio_of_fraction q _ _
  refine ⟨_, hq, ⟨rfl, rfl⟩, (inRange_of_fits hpos hfits _ _).2, ?_, fun hroom ↦ ?_, fun hroom ↦ ?_⟩
  · have hratio : (⟨⟨q.den, collateral.assetId⟩, ⟨q.num, debt.assetId⟩⟩ : Price).ratio = q⁻¹ := by
      rw [inv_eq_den_div_num, Price.ratio]
      rfl
    rwa [hratio]
  · exact hinverse.trans (hexact hroom)
  · refine lt_of_lt_of_eq ?_ hinverse.symm
    rcases hroom with hroom | hroom
    · rw [hexact hroom]
      exact lt_exactCallPrice hdebt.1 hcollateral.1 hratio
    · exact lt_of_room hdebt.1 hcollateral.1 hratio hpos hinv hroom

/-- A unit of the core asset for all that there can be of another one: no price of amounts is above
that, and half of it is left after the one round that it takes. -/
theorem call_price_under_water :
    ∃ p, Price.callPrice ⟨maxShareSupply, 1⟩ ⟨1, coreAsset⟩ 1001 = some p ∧
      ¬((maxShareSupply : ℚ) / (1 : ℤ) < p.inverse.ratio) := by
  have hprice : (Price.callPrice ⟨maxShareSupply, 1⟩ ⟨1, coreAsset⟩ 1001).map
      (fun p ↦ (p.base.amount, p.quote.amount)) = some (1, 500500000000001) := by decide +kernel
  obtain ⟨p, hp, hamounts⟩ := Option.map_eq_some_iff.1 hprice
  obtain ⟨hbase, hquote⟩ := Prod.mk.inj hamounts
  refine ⟨p, hp, ?_⟩
  rw [Price.ratio, Price.inverse, hbase, hquote]
  norm_num [maxShareSupply]

/-- Seven of an asset for twenty of the core asset, at 175%. -/
theorem call_price_in_range_seven :
    ∃ p, Price.callPrice ⟨7, 1⟩ ⟨20, coreAsset⟩ 1750 = some p ∧
      (7 : ℚ) / 20 < p.inverse.ratio := by
  obtain ⟨⟨p, hp, -, -, -, -, hlt⟩, -⟩ := call_price_in_range ⟨7, 1⟩ ⟨20, coreAsset⟩ 1750
    ⟨⟨⟨7, 1⟩, ⟨20, coreAsset⟩⟩, 1500⟩ (by decide) (by decide) (by decide) (by decide) (by decide)
    (by decide) (by decide)
  refine ⟨p, hp, ?_⟩
  simpa using hlt (.inr (by decide))

end Graphene
