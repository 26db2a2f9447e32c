import Mathlib.Algebra.Order.Ring.Int

/-!
# Funds that are shared out

A fund is shared out among a number of shares.  Shares are redeemed a few at a time, in any order,
and what they are paid is rounded down every time.

* `ProRata.payout` — what is paid for some of the shares.
* `ProRata.Covers` — what is left of the fund is enough for the shares that are left.
* `ProRata.Covers.payout_le`, `ProRata.Covers.redeem` — so it pays, and stays enough.
* `ProRata.payout_add_le` — two funds that are no more than the shares pay no more than those.
-/

set_option autoImplicit false

/-- A fund for a number of shares. -/
structure ProRata where
  /-- All that there is at first. -/
  fund : ℤ
  /-- All shares at first. -/
  shares : ℤ
  /-- The fund is not negative. -/
  fund_nonneg : 0 ≤ fund
  /-- There are shares. -/
  shares_pos : 0 < shares

namespace ProRata

variable (p : ProRata)

/-- What is paid for `amount` of the shares. -/
def payout (amount : ℤ) : ℤ := amount * p.fund / p.shares

/-- What is left of the fund covers the shares that are left. -/
def Covers (left outstanding : ℤ) : Prop := outstanding * p.fund ≤ left * p.shares

variable {p} {left outstanding amount : ℤ}

theorem payout_nonneg (h : 0 ≤ amount) : 0 ≤ p.payout amount :=
  Int.ediv_nonneg (mul_nonneg h p.fund_nonneg) p.shares_pos.le

theorem payout_mul_le (amount : ℤ) : p.payout amount * p.shares ≤ amount * p.fund :=
  Int.ediv_mul_le _ p.shares_pos.ne'

/-- **Two funds** that are together no more than the shares pay no more than what is redeemed. -/
theorem payout_add_le {q : ProRata} (hshares : q.shares = p.shares)
    (hfund : p.fund + q.fund ≤ p.shares) (h : 0 ≤ amount) :
    p.payout amount + q.payout amount ≤ amount := by
  refine le_of_mul_le_mul_right ?_ p.shares_pos
  calc
    (p.payout amount + q.payout amount) * p.shares
        = p.payout amount * p.shares + q.payout amount * q.shares := by rw [add_mul, hshares]
    _ ≤ amount * p.fund + amount * q.fund := add_le_add (payout_mul_le _) (payout_mul_le _)
    _ = amount * (p.fund + q.fund) := (mul_add ..).symm
    _ ≤ amount * p.shares := mul_le_mul_of_nonneg_left hfund h

/-- **Shares that are outstanding** can be paid. -/
theorem Covers.payout_le (h : p.Covers left outstanding) (hamount : amount ≤ outstanding) :
    p.payout amount ≤ left := by
  refine Int.ediv_le_of_le_mul p.shares_pos ?_
  exact (mul_le_mul_of_nonneg_right hamount p.fund_nonneg).trans h

/-- **The shares that are left** are covered by what is left. -/
theorem Covers.redeem (h : p.Covers left outstanding) (amount : ℤ) :
    p.Covers (left - p.payout amount) (outstanding - amount) := by
  rw [Covers, sub_mul, sub_mul]
  exact sub_le_sub h (payout_mul_le amount)

end ProRata
