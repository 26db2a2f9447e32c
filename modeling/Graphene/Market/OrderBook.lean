import Graphene.Market.CoreInOrders
import Graphene.Market.QuietMarkets
import Mathlib.Algebra.Order.Field.Basic
import Mathlib.Algebra.Order.Ring.Rat
import Mathlib.Data.List.Sort
import Mathlib.Data.Prod.Lex

/-!
# The order book is never left crossed

A new limit order is matched with the orders that sell what it asks for, the best price first, as
long as they ask for no more than it offers.  It stops when it is used up; an order that it has used
up in part is taken back if the rest is too small to be sold, and so is what is left of the new
order.

The book stays uncrossed because the loop goes through the orders from the best price on, and leaves
it for one of two reasons only: the new order is used up, or the next order asks for more than it
offers, and so do all behind it.  Amounts are rounded, and so an order may be left with too little
to be sold for anything; such an order would be in the way for good.

* `Market.matchAgainst`, `Market.applyOrder` — what becomes of a new order.
* `LimitOrder.Crosses`, `LimitOrder.NotDust`, `Market.Orderly` — what an order book should be.
* `Market.FilledInTurn`, `Market.FilledByPrice` — what becomes of the orders that are filled, and
  that the best price is filled first.
* `checkCallOrders_of_noCalls` — without margin positions there are no margin calls.
* `matchLimitOrders_spec`, `matchAgainst_spec` — what one match leaves, and what all of them do.
* `order_book_uncrossed` — an order book stays uncrossed and free of dust.
-/

set_option autoImplicit false

namespace Graphene

/-! ## A new order -/

namespace Market

variable (m : Market)

/-- A `limit_order_object` is created. -/
def addOrder (id : ℕ) (order : LimitOrder) : Market :=
  { m with limitOrders := m.limitOrders.insert id order }

/-- The loop of `apply_order`, over the orders from `limit_itr` on, and which of them it has
matched, first to last.  What it changes lies behind `limit_itr`. -/
def matchAgainst (new : ℕ) : Market → List ℕ → Option (Market × List ℕ)
  | m, [] => some (m, [])
  | m, old :: olds => do
    let order ← m.limitOrders.lookup old
    let (m, filled) ← m.matchLimitOrders new old order.sellPrice
    -- Only the old order was fully filled: the loop goes on.
    if filled = (false, true) then
      let (m, matched) ← matchAgainst new m olds
      return (m, old :: matched)
    else return (m, [old])

/-- `apply_order`: which orders the new one has been matched with, first to last, and whether it is
gone. -/
def applyOrder (id : ℕ) (allowBlackSwan : Bool) : Option (Market × List ℕ × Bool) := do
  let order ← m.limitOrders.lookup id
  let sellAsset := order.amountForSale.assetId
  let receiveAsset := (← order.amountToReceive).assetId
  let _ ← m.ledger.assets sellAsset
  let _ ← m.ledger.assets receiveAsset
  let (m, calledSell) ← m.checkCallOrders sellAsset allowBlackSwan
  let (m, calledReceive) ← m.checkCallOrders receiveAsset allowBlackSwan
  if (calledSell || calledReceive) && (m.limitOrders.lookup id).isNone then return (m, [], true)
  else
    let maxPrice := order.sellPrice.inverse
    let highest ← Price.maximum maxPrice.base.assetId maxPrice.quote.assetId
    let (m, matched) ← matchAgainst id m ((m.limitsBetween highest maxPrice).map Sigma.fst)
    let (m, _) ← m.checkCallOrders sellAsset allowBlackSwan
    let (m, _) ← m.checkCallOrders receiveAsset allowBlackSwan
    if (m.limitOrders.lookup id).isNone then return (m, matched, true)
    else
      let (m, culled) ← m.maybeCullSmallOrder id
      return (m, matched, culled)

end Market

/-! ## Order books -/

namespace LimitOrder

variable (a b : LimitOrder)

/-- The price of an order is one of two assets, with no more for sale than there can be. -/
structure WellPriced : Prop where
  /-- It is a price. -/
  valid : a.sellPrice.Valid
  /-- There is no more of an asset. -/
  le_supply : a.sellPrice.base.amount ≤ maxShareSupply

/-- There is something for sale, and something to receive for it. -/
structure NotDust : Prop where
  /-- Something is for sale. -/
  forSale_pos : 0 < a.forSale
  /-- Something is to be received. -/
  receive_pos : ∃ receive, a.amountToReceive = some receive ∧ 0 < receive.amount

/-- Two orders go in opposite directions, and the price of the second meets that of the first or
beats it. -/
def Crosses : Prop :=
  b.sellPrice.Of a.sellPrice.quote.assetId a.sellPrice.base.assetId ∧
    a.sellPrice.inverse.lessEq b.sellPrice = true

/-- An order after it has paid `amount`. -/
def pay (order : LimitOrder) (amount : ℤ) : LimitOrder :=
  { order with forSale := order.forSale - amount, deferredFee := 0 }

end LimitOrder

namespace Market

/-- **An order book** that is not crossed and holds no dust. -/
structure Orderly (m : Market) : Prop where
  /-- The orders have prices. -/
  wellPriced : ∀ id, ∀ a ∈ m.limitOrders.lookup id, a.WellPriced
  /-- There is no dust. -/
  notDust : ∀ id, ∀ a ∈ m.limitOrders.lookup id, a.NotDust
  /-- No two orders cross. -/
  uncrossed : ∀ i, ∀ a ∈ m.limitOrders.lookup i, ∀ j, ∀ b ∈ m.limitOrders.lookup j, ¬a.Crosses b

/-- There are no margin positions. -/
def NoCalls (m : Market) : Prop := ∀ id, m.callOrders.lookup id = none

/-- The resting orders `filled` of a book are filled one after the other.  There is a book after
each of them, in which it is gone and nothing else has changed but the new order.  Only of the last
one may there be something left, and then the new order is gone. -/
inductive FilledInTurn (new : ℕ) : List ℕ → Market → Market → Prop where
  /-- None is filled. -/
  | nil {m m' : Market} (h : ∀ j ≠ new, m'.limitOrders.lookup j = m.limitOrders.lookup j) :
    FilledInTurn new [] m m'
  /-- The last one is filled in part. -/
  | part {m m' : Market} {j : ℕ} {b : LimitOrder} {paid : ℤ} (hj : j ≠ new)
    (hb : m.limitOrders.lookup j = some b) (hpaid : 0 ≤ paid)
    (left : m'.limitOrders.lookup j = some (b.pay paid)) (used : m'.limitOrders.lookup new = none)
    (others : ∀ i ≠ new, i ≠ j → m'.limitOrders.lookup i = m.limitOrders.lookup i) :
    FilledInTurn new [j] m m'
  /-- One is filled, and others after it. -/
  | gone {m m₁ m' : Market} {j : ℕ} {js : List ℕ} {b : LimitOrder} (hj : j ≠ new)
    (hb : m.limitOrders.lookup j = some b) (gone : m₁.limitOrders.lookup j = none)
    (others : ∀ i ≠ new, i ≠ j → m₁.limitOrders.lookup i = m.limitOrders.lookup i)
    (rest : FilledInTurn new js m₁ m') : FilledInTurn new (j :: js) m m'

/-- The resting orders that were filled are `filled`, first to last, and each was filled before all
that have a worse price. -/
structure FilledByPrice (new : ℕ) (filled : List ℕ) (m m' : Market) : Prop where
  /-- This is what became of the book. -/
  inTurn : FilledInTurn new filled m m'
  /-- The other resting orders are as they were. -/
  untouched : ∀ j ≠ new, j ∉ filled → m'.limitOrders.lookup j = m.limitOrders.lookup j
  /-- No order is filled twice. -/
  nodup : filled.Nodup
  /-- When an order is filled, those of its market with a better price have been. -/
  better : ∀ j ∈ filled, ∃ b ∈ m.limitOrders.lookup j, ∀ i, ∀ a ∈ m.limitOrders.lookup i,
    a.sellPrice.Of b.sellPrice.base.assetId b.sellPrice.quote.assetId →
      b.sellPrice.less a.sellPrice = true → [i, j].Sublist filled
  /-- They are gone. -/
  better_gone : ∀ j ∈ filled, ∀ b ∈ m.limitOrders.lookup j, ∀ i, ∀ a ∈ m.limitOrders.lookup i,
    a.sellPrice.Of b.sellPrice.base.assetId b.sellPrice.quote.assetId →
      b.sellPrice.less a.sellPrice = true → m'.limitOrders.lookup i = none

end Market

/-! ## Without margin positions -/

namespace Market

variable {m m' : Market} {mia : AssetId} {enable called : Bool}

theorem callsOf_of_noCalls (hno : m.NoCalls) {backing : AssetId}
    {calls : List ((_ : ℕ) × CallOrder)} (h : m.callsOf mia backing = some calls) : calls = [] := by
  refine List.eq_nil_iff_forall_not_mem.2 fun call hcall ↦ ?_
  cases (hno call.1).symm.trans ((mem_callsOf h).2 call hcall)

theorem checkForBlackswan_of_noCalls (hno : m.NoCalls)
    (h : m.checkForBlackswan mia enable = some (m', called)) : m' = m := by
  rcases checkForBlackswan_spec h with ⟨-, rfl, -⟩ | ⟨-, rfl, -⟩ | ⟨price, hswan, -⟩
  · rfl
  · rfl
  · rw [blackSwan] at hswan
    split at hswan
    · cases hswan
    split_ifs at hswan
    · cases hswan
    dsimp only at hswan
    split_ifs at hswan
    · cases hswan
    simp only [Option.bind_eq_bind, Option.bind_eq_some_iff] at hswan
    obtain ⟨highest, -, lowest, -, calls, hcalls, hswan⟩ := hswan
    rw [callsOf_of_noCalls hno hcalls] at hswan
    cases hswan

theorem run_of_noCalls {s : MarginCalls} (hno : s.market.NoCalls) (hcalls : s.calls = [])
    (h : s.run mia enable = some (m', called)) : m' = s.market := by
  have hplan : s.plan mia = some .stop := by
    rw [MarginCalls.plan, hcalls]
    rfl
  rw [MarginCalls.run] at h
  split at h
  · cases h
  · rename_i r hnext
    obtain rfl := Option.some.inj h
    obtain ⟨m₁, settled, hswan, ⟨hr, -⟩ | ⟨-, ⟨p, _, hsettle, -⟩ | hfill⟩⟩ :=
      MarginCalls.next_spec hnext
    · obtain ⟨rfl, -⟩ := Prod.mk.inj (Sum.inl.inj hr)
      exact checkForBlackswan_of_noCalls hno hswan
    · cases hplan.symm.trans hsettle
    · obtain ⟨_, _, _, _, _, _, _, _, _, _, hfill, -⟩ := hfill
      cases hplan.symm.trans hfill
  · rename_i s' hnext
    obtain ⟨m₁, settled, -, ⟨hr, -⟩ | ⟨-, ⟨p, _, -, -, hr⟩ | hfill⟩⟩ := MarginCalls.next_spec hnext
    · cases hr
    · cases hr
    · obtain ⟨_, _, _, _, _, _, _, _, _, _, hfill, -⟩ := hfill
      cases hplan.symm.trans hfill

/-- **Checking the call orders** changes nothing where there are none. -/
theorem checkCallOrders_of_noCalls (hno : m.NoCalls)
    (h : m.checkCallOrders mia enable = some (m', called)) : m' = m := by
  rcases checkCallOrders_spec h with ⟨-, rfl⟩ | ⟨bitasset, m₁, settled, -, hswan, hrest⟩
  · rfl
  obtain rfl := checkForBlackswan_of_noCalls hno hswan
  rcases hrest with ⟨rfl, -⟩ | ⟨-, s, hstart, hrun⟩
  · rfl
  have hmarket := market_of_startMarginCalls hstart
  refine (run_of_noCalls (hmarket ▸ hno) ?_ hrun).trans hmarket
  rw [startMarginCalls] at hstart
  split_ifs at hstart
  · cases hstart
  simp only [Option.bind_eq_bind, Option.bind_eq_some_iff] at hstart
  obtain ⟨highest, -, lowest, -, hstart⟩ := hstart
  split_ifs at hstart
  · cases hstart
  obtain ⟨calls, hcalls, hstart⟩ := Option.bind_eq_some_iff.1 hstart
  obtain rfl := Option.some.inj (Option.some.inj hstart)
  rw [callsOf_of_noCalls hno hcalls]
  rfl

end Market

/-! ## What one order is filled with -/

namespace Market

variable {m m' m₁ : Market} {id : ℕ}

/-- Of all orders, no other than one limit order has changed. -/
structure Touches (id : ℕ) (m m' : Market) : Prop where
  /-- The call orders are the same. -/
  calls : m'.callOrders = m.callOrders
  /-- The other limit orders are the same. -/
  others : ∀ j ≠ id, m'.limitOrders.lookup j = m.limitOrders.lookup j

theorem Touches.refl (id : ℕ) (m : Market) : Touches id m m := ⟨rfl, fun _ _ ↦ rfl⟩

theorem Touches.trans (h : Touches id m m₁) (h' : Touches id m₁ m') : Touches id m m' :=
  ⟨h'.calls.trans h.calls, fun j hj ↦ (h'.others j hj).trans (h.others j hj)⟩

theorem SameOrders.touches (h : SameOrders m m') (id : ℕ) : Touches id m m' :=
  ⟨h.calls, fun j _ ↦ by rw [h.limits]⟩

theorem touches_erase (m : Market) (id : ℕ) :
    Touches id m { m with limitOrders := m.limitOrders.erase id } :=
  ⟨rfl, fun _ hj ↦ AList.lookup_erase_ne hj⟩

theorem touches_insert (m : Market) (id : ℕ) (order : LimitOrder) :
    Touches id m { m with limitOrders := m.limitOrders.insert id order } :=
  ⟨rfl, fun _ hj ↦ AList.lookup_insert_ne hj⟩

/-- An order that is taken back is gone. -/
theorem lookup_cancelOrder (h : m.cancelOrder id = some m') :
    Touches id m m' ∧ m'.limitOrders.lookup id = none := by
  simp only [cancelOrder, Option.bind_eq_bind, Option.bind_eq_some_iff] at h
  obtain ⟨order, -, -, -, m₁, hm₁, m₂, hm₂, h⟩ := h
  obtain rfl := Option.some.inj h
  refine ⟨Touches.trans ?_ (touches_erase m₂ id), AList.lookup_erase _ _⟩
  refine Touches.trans ⟨?_, ?_⟩
    (((sameOrders_adjustBalance hm₁).trans (sameOrders_adjustBalance hm₂)).touches id)
  · exact callOrders_addIf _ _ _
  · intro j _
    rw [limitOrders_addIf]

/-- An order is culled if nothing is to be received for it. -/
theorem lookup_maybeCullSmallOrder {culled : Bool}
    (h : m.maybeCullSmallOrder id = some (m', culled)) :
    Touches id m m' ∧ (culled = true ∧ m'.limitOrders.lookup id = none ∧ (∃ order receive,
        m.limitOrders.lookup id = some order ∧ order.amountToReceive = some receive ∧
          receive.amount = 0) ∨
      culled = false ∧ m' = m ∧ ∃ order receive, m.limitOrders.lookup id = some order ∧
        order.amountToReceive = some receive ∧ 0 < receive.amount) := by
  simp only [maybeCullSmallOrder, Option.bind_eq_bind, Option.bind_eq_some_iff] at h
  obtain ⟨order, horder, receive, hreceive, h⟩ := h
  split_ifs at h with hzero
  · obtain ⟨m₁, hm₁, h⟩ := Option.bind_eq_some_iff.1 h
    obtain ⟨rfl, rfl⟩ := Prod.mk.inj (Option.some.inj h)
    obtain ⟨htouches, hgone⟩ := lookup_cancelOrder hm₁
    exact ⟨htouches, .inl ⟨rfl, hgone, order, receive, horder, hreceive, hzero⟩⟩
  · obtain ⟨rfl, rfl⟩ := Prod.mk.inj (Option.some.inj h)
    refine ⟨.refl id _, .inr ⟨rfl, rfl, order, receive, horder, hreceive, ?_⟩⟩
    exact lt_of_le_of_ne (Asset.amount_nonneg_of_mulPrice hreceive) (Ne.symm hzero)

/-- **What filling a limit order leaves**: it is gone, or it has less for sale. -/
theorem lookup_fillLimitOrder {pays receives : Asset} {cull filled : Bool}
    (h : m.fillLimitOrder id pays receives cull = some (m', filled)) :
    ∃ order, m.limitOrders.lookup id = some order ∧ order.amountForSale.assetId = pays.assetId ∧
      Touches id m m' ∧
      (filled = true ∧ m'.limitOrders.lookup id = none ∧
          (pays = order.amountForSale ∨ cull = true ∧ ∃ receive,
            (order.pay pays.amount).amountToReceive = some receive ∧ receive.amount = 0) ∨
        filled = false ∧ pays ≠ order.amountForSale ∧
          m'.limitOrders.lookup id = some (order.pay pays.amount) ∧
          (cull = true → ∃ receive, (order.pay pays.amount).amountToReceive = some receive ∧
            0 < receive.amount)) := by
  simp only [fillLimitOrder, Option.bind_eq_bind, Option.bind_eq_some_iff, Option.guard_eq_some',
    exists_const] at h
  obtain ⟨order, horder, hasset, -, -, -, ⟨m₁, fees⟩, hfees, paid, -, m₂, hm₂, h⟩ := h
  have hpaid : Touches id m
      (if order.deferredFee > 0 then m₂.payDeferredFee order.seller order.deferredFee
        else m₂) := by
    obtain ⟨-, hlimits, hcalls⟩ := payOrder_spec hm₂
    refine ((sameOrders_payMarketFees hfees).touches id).trans
      (Touches.trans ⟨hcalls, fun j _ ↦ by rw [hlimits]⟩ ?_)
    split_ifs
    · exact ⟨rfl, fun _ _ ↦ rfl⟩
    · exact .refl id m₂
  generalize (if order.deferredFee > 0 then _ else m₂) = m₃ at hpaid h
  refine ⟨order, horder, hasset, ?_⟩
  split_ifs at h with hall hcull
  · obtain ⟨rfl, rfl⟩ := Prod.mk.inj (Option.some.inj h)
    exact ⟨hpaid.trans (touches_erase m₃ id), .inl ⟨rfl, AList.lookup_erase _ _, .inl hall⟩⟩
  · obtain ⟨htouches, hculled⟩ := lookup_maybeCullSmallOrder h
    refine ⟨hpaid.trans ((touches_insert m₃ id _).trans htouches), ?_⟩
    rcases hculled with ⟨rfl, hgone, after, receive, hafter, hreceive, hzero⟩ |
      ⟨rfl, rfl, after, receive, hafter, hreceive, hpos⟩
    · rw [AList.lookup_insert] at hafter
      obtain rfl := Option.some.inj hafter
      exact .inl ⟨rfl, hgone, .inr ⟨hcull, receive, hreceive, hzero⟩⟩
    · rw [AList.lookup_insert] at hafter
      obtain rfl := Option.some.inj hafter
      exact .inr ⟨rfl, hall, AList.lookup_insert _, fun _ ↦ ⟨receive, hreceive, hpos⟩⟩
  · obtain ⟨rfl, rfl⟩ := Prod.mk.inj (Option.some.inj h)
    exact ⟨hpaid.trans (touches_insert m₃ id _),
      .inr ⟨rfl, hall, AList.lookup_insert _, fun htrue ↦ absurd htrue hcull⟩⟩

end Market

/-! ## What one match leaves -/

namespace LimitOrder

variable {c : LimitOrder} {receive : Asset}

/-- What is to be received is rounded down. -/
theorem amountToReceive_eq (h : c.amountToReceive = some receive) :
    receive.assetId = c.sellPrice.quote.assetId ∧
      receive.amount = c.forSale * c.sellPrice.quote.amount / c.sellPrice.base.amount := by
  rw [amountToReceive, Asset.mulPrice, if_pos (by rfl)] at h
  obtain ⟨-, -, -, rfl⟩ := Asset.convert_eq_some.1 h
  exact ⟨rfl, rfl⟩

/-- No more is paid for a part of what is to be received than there is for sale. -/
theorem paid_le {given : ℤ} {paid : Asset} (hc : c.sellPrice.Valid)
    (hreceive : c.amountToReceive = some receive) (hle : given ≤ receive.amount)
    (hpaid : (⟨given, receive.assetId⟩ : Asset).mulPrice c.sellPrice = some paid) :
    paid.amount ≤ c.forSale := by
  obtain ⟨hbase, hquote, hne⟩ := hc
  obtain ⟨hid, hamount⟩ := amountToReceive_eq hreceive
  rw [Asset.mulPrice, if_neg (by rw [hid]; exact hne.symm), if_pos hid] at hpaid
  obtain ⟨-, -, -, rfl⟩ := Asset.convert_eq_some.1 hpaid
  rw [hamount, Int.le_ediv_iff_mul_le hbase] at hle
  exact Int.ediv_le_of_le_mul hquote hle

/-- An order is no dust that has paid a part of what it sells, and can still receive something. -/
theorem notDust_pay {pays : Asset} (hid : c.amountForSale.assetId = pays.assetId)
    (hle : pays.amount ≤ c.forSale) (hne : pays ≠ c.amountForSale)
    (hreceive : ∃ receive, (c.pay pays.amount).amountToReceive = some receive ∧
      0 < receive.amount) : (c.pay pays.amount).NotDust := by
  refine ⟨?_, hreceive⟩
  show 0 < c.forSale - pays.amount
  refine Int.sub_pos.2 (lt_of_le_of_ne hle fun heq ↦ hne ?_)
  obtain ⟨amount, assetId⟩ := pays
  exact Asset.mk.injEq _ _ _ _ ▸ ⟨heq, hid.symm⟩

end LimitOrder

namespace Market

variable {m m' : Market} {new old : ℕ} {u c : LimitOrder}

/-- **What one match leaves**: the new order is gone, or only the old one is, and some of the new
one is left. -/
theorem matchLimitOrders_spec {filled : Bool × Bool}
    (h : m.matchLimitOrders new old c.sellPrice = some (m', filled)) (hne : new ≠ old)
    (hu : m.limitOrders.lookup new = some u) (hc : m.limitOrders.lookup old = some c)
    (hvalid : c.sellPrice.Valid) (hdust : c.NotDust) :
    m'.callOrders = m.callOrders ∧
      (∀ j, j ≠ new → j ≠ old → m'.limitOrders.lookup j = m.limitOrders.lookup j) ∧
      (filled.1 = true ∧ m'.limitOrders.lookup new = none ∧
          (m'.limitOrders.lookup old = none ∨ ∃ paid, 0 ≤ paid ∧ (c.pay paid).NotDust ∧
            m'.limitOrders.lookup old = some (c.pay paid)) ∨
        filled = (false, true) ∧ m'.limitOrders.lookup old = none ∧
          ∃ u', m'.limitOrders.lookup new = some u' ∧ 0 < u'.forSale ∧
            u'.sellPrice = u.sellPrice) := by
  obtain ⟨worth, hworth, hpos⟩ := hdust.receive_pos
  simp only [matchLimitOrders, Option.bind_eq_bind, Option.bind_eq_some_iff, hu, hc,
    Option.some.injEq, exists_eq_left'] at h
  obtain ⟨worth', hworth', less, hless, receives, hreceives, ⟨m₁, _⟩, hm₁, ⟨m₂, _⟩, hm₂, h⟩ := h
  obtain rfl := Option.some.inj (hworth.symm.trans hworth')
  obtain ⟨rfl, rfl⟩ := Prod.mk.inj (Option.some.inj h)
  obtain ⟨hid, hless⟩ := Asset.lessEq_eq_some.1 hless
  obtain ⟨u₁, hu₁, -, htouches₁, hfilled₁⟩ := lookup_fillLimitOrder hm₁
  obtain rfl := Option.some.inj (hu.symm.trans hu₁)
  obtain ⟨c₁, hc₁, hid₂, htouches₂, hfilled₂⟩ := lookup_fillLimitOrder hm₂
  rw [htouches₁.others old hne.symm] at hc₁
  obtain rfl := Option.some.inj (hc.symm.trans hc₁)
  refine ⟨htouches₂.calls.trans htouches₁.calls, fun j hnew hold ↦
    (htouches₂.others j hold).trans (htouches₁.others j hnew), ?_⟩
  rw [htouches₂.others new hne]
  cases less with
  | true =>
    -- All that is for sale of the new order is taken.
    rw [if_pos rfl] at hm₁ hm₂ hreceives
    rw [if_pos rfl] at hfilled₁
    left
    rcases hfilled₁ with ⟨rfl, hgone, -⟩ | ⟨-, hall, -⟩
    · refine ⟨rfl, hgone, ?_⟩
      rcases hfilled₂ with ⟨-, hgone₂, -⟩ | ⟨-, hpart, hrest, hcull⟩
      · exact .inl hgone₂
      · refine .inr ⟨_, Asset.amount_nonneg_of_mulPrice hreceives,
          LimitOrder.notDust_pay hid₂ ?_ hpart (hcull rfl), hrest⟩
        exact LimitOrder.paid_le hvalid hworth (of_decide_eq_true hless) (hid ▸ hreceives)
    · exact absurd rfl hall
  | false =>
    -- All that is for sale of the old order is taken, for less than the new one sells.
    rw [if_neg Bool.false_ne_true] at hreceives hfilled₁
    obtain rfl := Option.some.inj hreceives
    have hlt : worth.amount < u.forSale := not_le.1 (of_decide_eq_false hless)
    right
    rcases hfilled₁ with ⟨-, -, hall | ⟨hcull, -⟩⟩ | ⟨rfl, -, hrest, -⟩
    · exact absurd (congrArg Asset.amount hall) hlt.ne
    · cases hcull
    rcases hfilled₂ with ⟨rfl, hgone, -⟩ | ⟨-, hpart, -⟩
    · exact ⟨rfl, hgone, _, hrest, Int.sub_pos.2 hlt, rfl⟩
    · exact absurd rfl hpart

end Market

/-! ## What all the matches leave -/

namespace Market

/-- A new order has been matched with the first of the orders `ids`, and either is gone or has used
up all of them. -/
structure Matching (new : ℕ) (ids matched : List ℕ) (m m' : Market) : Prop where
  /-- The orders were matched one after the other. -/
  front : matched <+: ids
  /-- They are filled in turn. -/
  inTurn : FilledInTurn new matched m m'
  /-- The call orders are the same. -/
  calls : m'.callOrders = m.callOrders
  /-- The orders that were not matched are the same. -/
  others : ∀ j ≠ new, j ∉ matched → m'.limitOrders.lookup j = m.limitOrders.lookup j
  /-- An order that was matched is gone, or what is left of it can still be sold. -/
  left : ∀ j ∈ matched, ∀ c' ∈ m'.limitOrders.lookup j,
    c'.NotDust ∧ ∃ c ∈ m.limitOrders.lookup j, c'.sellPrice = c.sellPrice
  /-- Of the new order nothing is left, or of all the others. -/
  done : m'.limitOrders.lookup new = none ∨ (∀ j ∈ ids, m'.limitOrders.lookup j = none) ∧
    ∃ u ∈ m.limitOrders.lookup new, ∃ u' ∈ m'.limitOrders.lookup new,
      0 < u'.forSale ∧ u'.sellPrice = u.sellPrice

/-- **The loop of `apply_order`**, by induction on the orders that are left to be matched. -/
theorem matchAgainst_spec {m m' : Market} {new : ℕ} {ids matched : List ℕ} {u : LimitOrder}
    (hnodup : ids.Nodup) (hnew : new ∉ ids) (hu : m.limitOrders.lookup new = some u)
    (hpos : 0 < u.forSale)
    (hids : ∀ j ∈ ids, ∃ c, m.limitOrders.lookup j = some c ∧ c.sellPrice.Valid ∧ c.NotDust)
    (h : matchAgainst new m ids = some (m', matched)) : Matching new ids matched m m' := by
  induction ids generalizing m m' matched u with
  | nil =>
    obtain ⟨rfl, rfl⟩ := Prod.mk.inj (Option.some.inj h)
    exact ⟨List.prefix_rfl, .nil fun _ _ ↦ rfl, rfl, fun _ _ _ ↦ rfl,
      fun j hj ↦ absurd hj List.not_mem_nil,
      .inr ⟨fun j hj ↦ absurd hj List.not_mem_nil, u, hu, u, hu, hpos, rfl⟩⟩
  | cons old olds ih =>
    obtain ⟨hold, hnodup⟩ := List.nodup_cons.1 hnodup
    obtain ⟨hne, hnew⟩ := not_or.1 (mt List.mem_cons.2 hnew)
    obtain ⟨c, hc, hvalid, hdust⟩ := hids old List.mem_cons_self
    simp only [matchAgainst, Option.bind_eq_bind, Option.bind_eq_some_iff, hc, Option.some.injEq,
      exists_eq_left'] at h
    obtain ⟨⟨m₁, filled⟩, hmatch, h⟩ := h
    obtain ⟨hcalls, hothers, hstop | ⟨rfl, hgone, u', hu', hpos', hprice⟩⟩ :=
      matchLimitOrders_spec hmatch hne hu hc hvalid hdust
    · -- The new order is gone, and the loop ends.
      obtain ⟨hfilled, hgone, hleft⟩ := hstop
      have hstop : filled ≠ (false, true) := by
        rintro rfl
        cases hfilled
      rw [if_neg hstop] at h
      obtain ⟨rfl, rfl⟩ := Prod.mk.inj (Option.some.inj h)
      refine ⟨⟨olds, rfl⟩, ?_, hcalls, fun j hj hnot ↦ hothers j hj ?_, fun j hj c' hc' ↦ ?_,
        .inl hgone⟩
      · rcases hleft with hgone₂ | ⟨paid, hpaid, -, hpart⟩
        · exact .gone (Ne.symm hne) hc hgone₂ hothers (.nil fun _ _ ↦ rfl)
        · exact .part (Ne.symm hne) hc hpaid hpart hgone hothers
      · exact fun heq ↦ hnot (List.mem_singleton.2 heq)
      · obtain rfl := List.mem_singleton.1 hj
        rcases hleft with hgone₂ | ⟨paid, -, hdust', hpart⟩
        · cases hgone₂.symm.trans hc'
        · obtain rfl := Option.some.inj (hpart.symm.trans hc')
          exact ⟨hdust', c, hc, rfl⟩
    · rw [if_pos rfl] at h
      obtain ⟨⟨m₂, rest⟩, hrest, h⟩ := Option.bind_eq_some_iff.1 h
      obtain ⟨rfl, rfl⟩ := Prod.mk.inj (Option.some.inj h)
      have hsame : ∀ j ∈ olds, m₁.limitOrders.lookup j = m.limitOrders.lookup j := fun j hj ↦
        hothers j (fun heq ↦ hnew (heq ▸ hj)) fun heq ↦ hold (heq ▸ hj)
      have hmatching := ih hnodup hnew hu' hpos'
        (fun j hj ↦ by rw [hsame j hj]; exact hids j (List.mem_cons_of_mem old hj)) hrest
      have hgone₂ : m₂.limitOrders.lookup old = none :=
        (hmatching.others old (Ne.symm hne) fun hmem ↦
          hold (hmatching.front.subset hmem)).trans hgone
      refine ⟨List.cons_prefix_cons.2 ⟨rfl, hmatching.front⟩,
        .gone (Ne.symm hne) hc hgone hothers hmatching.inTurn, hmatching.calls.trans hcalls,
        fun j hj hnot ↦ ?_, fun j hj c' hc' ↦ ?_, ?_⟩
      · obtain ⟨hjold, hjrest⟩ := not_or.1 (mt List.mem_cons.2 hnot)
        exact (hmatching.others j hj hjrest).trans (hothers j hj hjold)
      · rcases List.mem_cons.1 hj with rfl | hj
        · cases hgone₂.symm.trans hc'
        · obtain ⟨hdust', c₁, hc₁, hprice₁⟩ := hmatching.left j hj c' hc'
          rw [hsame j (hmatching.front.subset hj)] at hc₁
          exact ⟨hdust', c₁, hc₁, hprice₁⟩
      · rcases hmatching.done with hgone' | ⟨hall, u₁, hu₁, u₂, hu₂, hpos₂, hprice₂⟩
        · exact .inl hgone'
        · obtain rfl := Option.some.inj (hu'.symm.trans hu₁)
          exact .inr ⟨List.forall_mem_cons.2 ⟨hgone₂, hall⟩, u, hu, u₂, hu₂, hpos₂,
            hprice₂.trans hprice⟩

/-- What is done to the new order before and afterwards does not matter, as long as it stays
gone. -/
theorem FilledInTurn.congr {new : ℕ} {filled : List ℕ} {m m₀ m' m₁ : Market}
    (h : FilledInTurn new filled m₀ m₁)
    (hstart : ∀ j ≠ new, m₀.limitOrders.lookup j = m.limitOrders.lookup j)
    (hend : ∀ j ≠ new, m'.limitOrders.lookup j = m₁.limitOrders.lookup j)
    (hused : m₁.limitOrders.lookup new = none → m'.limitOrders.lookup new = none) :
    FilledInTurn new filled m m' := by
  induction h generalizing m with
  | nil h => exact .nil fun j hj ↦ (hend j hj).trans ((h j hj).trans (hstart j hj))
  | part hj hb hpaid left used others =>
    refine .part hj ((hstart _ hj).symm.trans hb) hpaid ((hend _ hj).trans left) (hused used)
      fun i hi hne ↦ ?_
    exact (hend i hi).trans ((others i hi hne).trans (hstart i hi))
  | gone hj hb gone others _ ih =>
    exact .gone hj ((hstart _ hj).symm.trans hb) gone
      (fun i hi hne ↦ (others i hi hne).trans (hstart i hi)) (ih (fun _ _ ↦ rfl) hend hused)

/-- Whatever is gone stays so. -/
theorem FilledInTurn.lookup_eq_none {new : ℕ} {filled : List ℕ} {m m' : Market}
    (h : FilledInTurn new filled m m') {i : ℕ} (hi : i ≠ new)
    (hnone : m.limitOrders.lookup i = none) : m'.limitOrders.lookup i = none := by
  induction h with
  | nil h => exact (h i hi).trans hnone
  | @part m _ j _ _ _ hb _ _ _ others =>
    have hne : i ≠ j := by
      rintro rfl
      cases hnone.symm.trans hb
    exact (others i hi hne).trans hnone
  | @gone m _ _ j _ _ _ hb _ others _ ih =>
    have hne : i ≠ j := by
      rintro rfl
      cases hnone.symm.trans hb
    exact ih ((others i hi hne).trans hnone)

/-- When an order is filled, those that were filled before are gone. -/
theorem FilledInTurn.gone_of_sublist {new : ℕ} {filled : List ℕ} {m m' : Market}
    (h : FilledInTurn new filled m m') {i j : ℕ} (hsub : [i, j].Sublist filled) :
    m'.limitOrders.lookup i = none := by
  induction h with
  | nil => cases hsub
  | part =>
    have hlength := hsub.length_le
    simp at hlength
  | gone hj _ hgone _ rest ih =>
    cases hsub with
    | cons _ hsub => exact ih hsub
    | cons_cons _ _ => exact rest.lookup_eq_none hj hgone

end Market

/-! ## The order of the book -/

/-- In a list that is ordered by `r`, what does not come after an element of a front comes before it
there. -/
theorem sublist_pair_of_front {α : Type*} {r : α → α → Prop} {l front : List α} {x y : α}
    (hl : l.Pairwise r) (hfront : front <+: l) (hy : y ∈ front) (hx : x ∈ l) (hne : x ≠ y)
    (hnot : ¬r y x) : [x, y].Sublist front := by
  obtain ⟨s, t, rfl⟩ := List.append_of_mem hy
  obtain ⟨rest, rfl⟩ := hfront
  rw [List.append_assoc, List.cons_append] at hl hx
  rcases List.mem_append.1 hx with hx | hx
  · exact (List.singleton_sublist.2 hx).append (List.singleton_sublist.2 List.mem_cons_self)
  · rcases List.mem_cons.1 hx with rfl | hx
    · exact absurd rfl hne
    · exact absurd ((List.pairwise_cons.1 (List.pairwise_append.1 hl).2.1).1 x hx) hnot

/-- What is sorted by a relation that compares keys stands in the order of the keys. -/
theorem pairwise_insertionSort_of_key {α κ : Type*} [LinearOrder κ] {r : α → α → Prop}
    [DecidableRel r] (key : α → κ) {l : List α}
    (h : ∀ a ∈ l, ∀ b ∈ l, r a b ↔ key a ≤ key b) : (l.insertionSort r).Pairwise r := by
  let byKey (a b : α) : Prop := key a ≤ key b
  have htotal : Std.Total byKey := ⟨fun _ _ ↦ le_total _ _⟩
  have htrans : IsTrans _ byKey := ⟨fun _ _ _ ↦ le_trans⟩
  have hdec : DecidableRel byKey := fun a b ↦ inferInstanceAs (Decidable (key a ≤ key b))
  have hsort : l.insertionSort r = l.insertionSort byKey := by
    have h := List.map_insertionSort (r := r) (s := byKey) id l h
    rwa [List.map_id, List.map_id] at h
  refine List.Pairwise.imp_of_mem (fun {a b} ha hb hab ↦ ?_)
    (hsort ▸ List.pairwise_insertionSort byKey l)
  exact (h a ((List.mem_insertionSort r).1 ha) b ((List.mem_insertionSort r).1 hb)).2 hab

namespace Price

variable {a b : Price}

/-- The ratio of a price. -/
def ratio (p : Price) : ℚ := p.base.amount / p.quote.amount

theorem lessEq_iff (hof : a.Of b.base.assetId b.quote.assetId) :
    a.lessEq b = true ↔ b.quote.amount * a.base.amount ≤ a.quote.amount * b.base.amount := by
  rw [lessEq, Bool.or_eq_true, less_iff hof.1 hof.2, equal, decide_eq_true_iff,
    and_iff_right hof.1, and_iff_right hof.2, le_iff_lt_or_eq, or_comm]

theorem less_iff_ratio (hof : a.Of b.base.assetId b.quote.assetId) (ha : a.Valid) (hb : b.Valid) :
    a.less b = true ↔ a.ratio < b.ratio := by
  rw [less_iff hof.1 hof.2, ratio, ratio,
    div_lt_div_iff₀ (Int.cast_pos.2 ha.2.1) (Int.cast_pos.2 hb.2.1), mul_comm,
    mul_comm a.quote.amount]
  exact_mod_cast Iff.rfl

theorem lessEq_iff_ratio (hof : a.Of b.base.assetId b.quote.assetId) (ha : a.Valid)
    (hb : b.Valid) : a.lessEq b = true ↔ a.ratio ≤ b.ratio := by
  rw [lessEq_iff hof, ratio, ratio,
    div_le_div_iff₀ (Int.cast_pos.2 ha.2.1) (Int.cast_pos.2 hb.2.1), mul_comm,
    mul_comm a.quote.amount]
  exact_mod_cast Iff.rfl

theorem Valid.inverse (h : a.Valid) : a.inverse.Valid := ⟨h.2.1, h.1, h.2.2.symm⟩

end Price

namespace LimitOrder

variable {a b : LimitOrder}

theorem Crosses.symm (h : a.Crosses b) : b.Crosses a := by
  obtain ⟨⟨hbase, hquote⟩, hle⟩ := h
  rw [Price.lessEq_iff ⟨hbase.symm, hquote.symm⟩] at hle
  refine ⟨⟨hquote.symm, hbase.symm⟩, (Price.lessEq_iff ⟨hquote, hbase⟩).2 ?_⟩
  show a.sellPrice.quote.amount * b.sellPrice.quote.amount ≤ _
  rw [mul_comm a.sellPrice.quote.amount, mul_comm b.sellPrice.inverse.quote.amount]
  exact hle

/-- No price is above `price::max`. -/
theorem WellPriced.lessEq_maximum (h : a.WellPriced) :
    a.sellPrice.lessEq ⟨⟨maxShareSupply, a.sellPrice.base.assetId⟩,
      ⟨1, a.sellPrice.quote.assetId⟩⟩ = true := by
  refine (@Price.lessEq_iff a.sellPrice ⟨⟨maxShareSupply, _⟩, ⟨1, _⟩⟩ ⟨rfl, rfl⟩).2 ?_
  have hquote : 1 ≤ a.sellPrice.quote.amount := h.valid.2.1
  calc 1 * a.sellPrice.base.amount ≤ 1 * maxShareSupply := by
        rw [one_mul, one_mul]
        exact h.le_supply
    _ ≤ a.sellPrice.quote.amount * maxShareSupply :=
        mul_le_mul_of_nonneg_right hquote (by decide)

end LimitOrder

namespace Market

variable {m : Market} {base quote : AssetId} {highest lowest : Price}

/-- The ids of the orders of a market are distinct. -/
theorem nodup_limitsBetween (m : Market) (highest lowest : Price) :
    ((m.limitsBetween highest lowest).map Sigma.fst).Nodup :=
  (((List.perm_insertionSort dearestFirst _).map Sigma.fst).nodup_iff).2
    (m.limitOrders.nodupKeys.sublist List.filter_sublist)

theorem mem_limitsBetween_of {id : ℕ} {a : LimitOrder} (ha : m.limitOrders.lookup id = some a)
    (hhighest : a.sellPrice.lessEq highest = true) (hlowest : lowest.lessEq a.sellPrice = true) :
    ⟨id, a⟩ ∈ m.limitsBetween highest lowest := by
  rw [limitsBetween, List.mem_insertionSort, List.mem_filter, Bool.and_eq_true]
  exact ⟨List.of_mem_dlookup ha, hhighest, hlowest⟩

/-- What orders of one market are sorted by. -/
def bookKey (e : (_ : ℕ) × LimitOrder) : ℚ ×ₗ ℕ := toLex (-e.2.sellPrice.ratio, e.1)

theorem dearestFirst_iff {a b : (_ : ℕ) × LimitOrder}
    (hof : a.2.sellPrice.Of b.2.sellPrice.base.assetId b.2.sellPrice.quote.assetId)
    (ha : a.2.sellPrice.Valid) (hb : b.2.sellPrice.Valid) :
    dearestFirst a b ↔ bookKey a ≤ bookKey b := by
  rw [dearestFirst, Price.less_iff_ratio ⟨hof.1.symm, hof.2.symm⟩ hb ha,
    Price.less_iff_ratio hof ha hb, bookKey, bookKey, Prod.Lex.toLex_le_toLex, neg_lt_neg_iff,
    neg_inj, not_lt]
  refine or_congr_right' fun hnot ↦ and_congr_left fun _ ↦ ?_
  exact ⟨fun hle ↦ le_antisymm (not_lt.1 hnot) hle, fun heq ↦ heq.ge⟩

/-- **The orders of a market** stand in the order of their prices. -/
theorem pairwise_limitsBetween (hvalid : m.LimitsValid) (hhighest : highest.Of base quote)
    (hlowest : lowest.Of base quote) : (m.limitsBetween highest lowest).Pairwise dearestFirst := by
  have hmem := m.mem_limitsBetween highest lowest hhighest hlowest
  refine pairwise_insertionSort_of_key bookKey fun a ha b hb ↦ ?_
  obtain ⟨hlookupa, hofa⟩ := hmem a ((List.mem_insertionSort _).2 ha)
  obtain ⟨hlookupb, hofb⟩ := hmem b ((List.mem_insertionSort _).2 hb)
  exact dearestFirst_iff ⟨hofa.1.trans hofb.1.symm, hofa.2.trans hofb.2.symm⟩
    (hvalid _ _ hlookupa) (hvalid _ _ hlookupb)

end Market

/-! ## The book after a new order -/

/-- The resting orders that are to be matched with a new one. -/
def Market.restingFor (m : Market) (order : LimitOrder) : List ((_ : ℕ) × LimitOrder) :=
  m.limitsBetween ⟨⟨maxShareSupply, order.sellPrice.quote.assetId⟩,
    ⟨1, order.sellPrice.base.assetId⟩⟩ order.sellPrice.inverse

namespace Market

variable {m m' : Market} {new : ℕ} {order : LimitOrder} {filled : List ℕ} {enable gone : Bool}

theorem lookup_addOrder (m : Market) (new : ℕ) (order : LimitOrder) :
    (m.addOrder new order).limitOrders.lookup new = some order := AList.lookup_insert _

theorem lookup_addOrder_ne {j : ℕ} (hj : j ≠ new) :
    (m.addOrder new order).limitOrders.lookup j = m.limitOrders.lookup j :=
  AList.lookup_insert_ne hj

/-- The orders that a new one is matched with are resting, and cross it. -/
theorem mem_restingFor (hprice : order.WellPriced) {e : (_ : ℕ) × LimitOrder}
    (he : e ∈ (m.addOrder new order).restingFor order) :
    e.1 ≠ new ∧ m.limitOrders.lookup e.1 = some e.2 ∧ order.Crosses e.2 := by
  obtain ⟨hlookup, hof⟩ := (m.addOrder new order).mem_limitsBetween
    ⟨⟨maxShareSupply, order.sellPrice.quote.assetId⟩, ⟨1, order.sellPrice.base.assetId⟩⟩
    order.sellPrice.inverse ⟨rfl, rfl⟩ ⟨rfl, rfl⟩ e he
  have hne : e.1 ≠ new := by
    intro heq
    rw [heq, lookup_addOrder] at hlookup
    obtain rfl := Option.some.inj hlookup
    exact hprice.valid.2.2 hof.1
  rw [lookup_addOrder_ne hne] at hlookup
  rw [restingFor, limitsBetween, List.mem_insertionSort, List.mem_filter, Bool.and_eq_true] at he
  exact ⟨hne, hlookup, hof, he.2.2⟩

/-- All that cross a new order are matched with it. -/
theorem mem_restingFor_of_crosses {j : ℕ} {b : LimitOrder}
    (hb : m.limitOrders.lookup j = some b) (hbprice : b.WellPriced) (hcross : order.Crosses b)
    (hj : j ≠ new) : ⟨j, b⟩ ∈ (m.addOrder new order).restingFor order := by
  have hmaximum := hbprice.lessEq_maximum
  rw [hcross.1.1, hcross.1.2] at hmaximum
  exact mem_limitsBetween_of ((lookup_addOrder_ne hj).trans hb) hmaximum hcross.2

/-- **What `apply_order` does** where there are no margin positions. -/
theorem applyOrder_spec (hbook : m.Orderly) (hno : m.NoCalls) (hprice : order.WellPriced)
    (hpos : 0 < order.forSale)
    (h : (m.addOrder new order).applyOrder new enable = some (m', filled, gone)) :
    ∃ m₁, Matching new (((m.addOrder new order).restingFor order).map Sigma.fst) filled
        (m.addOrder new order) m₁ ∧ Touches new m₁ m' ∧
      (m'.limitOrders.lookup new = none ∨ m' = m₁ ∧ ∃ u receive,
        m₁.limitOrders.lookup new = some u ∧ u.amountToReceive = some receive ∧
          0 < receive.amount) := by
  have hno₀ : (m.addOrder new order).NoCalls := hno
  have hmax := Price.maximum_of_ne hprice.valid.2.2.symm
  simp only [applyOrder, Option.bind_eq_bind, Option.bind_eq_some_iff, lookup_addOrder,
    Option.some.injEq, exists_eq_left'] at h
  obtain ⟨receive, -, -, -, -, -, ⟨m₁, calledSell⟩, hm₁, ⟨m₂, calledReceive⟩, hm₂, h⟩ := h
  obtain rfl := checkCallOrders_of_noCalls hno₀ hm₁
  obtain rfl := checkCallOrders_of_noCalls hno₀ hm₂
  rw [if_neg (by rw [lookup_addOrder]; simp)] at h
  simp only [Option.bind_eq_some_iff] at h
  obtain ⟨highest, hhighest, ⟨m₃, matched⟩, hmatch, ⟨m₄, _⟩, hm₄, ⟨m₅, _⟩, hm₅, h⟩ := h
  obtain rfl := Option.some.inj (hmax.symm.trans hhighest)
  have hmatching : Matching new (((m.addOrder new order).restingFor order).map Sigma.fst) matched
      (m.addOrder new order) m₃ := by
    refine matchAgainst_spec (nodup_limitsBetween _ _ _) ?_ (lookup_addOrder m new order) hpos
      (fun j hj ↦ ?_) hmatch
    · intro hmem
      obtain ⟨e, he, heq⟩ := List.mem_map.1 hmem
      exact (mem_restingFor hprice he).1 heq
    · obtain ⟨e, he, rfl⟩ := List.mem_map.1 hj
      obtain ⟨hne, hlookup, -⟩ := mem_restingFor hprice he
      exact ⟨e.2, (lookup_addOrder_ne hne).trans hlookup,
        (hbook.wellPriced _ _ hlookup).valid, hbook.notDust _ _ hlookup⟩
  have hno₃ : m₃.NoCalls := fun id ↦ by rw [hmatching.calls]; exact hno₀ id
  obtain rfl := checkCallOrders_of_noCalls hno₃ hm₄
  obtain rfl := checkCallOrders_of_noCalls hno₃ hm₅
  split_ifs at h with hgone
  · obtain ⟨rfl, hrest⟩ := Prod.mk.inj (Option.some.inj h)
    obtain ⟨rfl, -⟩ := Prod.mk.inj hrest
    exact ⟨_, hmatching, .refl _ _, .inl (Option.isNone_iff_eq_none.1 hgone)⟩
  · obtain ⟨⟨m₆, culled⟩, hcull, h⟩ := Option.bind_eq_some_iff.1 h
    obtain ⟨rfl, hrest⟩ := Prod.mk.inj (Option.some.inj h)
    obtain ⟨rfl, -⟩ := Prod.mk.inj hrest
    obtain ⟨htouches, ⟨-, hnone, -⟩ | ⟨-, heq, hleft⟩⟩ := lookup_maybeCullSmallOrder hcull
    · exact ⟨_, hmatching, htouches, .inl hnone⟩
    · exact ⟨_, hmatching, htouches, .inr ⟨heq, hleft⟩⟩

/-- What is left of a resting order: no dust, at the price it had. -/
theorem resting_left (hbook : m.Orderly) {ids : List ℕ} {m₁ : Market}
    (hmatching : Matching new ids filled (m.addOrder new order) m₁) {id : ℕ} (hid : id ≠ new)
    {a : LimitOrder} (ha : m₁.limitOrders.lookup id = some a) :
    a.NotDust ∧ ∃ a₀, m.limitOrders.lookup id = some a₀ ∧ a.sellPrice = a₀.sellPrice := by
  by_cases hmem : id ∈ filled
  · obtain ⟨hdust, a₀, ha₀, hprice⟩ := hmatching.left id hmem a ha
    rw [lookup_addOrder_ne hid] at ha₀
    exact ⟨hdust, a₀, ha₀, hprice⟩
  · rw [hmatching.others id hid hmem, lookup_addOrder_ne hid] at ha
    exact ⟨hbook.notDust id a ha, a, ha, rfl⟩

/-- Where each order is at a price that it had, and those that crossed the new one are gone if it is
there, the book is not crossed. -/
theorem not_crosses (hbook : m.Orderly) (hprice : order.WellPriced)
    (hresting : ∀ id ≠ new, ∀ a ∈ m'.limitOrders.lookup id,
      ∃ a₀, m.limitOrders.lookup id = some a₀ ∧ a.sellPrice = a₀.sellPrice)
    (hnew : ∀ u ∈ m'.limitOrders.lookup new, u.sellPrice = order.sellPrice ∧
      ∀ j ∈ ((m.addOrder new order).restingFor order).map Sigma.fst,
        m'.limitOrders.lookup j = none) {i j : ℕ} {a b : LimitOrder}
    (ha : m'.limitOrders.lookup i = some a) (hb : m'.limitOrders.lookup j = some b) :
    ¬a.Crosses b := by
  have hrest : ∀ {u b : LimitOrder} {j : ℕ}, m'.limitOrders.lookup new = some u → j ≠ new →
      m'.limitOrders.lookup j = some b → ¬u.Crosses b := by
    intro u b j hu hj hb hcross
    obtain ⟨b₀, hb₀, hbprice⟩ := hresting j hj b hb
    obtain ⟨huprice, hgone⟩ := hnew u hu
    rw [LimitOrder.Crosses, huprice, hbprice] at hcross
    have hmem := mem_restingFor_of_crosses hb₀ (hbook.wellPriced j b₀ hb₀) hcross hj
    cases (hgone j (List.mem_map_of_mem (f := Sigma.fst) hmem)).symm.trans hb
  intro hcross
  by_cases hi : i = new
  · subst hi
    by_cases hj : j = i
    · subst hj
      obtain rfl := Option.some.inj (ha.symm.trans hb)
      obtain ⟨huprice, -⟩ := hnew a ha
      rw [LimitOrder.Crosses, huprice] at hcross
      exact hprice.valid.2.2 hcross.1.1
    · exact hrest ha hj hb hcross
  · by_cases hj : j = new
    · subst hj
      exact hrest hb hi ha hcross.symm
    · obtain ⟨a₀, ha₀, haprice⟩ := hresting i hi a ha
      obtain ⟨b₀, hb₀, hbprice⟩ := hresting j hj b hb
      rw [LimitOrder.Crosses, haprice, hbprice] at hcross
      exact hbook.uncrossed i a₀ ha₀ j b₀ hb₀ hcross

theorem limitsValid_addOrder (hbook : m.Orderly) (hprice : order.WellPriced) :
    (m.addOrder new order).LimitsValid := by
  intro id a ha
  by_cases hid : id = new
  · subst hid
    rw [lookup_addOrder] at ha
    obtain rfl := Option.some.inj ha
    exact hprice.valid
  · rw [lookup_addOrder_ne hid] at ha
    exact (hbook.wellPriced id a ha).valid

/-- The matched orders are a front of those that cross the new one, which stand in the order of
their prices. -/
theorem Matching.better {m₁ : Market} (hbook : m.Orderly)
    (hfresh : m.limitOrders.lookup new = none) (hprice : order.WellPriced)
    (hmatching : Matching new (((m.addOrder new order).restingFor order).map Sigma.fst) filled
      (m.addOrder new order) m₁) :
    ∀ j ∈ filled, ∃ b ∈ m.limitOrders.lookup j, ∀ i, ∀ a ∈ m.limitOrders.lookup i,
      a.sellPrice.Of b.sellPrice.base.assetId b.sellPrice.quote.assetId →
        b.sellPrice.less a.sellPrice = true → [i, j].Sublist filled := by
  intro j hj
  obtain ⟨front, hfront, rfl⟩ := List.prefix_map_iff.1 hmatching.front
  obtain ⟨e, he, rfl⟩ := List.mem_map.1 hj
  obtain ⟨-, hlookup, hcross⟩ := mem_restingFor hprice (hfront.subset he)
  refine ⟨e.2, hlookup, fun i a ha hof hless ↦ ?_⟩
  have hevalid := (hbook.wellPriced _ _ hlookup).valid
  have havalid := (hbook.wellPriced i a ha).valid
  have hlt : e.2.sellPrice.ratio < a.sellPrice.ratio :=
    (Price.less_iff_ratio ⟨hof.1.symm, hof.2.symm⟩ hevalid havalid).1 hless
  have hi : i ≠ new := by
    rintro rfl
    cases hfresh.symm.trans ha
  have hofa : a.sellPrice.Of order.sellPrice.quote.assetId order.sellPrice.base.assetId :=
    ⟨hof.1.trans hcross.1.1, hof.2.trans hcross.1.2⟩
  have hacross : order.Crosses a := by
    have hle := (Price.lessEq_iff_ratio ⟨hcross.1.1.symm, hcross.1.2.symm⟩ hprice.valid.inverse
      hevalid).1 hcross.2
    exact ⟨hofa, (Price.lessEq_iff_ratio ⟨hofa.1.symm, hofa.2.symm⟩ hprice.valid.inverse
      havalid).2 (hle.trans hlt.le)⟩
  have hmem := mem_restingFor_of_crosses ha (hbook.wellPriced i a ha) hacross hi
  have hsorted : ((m.addOrder new order).restingFor order).Pairwise dearestFirst :=
    pairwise_limitsBetween (limitsValid_addOrder hbook hprice) ⟨rfl, rfl⟩ ⟨rfl, rfl⟩
  have hsublist := sublist_pair_of_front hsorted hfront he hmem ?_ ?_
  · exact hsublist.map Sigma.fst
  · rintro rfl
    exact lt_irrefl _ hlt
  · rintro (hgreater | ⟨hnot, -⟩)
    · exact hlt.not_gt ((Price.less_iff_ratio hof havalid hevalid).1 hgreater)
    · exact hnot hless

/-- **The best price** is filled first. -/
theorem Matching.filledByPrice {m₁ : Market} (hbook : m.Orderly)
    (hfresh : m.limitOrders.lookup new = none) (hprice : order.WellPriced)
    (hmatching : Matching new (((m.addOrder new order).restingFor order).map Sigma.fst) filled
      (m.addOrder new order) m₁)
    (hsame : ∀ j ≠ new, m'.limitOrders.lookup j = m₁.limitOrders.lookup j)
    (hused : m₁.limitOrders.lookup new = none → m'.limitOrders.lookup new = none) :
    m.FilledByPrice new filled m' := by
  have hinTurn : FilledInTurn new filled m m' :=
    hmatching.inTurn.congr (fun j hj ↦ lookup_addOrder_ne hj) hsame hused
  have hbetter := hmatching.better hbook hfresh hprice
  refine ⟨hinTurn, fun j hj hnot ↦ ?_, hmatching.front.sublist.nodup (nodup_limitsBetween _ _ _),
    hbetter, fun j hj b hb i a ha hof hless ↦ ?_⟩
  · exact (hsame j hj).trans ((hmatching.others j hj hnot).trans (lookup_addOrder_ne hj))
  · obtain ⟨b', hb', hall⟩ := hbetter j hj
    obtain rfl := Option.some.inj (hb.symm.trans hb')
    exact hinTurn.gone_of_sublist (hall i a ha hof hless)

/-- **The order book is never left crossed**: where there are no margin positions, a book that is
not crossed and holds no dust is so again after a new order, and the best prices were filled
first. -/
theorem order_book_uncrossed (hbook : m.Orderly) (hno : m.NoCalls)
    (hfresh : m.limitOrders.lookup new = none) (hprice : order.WellPriced)
    (hpos : 0 < order.forSale)
    (h : (m.addOrder new order).applyOrder new enable = some (m', filled, gone)) :
    m'.Orderly ∧ m.FilledByPrice new filled m' := by
  obtain ⟨m₁, hmatching, htouches, hnew⟩ := applyOrder_spec hbook hno hprice hpos h
  have hresting : ∀ id ≠ new, ∀ a ∈ m'.limitOrders.lookup id, a.NotDust ∧
      ∃ a₀, m.limitOrders.lookup id = some a₀ ∧ a.sellPrice = a₀.sellPrice := by
    intro id hid a ha
    rw [htouches.others id hid] at ha
    exact resting_left hbook hmatching hid ha
  have hleft : ∀ u ∈ m'.limitOrders.lookup new, u.NotDust ∧ u.sellPrice = order.sellPrice ∧
      ∀ j ∈ ((m.addOrder new order).restingFor order).map Sigma.fst,
        m'.limitOrders.lookup j = none := by
    intro u hu
    rcases hnew with hnone | ⟨rfl, u', receive, hu', hreceive, hrpos⟩
    · cases hnone.symm.trans hu
    obtain rfl := Option.some.inj (hu'.symm.trans hu)
    rcases hmatching.done with hnone | ⟨hgone, u₀, hu₀, u₁, hu₁, hupos, huprice⟩
    · cases hnone.symm.trans hu
    obtain rfl := Option.some.inj (hu'.symm.trans hu₁)
    obtain rfl := Option.some.inj ((lookup_addOrder m new order).symm.trans hu₀)
    exact ⟨⟨hupos, receive, hreceive, hrpos⟩, huprice, hgone⟩
  refine ⟨⟨fun id a ha ↦ ?_, fun id a ha ↦ ?_, fun i a ha j b hb ↦ ?_⟩,
    hmatching.filledByPrice hbook hfresh hprice htouches.others fun hgone ↦ ?_⟩
  · by_cases hid : id = new
    · subst hid
      obtain ⟨-, haprice, -⟩ := hleft a ha
      exact ⟨haprice ▸ hprice.valid, haprice ▸ hprice.le_supply⟩
    · obtain ⟨-, a₀, ha₀, haprice⟩ := hresting id hid a ha
      obtain ⟨hvalid, hsupply⟩ := hbook.wellPriced id a₀ ha₀
      exact ⟨haprice ▸ hvalid, haprice ▸ hsupply⟩
  · by_cases hid : id = new
    · subst hid
      exact (hleft a ha).1
    · exact (hresting id hid a ha).1
  · exact not_crosses hbook hprice (fun id hid a ha ↦ (hresting id hid a ha).2)
      (fun u hu ↦ (hleft u hu).2) ha hb
  · rcases hnew with hnone | ⟨rfl, -⟩
    · exact hnone
    · exact hgone

end Market

/-! ## A book of two orders -/

/-- Ten of the first asset are for sale at half a core each. -/
def dearOrder : LimitOrder := ⟨9, 7, 10, ⟨⟨10, 1⟩, ⟨5, coreAsset⟩⟩, 0⟩

/-- Nine of the first asset are for sale at a third of a core each. -/
def cheapOrder : LimitOrder := ⟨9, 8, 9, ⟨⟨9, 1⟩, ⟨3, coreAsset⟩⟩, 0⟩

/-- Five core are for sale, for eight of the first asset. -/
def buyOrder : LimitOrder := ⟨9, 6, 5, ⟨⟨5, coreAsset⟩, ⟨8, 1⟩⟩, 0⟩

/-- Two orders that sell the first asset, and no margin positions. -/
def twoSellers : Market where
  ledger :=
    { headBlockTime := 0
      cashbackVestingThreshold := 0
      accounts := fun _ ↦ some ⟨none, ∅, ∅⟩
      statistics := fun _ ↦ ⟨0, 0⟩
      assets := fun _ ↦ some ⟨false, ∅, ∅, ⟨⟨1, 0⟩, ⟨1, 0⟩⟩⟩
      dynamicData := fun _ ↦ ⟨19, 0, 0⟩
      balances := fun _ _ ↦ none
      migrations := [] }
  totalCoreInOrders := 0
  limitOrders := (AList.singleton 0 dearOrder).insert 1 cheapOrder
  callOrders := ∅
  forceSettlements := ∅
  nextSettlementId := 0
  bitassets := fun _ ↦ none
  marketOptions := fun _ ↦ ⟨false, 0, 0, true⟩

theorem lookup_twoSellers {id : ℕ} {a : LimitOrder}
    (h : twoSellers.limitOrders.lookup id = some a) : a = dearOrder ∨ a = cheapOrder := by
  have hmem : (⟨id, a⟩ : (_ : ℕ) × LimitOrder) ∈
      ([⟨1, cheapOrder⟩, ⟨0, dearOrder⟩] : List ((_ : ℕ) × LimitOrder)) := List.of_mem_dlookup h
  rcases List.mem_pair.1 hmem with heq | heq
  · cases heq
    exact .inr rfl
  · cases heq
    exact .inl rfl

theorem twoSellers_orderly : twoSellers.Orderly where
  wellPriced := by
    intro id a ha
    rcases lookup_twoSellers ha with rfl | rfl
    · exact ⟨by decide, by decide⟩
    · exact ⟨by decide, by decide⟩
  notDust := by
    intro id a ha
    rcases lookup_twoSellers ha with rfl | rfl
    · exact ⟨by decide, ⟨5, coreAsset⟩, rfl, by decide⟩
    · exact ⟨by decide, ⟨3, coreAsset⟩, rfl, by decide⟩
  uncrossed := by
    intro i a ha j b hb hcross
    have hid := hcross.1.1
    rcases lookup_twoSellers ha with rfl | rfl <;> rcases lookup_twoSellers hb with rfl | rfl <;>
      exact absurd hid (by decide)

/-- The new order uses up the cheaper one, and then takes four of the dearer one. -/
theorem order_book_uncrossed_two :
    ∃ m', (twoSellers.addOrder 2 buyOrder).applyOrder 2 true = some (m', [1, 0], true) ∧
      m'.Orderly ∧ twoSellers.FilledByPrice 2 [1, 0] m' := by
  have hfilled : ((twoSellers.addOrder 2 buyOrder).applyOrder 2 true).map Prod.snd =
      some ([1, 0], true) := by decide +kernel
  obtain ⟨⟨m', filled, gone⟩, h, hrest⟩ := Option.map_eq_some_iff.1 hfilled
  obtain ⟨rfl, rfl⟩ := Prod.mk.inj hrest
  exact ⟨m', h, Market.order_book_uncrossed twoSellers_orderly (fun _ ↦ rfl) rfl
    ⟨by decide, by decide⟩ (by decide) h⟩

end Graphene
