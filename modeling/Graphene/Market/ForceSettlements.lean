import Graphene.Lib.Looping
import Graphene.Market.Matching
import Graphene.Market.PriceOrder
import Mathlib.Algebra.Order.BigOperators.Group.List
import Mathlib.Data.List.MinMax

/-!
# Force settlements that are due

Requests to settle are kept by asset and date.  One that is due is matched with the least
collateralized positions of its asset, as long as no more is settled than may be between two
maintenances; one that cannot be settled is taken back.

* `SettlementOptions`, `Settlements` — what the loop reads and writes.
* `Clearing`, `Clearing.next` — where the loop is, and an iteration of it or of the loop in it.
* `Settlements.clear` — the part of `clear_expired_orders` about settlements.
* `Settlements.Step`, `Settlements.Trace` — a request is settled in part, or taken back.
* `next_spec` — what one iteration does, and what it makes smaller.
* `force_settlement_bounded` — the loop ends, and settles no more, and no earlier, than it may.
-/

set_option autoImplicit false

namespace Graphene

/-! ## The database -/

/-- What settling reads of the `bitasset_options`. -/
structure SettlementOptions where
  /-- `maximum_force_settlement_volume`, in hundredths of a percent. -/
  maximumForceSettlementVolume : AssetId → ℕ
  /-- `force_settlement_offset_percent`, in hundredths of a percent. -/
  forceSettlementOffsetPercent : AssetId → ℕ

/-- `max_force_settlement_volume`. -/
def SettlementOptions.maxForceSettlementVolume (o : SettlementOptions) (mia : AssetId)
    (currentSupply forceSettledVolume : ℤ) : ℤ :=
  if o.maximumForceSettlementVolume mia = 0 then 0
  else if o.maximumForceSettlementVolume mia = hundredPercent then
    currentSupply + forceSettledVolume
  else (currentSupply + forceSettledVolume) * o.maximumForceSettlementVolume mia / hundredPercent

/-- What settling reads and writes. -/
structure Settlements where
  /-- The markets. -/
  market : Market
  /-- `force_settled_volume`: what has been settled of an asset since the last maintenance. -/
  forceSettledVolume : AssetId → ℤ

namespace Market

variable (m : Market)

/-- `cancel_order` of a force settlement. -/
def cancelSettlement (id : ℕ) : Option Market := do
  let order ← m.forceSettlements.lookup id
  let m ← m.adjustBalance order.owner order.balance
  return { m with forceSettlements := m.forceSettlements.erase id }

/-- What settlements are sorted by: the asset, the date and the id. -/
def settlementKey (e : (_ : ℕ) × ForceSettlement) : AssetId ×ₗ ℕ ×ₗ ℕ :=
  toLex (e.2.balance.assetId, toLex (e.2.settlementDate, e.1))

/-- `settlement_index.lower_bound(asset)`. -/
def settlementFrom (id : AssetId) : Option ((_ : ℕ) × ForceSettlement) :=
  (m.forceSettlements.entries.filter fun e ↦ id ≤ e.2.balance.assetId).argmin settlementKey

/-- `settlement_index.upper_bound(asset)`. -/
def settlementAfter (id : AssetId) : Option ((_ : ℕ) × ForceSettlement) :=
  (m.forceSettlements.entries.filter fun e ↦ id < e.2.balance.assetId).argmin settlementKey

/-- What call orders are sorted by: the collateralization, as prices are sorted, and the id. -/
def collateralKey (e : (_ : ℕ) × CallOrder) : (ℕ ×ₗ ℕ ×ₗ ℚ) ×ₗ ℕ :=
  toLex ((⟨e.2.getCollateral, e.2.getDebt⟩ : Price).orderKey, e.1)

/-- `call_index.lower_bound(price::min(backing, mia))`, which may be a position of another asset or
none at all. -/
def leastCollateralized (backing mia : AssetId) : Option (Option ((_ : ℕ) × CallOrder)) := do
  let lowest ← Price.minimum backing mia
  return (m.callOrders.entries.filter fun e ↦
    lowest.orderKey ≤ (⟨e.2.getCollateral, e.2.getDebt⟩ : Price).orderKey).argmin collateralKey

/-- Whether `match` of a call order and a settlement throws a `black_swan_exception`; it may throw
something else before. -/
def matchIsBlackSwan (call settle : ℕ) (matchPrice : Price) (maxSettlement : Asset) :
    Option Bool := do
  let order ← m.callOrders.lookup call
  let settlement ← m.forceSettlements.lookup settle
  guard (order.getDebt.assetId = settlement.balance.assetId)
  guard (order.debt > 0 ∧ order.collateral > 0 ∧ settlement.balance.amount > 0)
  let settleForSale ← settlement.balance.minimum maxSettlement
  let callReceives ← settleForSale.minimum order.getDebt
  let callPays ← callReceives.mulPrice matchPrice
  return !(← callPays.less order.getCollateral)

end Market

/-! ## The loop -/

/-- What keeps the loop from going on. -/
inductive SettlementFault where
  /-- An exception that is not caught. -/
  | thrown
  /-- There is no call order, and the end of the index is dereferenced. -/
  | noCallOrder

/-- A request that is being matched. -/
structure Round where
  /-- `order_id`. -/
  order : ℕ
  /-- `settlement_price`. -/
  settlementPrice : Price
  /-- `settled`. -/
  settled : ℤ

/-- Where the loop is. -/
structure Clearing where
  /-- The markets. -/
  market : Market
  /-- `force_settled_volume`. -/
  forceSettledVolume : AssetId → ℤ
  /-- `current_asset`. -/
  currentAsset : AssetId
  /-- `max_settlement_volume`. -/
  maxSettlementVolume : Asset
  /-- The loop in the loop, if it is entered. -/
  round : Option Round

namespace Clearing

variable (o : SettlementOptions) (s : Clearing)

/-- `next_asset`, and what comes after it: the loop goes on with the next asset, or is over. -/
def nextAsset : Option Clearing :=
  (s.market.settlementAfter s.currentAsset).map fun e ↦
    { s with currentAsset := e.2.balance.assetId }

/-- A request is taken back. -/
def cancel (id : ℕ) : Except SettlementFault (Option Clearing) :=
  match s.market.cancelSettlement id with
  | none => .error .thrown
  | some m => .ok (some { s with market := m })

/-- `max_settlement_volume` is worked out once for an asset. -/
def refreshVolume : Clearing :=
  if s.maxSettlementVolume.assetId ≠ s.currentAsset then
    { s with maxSettlementVolume :=
      ⟨o.maxForceSettlementVolume s.currentAsset (s.market.currentSupply s.currentAsset)
        (s.forceSettledVolume s.currentAsset), s.currentAsset⟩ }
  else s

/-- A request is matched from now on, unless enough has been settled. -/
def enterRound (id : ℕ) (order : ForceSettlement) (feedPrice : Price) :
    Except SettlementFault (Option Clearing) :=
  if s.forceSettledVolume s.currentAsset ≥ s.maxSettlementVolume.amount then .ok s.nextAsset
  else
    match order.balance.mulPrice feedPrice with
    | none => .error .thrown
    | some worth =>
      let receives : Asset := ⟨worth.amount *
        (hundredPercent - o.forceSettlementOffsetPercent s.currentAsset) / hundredPercent,
          worth.assetId⟩
      match order.balance.dividedBy receives with
      | none => .error .thrown
      | some settlementPrice =>
        .ok (some { s with
          round := some ⟨id, settlementPrice, s.forceSettledVolume s.currentAsset⟩ })

/-- An iteration of the loop, up to the loop in it. -/
def pick : Except SettlementFault (Option Clearing) :=
  match s.market.settlementFrom s.currentAsset with
  | none => .ok none
  | some e =>
    let s := { s with currentAsset := e.2.balance.assetId }
    match s.market.bitassets s.currentAsset with
    | none => .error .thrown
    | some mia =>
      if mia.hasSettlement then s.cancel e.1
      else if e.2.settlementDate > s.market.ledger.headBlockTime then .ok s.nextAsset
      else if mia.currentFeed.settlementPrice.isNull then s.cancel e.1
      else (s.refreshVolume o).enterRound o e.1 e.2 mia.currentFeed.settlementPrice

/-- The loop in the loop is left. -/
def leaveRound (r : Round) : Clearing :=
  { s with
    forceSettledVolume :=
      if s.forceSettledVolume s.currentAsset ≠ r.settled then
        Function.update s.forceSettledVolume s.currentAsset r.settled
      else s.forceSettledVolume
    round := none }

/-- A request is matched with a call order. -/
def matchWith (r : Round) (call : ℕ) : Except SettlementFault (Option Clearing) :=
  let maxSettlement : Asset := ⟨s.maxSettlementVolume.amount - r.settled, s.currentAsset⟩
  match s.market.matchIsBlackSwan call r.order r.settlementPrice maxSettlement with
  | none => .error .thrown
  | some true => (s.leaveRound r).cancel r.order
  | some false =>
    match s.market.matchForceSettlement call r.order r.settlementPrice maxSettlement with
    | none => .error .thrown
    | some (m, settled) =>
      .ok (some { s with
        market := m, round := some { r with settled := r.settled + settled.amount } })

/-- An iteration of the loop in the loop. -/
def settle (r : Round) : Except SettlementFault (Option Clearing) :=
  match s.market.forceSettlements.lookup r.order with
  | none => .ok (some (s.leaveRound r))
  | some order =>
    if r.settled < s.maxSettlementVolume.amount then
      match s.market.bitassets s.currentAsset with
      | none => .error .thrown
      | some mia =>
        match s.market.leastCollateralized mia.shortBackingAsset s.currentAsset with
        | none => .error .thrown
        | some itr =>
          if order.balance.amount = 0 then (s.leaveRound r).cancel r.order
          else
            match itr with
            | none => .error .noCallOrder
            | some call => s.matchWith r call.1
    else .ok (some (s.leaveRound r))

/-- An iteration. -/
def next : Except SettlementFault (Option Clearing) :=
  match s.round with
  | none => s.pick o
  | some r => s.settle r

/-- What has been settled and what is left, also while a request is being matched. -/
def data : Settlements :=
  ⟨s.market, s.round.elim s.forceSettledVolume fun r ↦
    Function.update s.forceSettledVolume s.currentAsset r.settled⟩

end Clearing

/-- The part of `clear_expired_orders` about settlements, in so many iterations at most. -/
def Settlements.clear (o : SettlementOptions) (fuel : ℕ) (d : Settlements) :
    Option (Except SettlementFault Settlements) :=
  match d.market.settlementFrom 0 with
  | none => some (.ok d)
  | some e =>
    (Looping.run (Clearing.next o) fuel
      ⟨d.market, d.forceSettledVolume, e.2.balance.assetId, ⟨0, coreAsset⟩, none⟩).map fun r ↦
        r.map Clearing.data

/-! ## What the database promises -/

namespace Market

variable (m : Market)

/-- What the requests to settle an asset come to. -/
def requested (mia : AssetId) : ℤ :=
  m.forceSettlements.sumOf fun s ↦ if s.balance.assetId = mia then s.balance.amount else 0

/-- What is owed of an asset. -/
def owed (mia : AssetId) : ℤ :=
  m.callOrders.sumOf fun c ↦ if c.callPrice.quote.assetId = mia then c.debt else 0

/-- A market-issued asset, and what it is backed by. -/
structure Backs (mia : AssetId) (b : BitassetData) : Prop where
  /-- The core asset is not market-issued. -/
  ne_core : mia ≠ coreAsset
  /-- No asset backs itself. -/
  ne_backing : mia ≠ b.shortBackingAsset
  /-- The asset is there. -/
  asset : (m.ledger.assets mia).isSome
  /-- So is what backs it. -/
  backing : (m.ledger.assets b.shortBackingAsset).isSome
  /-- The options of what backs it are valid. -/
  options : (m.marketOptions b.shortBackingAsset).Valid
  /-- The feed has a price of it in what backs it, if it has one. -/
  feed : b.currentFeed.settlementPrice.isNull = false →
    b.currentFeed.settlementPrice.Valid ∧
      b.currentFeed.settlementPrice.Of mia b.shortBackingAsset

/-- A call order with debt and collateral, and someone who owes it. -/
structure Owes (c : CallOrder) : Prop where
  /-- There is debt, and no more than there can be of an asset. -/
  debt : 0 < c.debt ∧ c.debt ≤ maxShareSupply
  /-- There is collateral. -/
  collateral : 0 < c.collateral
  /-- The borrower is there. -/
  borrower : (m.ledger.accounts c.borrower).isSome
  /-- The collateral is in what backs the asset. -/
  backed : ∀ b ∈ m.bitassets c.callPrice.quote.assetId,
    c.callPrice.base.assetId = b.shortBackingAsset

end Market

/-- **What the database promises** about settlements: above all, that "there should always be a call
order, since asset exists". -/
structure Settlements.Sound (o : SettlementOptions) (d : Settlements) : Prop where
  /-- The options are parts of the whole. -/
  options : ∀ mia, o.forceSettlementOffsetPercent mia ≤ hundredPercent
  /-- The market-issued assets are backed. -/
  backs : ∀ mia, ∀ b ∈ d.market.bitassets mia, d.market.Backs mia b
  /-- What is requested is an amount of a market-issued asset. -/
  requests : ∀ id, ∀ s ∈ d.market.forceSettlements.lookup id,
    0 ≤ s.balance.amount ∧ (d.market.bitassets s.balance.assetId).isSome
  /-- The call orders owe. -/
  owes : ∀ id, ∀ c ∈ d.market.callOrders.lookup id, d.market.Owes c
  /-- What is requested of an asset is owed, unless the asset has been settled. -/
  covered : ∀ mia, ∀ b ∈ d.market.bitassets mia, b.hasSettlement = false →
    d.market.requested mia ≤ d.market.owed mia

/-! ## What is done with a request -/

/-- What is done with a request. -/
inductive SettlementEvent where
  /-- So much of it is settled. -/
  | settled (id : ℕ) (amount : ℤ)
  /-- It is taken back with so much in it. -/
  | cancelled (id : ℕ) (amount : ℤ)

namespace Settlements

/-- Why a request is taken back. -/
inductive CancelReason (d : Settlements) (id : ℕ) (s : ForceSettlement) : Prop where
  /-- The asset has been settled as a whole. -/
  | globallySettled {b : BitassetData} (bitasset : d.market.bitassets s.balance.assetId = some b)
      (hasSettlement : b.hasSettlement = true)
  /-- It is due, and there is no feed. -/
  | noFeed {b : BitassetData} (bitasset : d.market.bitassets s.balance.assetId = some b)
      (due : s.settlementDate ≤ d.market.ledger.headBlockTime)
      (isNull : b.currentFeed.settlementPrice.isNull = true)
  /-- It is due, and there is nothing in it. -/
  | empty (due : s.settlementDate ≤ d.market.ledger.headBlockTime) (zero : s.balance.amount = 0)
  /-- It is due, and to match it is a black swan. -/
  | blackSwan {call : ℕ} {price : Price} {maxSettlement : Asset}
      (due : s.settlementDate ≤ d.market.ledger.headBlockTime)
      (swan : d.market.matchIsBlackSwan call id price maxSettlement = some true)

/-- **A request is settled in part, or taken back.** -/
inductive Step (o : SettlementOptions) : Settlements → SettlementEvent → Settlements → Prop where
  /-- A request whose date has come is matched with a call order, and no more is settled of the
  asset than may be settled of what there is of it at that step, before as after. -/
  | settle {d : Settlements} {m' : Market} {call id : ℕ} {order : CallOrder} {s : ForceSettlement}
      {price : Price} {maxSettlement : Asset} {e : CallExchange}
      (position : d.market.callOrders.lookup call = some order)
      (asset : order.callPrice.quote.assetId = s.balance.assetId)
      (request : d.market.forceSettlements.lookup id = some s)
      (due : s.settlementDate ≤ d.market.ledger.headBlockTime)
      (progress : 0 < e.settlePays)
      (matched : d.market.CallMatched m' call id order s price maxSettlement e)
      (bounded : d.forceSettledVolume s.balance.assetId + e.settlePays ≤
        o.maxForceSettlementVolume s.balance.assetId (d.market.currentSupply s.balance.assetId)
          (d.forceSettledVolume s.balance.assetId))
      (bounded' : d.forceSettledVolume s.balance.assetId + e.settlePays ≤
        o.maxForceSettlementVolume s.balance.assetId (m'.currentSupply s.balance.assetId)
          (d.forceSettledVolume s.balance.assetId + e.settlePays)) :
      Step o d (.settled id e.settlePays)
        ⟨m', Function.update d.forceSettledVolume s.balance.assetId
          (d.forceSettledVolume s.balance.assetId + e.settlePays)⟩
  /-- A request is gone, for a reason, and its owner has what was in it. -/
  | cancel {d : Settlements} {m₁ : Market} {id : ℕ} {s : ForceSettlement}
      (request : d.market.forceSettlements.lookup id = some s)
      (reason : d.CancelReason id s)
      (returned : Market.Moves (.paid s.owner s.balance) d.market m₁)
      (same : Market.SameOrders d.market m₁) :
      Step o d (.cancelled id s.balance.amount)
        ⟨{ m₁ with forceSettlements := d.market.forceSettlements.erase id }, d.forceSettledVolume⟩

/-- One step after the other. -/
inductive Trace (o : SettlementOptions) :
    Settlements → List SettlementEvent → Settlements → Prop where
  /-- Nothing is done. -/
  | nil (d : Settlements) : Trace o d [] d
  /-- A step is done, and then the others. -/
  | cons {d d₁ d' : Settlements} {e : SettlementEvent} {es : List SettlementEvent}
      (first : Step o d e d₁) (rest : Trace o d₁ es d') : Trace o d (e :: es) d'

theorem Trace.append {o : SettlementOptions} {d d₁ d' : Settlements}
    {es es' : List SettlementEvent} (h : Trace o d es d₁) (h' : Trace o d₁ es' d') :
    Trace o d (es ++ es') d' := by
  induction h with
  | nil => exact h'
  | cons first _ ih => exact .cons first (ih h')

theorem Step.trace {o : SettlementOptions} {d d' : Settlements} {e : SettlementEvent}
    (h : Step o d e d') : Trace o d [e] d' := .cons h (.nil d')

end Settlements

/-! ## Tables whose objects change -/

section Tables

open Market

variable {m m' : Market} {o : SettlementOptions} {d : Settlements} {id : ℕ} {s : ForceSettlement}

/-- What a request contributes to a quantity that none makes less is at most what all do. -/
theorem le_sumOf {f : ForceSettlement → ℤ} {t : Table ForceSettlement}
    (h : ∀ id, ∀ s ∈ t.lookup id, 0 ≤ f s) (hs : t.lookup id = some s) : f s ≤ t.sumOf f := by
  have hnonneg : 0 ≤ (t.erase id).sumOf f := by
    refine List.sum_nonneg fun x hx ↦ ?_
    obtain ⟨e, he, rfl⟩ := List.mem_map.1 hx
    have hmem : e ∈ t.entries := (List.kerase_sublist id t.entries).subset he
    exact h e.1 e.2 (List.mem_dlookup t.nodupKeys hmem)
  rw [AList.sumOf_erase hs] at hnonneg
  exact Int.sub_nonneg.1 hnonneg

theorem sumOf_nonneg {f : ForceSettlement → ℤ} {t : Table ForceSettlement}
    (h : ∀ id, ∀ s ∈ t.lookup id, 0 ≤ f s) : 0 ≤ t.sumOf f := by
  refine List.sum_nonneg fun x hx ↦ ?_
  obtain ⟨e, he, rfl⟩ := List.mem_map.1 hx
  exact h e.1 e.2 (List.mem_dlookup t.nodupKeys he)

theorem Settlements.Sound.requested_le (h : d.Sound o)
    (hs : d.market.forceSettlements.lookup id = some s) :
    s.balance.amount ≤ d.market.requested s.balance.assetId := by
  refine le_trans (if_pos rfl).ge (le_sumOf (f := fun s' ↦
    if s'.balance.assetId = s.balance.assetId then s'.balance.amount else 0) ?_ hs)
  intro j s' hs'
  split_ifs
  · exact (h.requests j s' hs').1
  · exact le_rfl

/-- Where something is owed, someone owes it. -/
theorem exists_call_of_owed {mia : AssetId} (h : 0 < m.owed mia) :
    ∃ id c, m.callOrders.lookup id = some c ∧ c.callPrice.quote.assetId = mia := by
  by_contra hnone
  refine h.ne' (List.sum_eq_zero fun x hx ↦ ?_)
  obtain ⟨e, he, rfl⟩ := List.mem_map.1 hx
  refine if_neg fun hmia ↦ hnone ⟨e.1, e.2, ?_, hmia⟩
  exact List.mem_dlookup m.callOrders.nodupKeys he

/-- What remains of a request. -/
theorem lookup_settlementsLeft {t : Table ForceSettlement} {pays : ℤ} {j : ℕ}
    {s' : ForceSettlement} (hs : t.lookup id = some s)
    (h : (settlementsLeft t id s pays).lookup j = some s') :
    ∃ s₀, t.lookup j = some s₀ ∧ s'.owner = s₀.owner ∧ s'.settlementDate = s₀.settlementDate ∧
      s'.balance.assetId = s₀.balance.assetId ∧
      s'.balance.amount = s₀.balance.amount - (if j = id then pays else 0) ∧
      (j = id → pays < s.balance.amount) := by
  rw [settlementsLeft] at h
  rcases eq_or_ne j id with rfl | hj
  · split_ifs at h with hlt
    · rw [AList.lookup_insert] at h
      obtain rfl := Option.some.inj h
      exact ⟨s, hs, rfl, rfl, rfl, by rw [if_pos rfl], fun _ ↦ hlt⟩
    · rw [AList.lookup_erase] at h
      cases h
  · have hsame : t.lookup j = some s' := by
      split_ifs at h
      · rwa [AList.lookup_insert_ne hj] at h
      · rwa [AList.lookup_erase_ne hj] at h
    exact ⟨s', hsame, rfl, rfl, rfl, by rw [if_neg hj, sub_zero], fun h ↦ absurd h hj⟩

theorem sumOf_settlementsLeft {t : Table ForceSettlement} {pays : ℤ}
    (hs : t.lookup id = some s) (hle : pays ≤ s.balance.amount) (mia : AssetId) :
    ((settlementsLeft t id s pays).sumOf fun s' ↦
        if s'.balance.assetId = mia then s'.balance.amount else 0) =
      (t.sumOf fun s' ↦ if s'.balance.assetId = mia then s'.balance.amount else 0) -
        if s.balance.assetId = mia then pays else 0 := by
  rw [settlementsLeft]
  split_ifs with hpart hmia hmia
  · rw [AList.sumOf_insert hs, if_pos hmia, if_pos hmia]
    dsimp only
    omega
  · rw [AList.sumOf_insert hs, if_neg hmia, if_neg hmia, sub_zero, add_zero]
  · rw [AList.sumOf_erase hs, if_pos hmia]
    omega
  · rw [AList.sumOf_erase hs, if_neg hmia]

theorem sumOf_callsLeft {t : Table CallOrder} {call : ℕ} {order : CallOrder} {pays : ℤ}
    (receives : ℤ) (hle : pays ≤ order.collateral) (horder : t.lookup call = some order)
    (mia : AssetId) :
    ((callsLeft t call order pays receives hle).sumOf fun c ↦
        if c.callPrice.quote.assetId = mia then c.debt else 0) =
      (t.sumOf fun c ↦ if c.callPrice.quote.assetId = mia then c.debt else 0) -
        if order.callPrice.quote.assetId = mia then receives else 0 := by
  have hpay : (order.pay pays receives hle).callPrice = order.callPrice := rfl
  have hdebt : (order.pay pays receives hle).debt = order.debt - receives := rfl
  rw [callsLeft]
  split_ifs with hall hmia hmia
  · rw [AList.sumOf_erase horder, if_pos hmia]
    omega
  · rw [AList.sumOf_erase horder, if_neg hmia]
  · rw [AList.sumOf_insert horder, hpay, hdebt, if_pos hmia, if_pos hmia]
    omega
  · rw [AList.sumOf_insert horder, hpay, if_neg hmia, if_neg hmia, sub_zero, add_zero]

/-- What there is to settle, with one more for each request. -/
def Market.toSettle (m : Market) : ℤ := m.forceSettlements.sumOf fun s ↦ s.balance.amount + 1

theorem Settlements.Sound.toSettle_nonneg (h : d.Sound o) : 0 ≤ d.market.toSettle :=
  sumOf_nonneg fun id s hs ↦ by
    have := (h.requests id s hs).1
    omega

end Tables

/-! ## What a step keeps -/

namespace Settlements

variable {o : SettlementOptions} {d d' : Settlements} {e : SettlementEvent}

theorem currentSupply_of_moves {m m' : Market} {account : AccountId} {amount : Asset}
    (h : Market.Moves (.paid account amount) m m') : m'.currentSupply = m.currentSupply := by
  have hmoney := congrArg (fun p ↦ p.2.2) h.money
  exact hmoney.trans (add_zero _)

theorem currentSupply_of_matched {m m' : Market} {call id : ℕ} {order : CallOrder}
    {s : ForceSettlement} {price : Price} {maxSettlement : Asset} {e : CallExchange}
    (h : m.CallMatched m' call id order s price maxSettlement e) (mia : AssetId) :
    m'.currentSupply mia =
      m.currentSupply mia - if s.balance.assetId = mia then e.settlePays else 0 := by
  have hmoney := congrFun (congrArg (fun p ↦ p.2.2) h.money) mia
  have hsupply : m'.currentSupply mia =
      m.currentSupply mia + Pi.single (M := fun _ ↦ ℤ) s.balance.assetId (-e.settlePays) mia + 0 +
        (0 + 0) := hmoney
  rw [hsupply, add_zero, add_zero, add_zero]
  split_ifs with hmia
  · subst hmia
    rw [Pi.single_eq_same, sub_eq_add_neg]
  · rw [Pi.single_eq_of_ne (Ne.symm hmia), add_zero, sub_zero]

/-- The market-issued assets stay what they are. -/
theorem Sound.congr (h : d.Sound o) (hworld : d.market.SameWorld d'.market)
    (hrequests : ∀ id, ∀ s ∈ d'.market.forceSettlements.lookup id, 0 ≤ s.balance.amount ∧
      ∃ s₀ ∈ d.market.forceSettlements.lookup id, s.balance.assetId = s₀.balance.assetId)
    (howes : ∀ id, ∀ c ∈ d'.market.callOrders.lookup id,
      (0 < c.debt ∧ c.debt ≤ maxShareSupply) ∧ 0 < c.collateral ∧
        ∃ c₀ ∈ d.market.callOrders.lookup id, c.borrower = c₀.borrower ∧
          c.callPrice = c₀.callPrice)
    (hcovered : ∀ mia, d'.market.requested mia - d'.market.owed mia ≤
      d.market.requested mia - d.market.owed mia) : d'.Sound o where
  options := h.options
  backs mia b hb := by
    rw [hworld.bitassets] at hb
    obtain ⟨hcore, hne, hasset, hbacking, hoptions, hfeed⟩ := h.backs mia b hb
    exact ⟨hcore, hne, hworld.assets ▸ hasset, hworld.assets ▸ hbacking, hworld.options ▸ hoptions,
      hfeed⟩
  requests id s hs := by
    obtain ⟨hnonneg, s₀, hs₀, hid⟩ := hrequests id s hs
    rw [hworld.bitassets, hid]
    exact ⟨hnonneg, (h.requests id s₀ hs₀).2⟩
  owes id c hc := by
    obtain ⟨hdebt, hcollateral, c₀, hc₀, hborrower, hprice⟩ := howes id c hc
    obtain ⟨-, -, hborrower₀, hbacked⟩ := h.owes id c₀ hc₀
    refine ⟨hdebt, hcollateral, ?_, ?_⟩
    · rw [hworld.accounts, hborrower]
      exact hborrower₀
    · rw [hworld.bitassets, hprice]
      exact hbacked
  covered mia b hb hsettled := by
    rw [hworld.bitassets] at hb
    have hbefore := h.covered mia b hb hsettled
    have hafter := hcovered mia
    omega

/-- A match keeps what the database promises. -/
theorem Sound.of_matched {m' : Market} {call id : ℕ} {order : CallOrder} {s : ForceSettlement}
    {price : Price} {maxSettlement : Asset} {e : CallExchange} (h : d.Sound o)
    (position : d.market.callOrders.lookup call = some order)
    (asset : order.callPrice.quote.assetId = s.balance.assetId)
    (request : d.market.forceSettlements.lookup id = some s)
    (matched : d.market.CallMatched m' call id order s price maxSettlement e)
    (volume : AssetId → ℤ) : (⟨m', volume⟩ : Settlements).Sound o := by
  obtain ⟨hle, hcalls⟩ := matched.call_left
  obtain ⟨hnonneg, hbalance, hdebt, -⟩ := matched.settle_pays
  refine h.congr matched.world (fun j s' hs' ↦ ?_) (fun j c hc ↦ ?_) (fun mia ↦ ?_)
  · rw [matched.settle_left] at hs'
    obtain ⟨s₀, hs₀, -, -, hid, hamount, hlt⟩ := lookup_settlementsLeft request hs'
    refine ⟨?_, s₀, hs₀, hid⟩
    rw [hamount]
    split_ifs with hj
    · obtain rfl := hj
      obtain rfl := Option.some.inj (request.symm.trans hs₀)
      exact Int.sub_nonneg_of_le hbalance
    · rw [sub_zero]
      exact (h.requests j s₀ hs₀).1
  · rw [hcalls] at hc
    obtain ⟨c₀, hc₀, hborrower, hprice, rfl | ⟨rfl, hne, hdebt', hcollateral⟩⟩ :=
      Market.lookup_callsLeft position hc
    · obtain ⟨hdebt₀, hcollateral₀, -, -⟩ := h.owes j _ hc₀
      exact ⟨hdebt₀, hcollateral₀, _, hc₀, rfl, rfl⟩
    · obtain ⟨hdebt₀, -, -, -⟩ := h.owes j _ hc₀
      have hpays := matched.call_pays.2
      exact ⟨by omega, by omega, _, hc₀, hborrower, hprice⟩
  · have hrequested := sumOf_settlementsLeft request hbalance mia
    have howed := sumOf_callsLeft e.settlePays hle position mia
    rw [← matched.settle_left] at hrequested
    rw [← hcalls, asset] at howed
    show m'.requested mia - m'.owed mia ≤ d.market.requested mia - d.market.owed mia
    rw [Market.requested, Market.owed, hrequested, howed, sub_sub_sub_cancel_right]
    exact le_rfl

/-- So does taking a request back. -/
theorem Sound.of_cancelled {m₁ : Market} {id : ℕ} {s : ForceSettlement} (h : d.Sound o)
    (request : d.market.forceSettlements.lookup id = some s)
    (returned : Market.Moves (.paid s.owner s.balance) d.market m₁)
    (same : Market.SameOrders d.market m₁) :
    (⟨{ m₁ with forceSettlements := d.market.forceSettlements.erase id },
      d.forceSettledVolume⟩ : Settlements).Sound o := by
  refine h.congr (returned.world.trans ⟨rfl, rfl, rfl, rfl, rfl⟩) (fun j s' hs' ↦ ?_)
    (fun j c hc ↦ ?_) (fun mia ↦ ?_)
  · obtain ⟨-, hs₀⟩ := AList.of_lookup_erase hs'
    exact ⟨(h.requests j s' hs₀).1, s', hs₀, rfl⟩
  · rw [same.calls] at hc
    obtain ⟨hdebt, hcollateral, -, -⟩ := h.owes j c hc
    exact ⟨hdebt, hcollateral, c, hc, rfl, rfl⟩
  · have hrequested := AList.sumOf_erase request fun s' ↦
      if s'.balance.assetId = mia then s'.balance.amount else 0
    show AList.sumOf (d.market.forceSettlements.erase id) _ - AList.sumOf m₁.callOrders _ ≤
      d.market.requested mia - d.market.owed mia
    rw [hrequested, same.calls]
    refine sub_le_sub_right (sub_le_self _ ?_) _
    split_ifs
    · exact (h.requests id s request).1
    · exact le_rfl

/-- **A step keeps** what the database promises, and there is less to settle. -/
theorem Step.sound (h : d.Sound o) (hstep : d.Step o e d') :
    d'.Sound o ∧ d'.market.toSettle < d.market.toSettle := by
  cases hstep with
  | @settle m' call id order s price maxSettlement e position asset request due progress matched =>
    refine ⟨h.of_matched position asset request matched _, ?_⟩
    show m'.toSettle < _
    rw [Market.toSettle, matched.settle_left, Market.settlementsLeft]
    split_ifs with hpart
    · rw [AList.sumOf_insert request]
      dsimp only [Market.toSettle]
      omega
    · have hbalance := (h.requests id s request).1
      rw [AList.sumOf_erase request]
      dsimp only [Market.toSettle]
      omega
  | @cancel m₁ id s request _ returned same =>
    refine ⟨h.of_cancelled request returned same, ?_⟩
    have hbalance := (h.requests id s request).1
    show AList.sumOf (d.market.forceSettlements.erase id) _ < d.market.toSettle
    rw [AList.sumOf_erase request]
    dsimp only [Market.toSettle]
    omega

end Settlements

/-! ## Nothing is lost -/

namespace SettlementEvent

/-- What is settled of a request. -/
def settledOf (id : ℕ) : SettlementEvent → ℤ
  | settled j amount => if j = id then amount else 0
  | cancelled _ _ => 0

/-- What the owner of a request gets back. -/
def returnedOf (id : ℕ) : SettlementEvent → ℤ
  | settled _ _ => 0
  | cancelled j amount => if j = id then amount else 0

end SettlementEvent

namespace Settlements

variable {o : SettlementOptions} {d d' : Settlements} {e : SettlementEvent}
  {es : List SettlementEvent}

/-- What there is in a request, if it is there. -/
def balanceOf (d : Settlements) (id : ℕ) : ℤ :=
  (d.market.forceSettlements.lookup id).elim 0 fun s ↦ s.balance.amount

/-- What is settled of a request, one event after the other. -/
def settledOf (id : ℕ) (es : List SettlementEvent) : ℤ :=
  (es.map (SettlementEvent.settledOf id)).sum

/-- What the owner of a request gets back, one event after the other. -/
def returnedOf (id : ℕ) (es : List SettlementEvent) : ℤ :=
  (es.map (SettlementEvent.returnedOf id)).sum

/-- A request that is there was there, with the same owner, date and asset. -/
def Descends (d d' : Settlements) : Prop :=
  ∀ id, ∀ s' ∈ d'.market.forceSettlements.lookup id, ∃ s ∈ d.market.forceSettlements.lookup id,
    s'.owner = s.owner ∧ s'.settlementDate = s.settlementDate ∧
      s'.balance.assetId = s.balance.assetId

theorem Descends.refl (d : Settlements) : Descends d d := fun _ s hs ↦ ⟨s, hs, rfl, rfl, rfl⟩

theorem Descends.trans {d₁ : Settlements} (h : Descends d d₁) (h' : Descends d₁ d') :
    Descends d d' := by
  intro id s' hs'
  obtain ⟨s₁, hs₁, howner', hdate', hasset'⟩ := h' id s' hs'
  obtain ⟨s, hs, howner, hdate, hasset⟩ := h id s₁ hs₁
  exact ⟨s, hs, howner'.trans howner, hdate'.trans hdate, hasset'.trans hasset⟩

theorem Step.accounts (h : d.Step o e d') :
    Descends d d' ∧
      ∀ id, d.balanceOf id = e.settledOf id + e.returnedOf id + d'.balanceOf id := by
  cases h with
  | @settle m' call id order s price maxSettlement e position asset request due progress matched =>
    have hle := matched.settle_pays.2.1
    constructor
    · intro j s' hs'
      have hs' : m'.forceSettlements.lookup j = some s' := hs'
      rw [matched.settle_left] at hs'
      obtain ⟨s₀, hs₀, howner, hdate, hasset, -⟩ := lookup_settlementsLeft request hs'
      exact ⟨s₀, hs₀, howner, hdate, hasset⟩
    · intro j
      show _ = _ + 0 + (m'.forceSettlements.lookup j).elim 0 fun s ↦ s.balance.amount
      rw [add_zero, SettlementEvent.settledOf, matched.settle_left, Market.settlementsLeft]
      rcases eq_or_ne id j with rfl | hj
      · rw [if_pos rfl, balanceOf, request]
        split_ifs with hpart
        · rw [AList.lookup_insert]
          exact (add_sub_cancel _ _).symm
        · rw [AList.lookup_erase]
          exact (le_antisymm hle (not_lt.1 hpart)).symm.trans (add_zero _).symm
      · rw [if_neg hj, zero_add, balanceOf]
        split_ifs
        · rw [AList.lookup_insert_ne hj.symm]
        · rw [AList.lookup_erase_ne hj.symm]
  | @cancel m₁ id s request _ returned same =>
    constructor
    · intro j s' hs'
      exact ⟨s', (AList.of_lookup_erase hs').2, rfl, rfl, rfl⟩
    · intro j
      show _ = 0 + _ + ((d.market.forceSettlements.erase id).lookup j).elim 0 fun s ↦
        s.balance.amount
      rw [zero_add, SettlementEvent.returnedOf]
      rcases eq_or_ne id j with rfl | hj
      · rw [if_pos rfl, balanceOf, request, AList.lookup_erase]
        exact (add_zero _).symm
      · rw [if_neg hj, zero_add, AList.lookup_erase_ne hj.symm]
        rfl

/-- **Nothing is lost**: what was in a request is settled, or is back with its owner, or is still
in it. -/
theorem Trace.accounts (h : d.Trace o es d') :
    Descends d d' ∧
      ∀ id, d.balanceOf id = settledOf id es + returnedOf id es + d'.balanceOf id := by
  induction h with
  | nil d => exact ⟨.refl d, fun id ↦ (zero_add (d.balanceOf id)).symm⟩
  | cons first _ ih =>
    obtain ⟨hdescends, hbalance⟩ := first.accounts
    refine ⟨hdescends.trans ih.1, fun id ↦ ?_⟩
    rw [hbalance id, ih.2 id, settledOf, returnedOf, settledOf, returnedOf, List.map_cons,
      List.map_cons, List.sum_cons, List.sum_cons]
    ring

end Settlements

/-! ## One iteration -/

/-- A due request cannot be settled because its worth at the price of the feed is too much for an
amount. -/
def Settlements.Unpriceable (d : Settlements) : Prop :=
  ∃ id, ∃ s ∈ d.market.forceSettlements.lookup id,
    s.settlementDate ≤ d.market.ledger.headBlockTime ∧
      ∃ b ∈ d.market.bitassets s.balance.assetId,
        s.balance.mulPrice b.currentFeed.settlementPrice = none

namespace Clearing

/-- A request that is being matched is due, and priced in what backs its asset. -/
structure InRound (s : Clearing) (r : Round) : Prop where
  /-- The most that may be settled is that of this asset. -/
  max_id : s.maxSettlementVolume.assetId = s.currentAsset
  /-- The asset has not been settled as a whole. -/
  asset : ∃ b ∈ s.market.bitassets s.currentAsset, b.hasSettlement = false ∧
    r.settlementPrice.Of s.currentAsset b.shortBackingAsset
  /-- No more has been settled than may be. -/
  settled_le : r.settled ≤ s.maxSettlementVolume.amount
  /-- The price is one of amounts. -/
  price : 0 ≤ r.settlementPrice.quote.amount ∧ r.settlementPrice.quote.amount ≤ maxShareSupply
  /-- The request is one of this asset, is due, and has no more in it than when it was priced. -/
  order : ∀ order ∈ s.market.forceSettlements.lookup r.order,
    order.balance.assetId = s.currentAsset ∧
      order.settlementDate ≤ s.market.ledger.headBlockTime ∧
      order.balance.amount ≤ r.settlementPrice.base.amount

/-- **What holds at every iteration.** -/
structure Inv (o : SettlementOptions) (s : Clearing) : Prop where
  /-- The database keeps its promises. -/
  sound : s.data.Sound o
  /-- The most that may be settled is what could be worked out now. -/
  cached : s.maxSettlementVolume.assetId = coreAsset ∨ s.maxSettlementVolume.amount =
    o.maxForceSettlementVolume s.maxSettlementVolume.assetId
      (s.market.currentSupply s.maxSettlementVolume.assetId)
      (s.data.forceSettledVolume s.maxSettlementVolume.assetId)
  /-- The request that is being matched. -/
  round : ∀ r ∈ s.round, s.InRound r

/-- The requests that are not behind the loop. -/
def ahead (s : Clearing) : ℕ :=
  s.market.forceSettlements.entries.countP fun e ↦ s.currentAsset ≤ e.2.balance.assetId

/-- Whether the loop in the loop goes on. -/
def Busy (s : Clearing) (r : Round) : Prop :=
  (s.market.forceSettlements.lookup r.order).isSome ∧ r.settled < s.maxSettlementVolume.amount

instance (s : Clearing) (r : Round) : Decidable (s.Busy r) := inferInstanceAs (Decidable (_ ∧ _))

/-- A round that is not over is about to settle something; one that is over is about to be left. -/
def mode (s : Clearing) : ℕ := s.round.elim 1 fun r ↦ if s.Busy r then 0 else 2

/-- What every iteration makes smaller: what there is to settle, then how many requests are not
behind, and then the mode. -/
def size (s : Clearing) : ℕ ×ₗ ℕ ×ₗ ℕ := toLex (s.market.toSettle.toNat, toLex (s.ahead, s.mode))

/-- What two points of the loop have done to the requests in between. -/
def Does (o : SettlementOptions) (s s' : Clearing) : Prop :=
  ∃ es, s.data.Trace o es s'.data

variable {o : SettlementOptions} {s s' : Clearing} {r : Round}

theorem Does.trans {t : Clearing} (h : Does o s s') (h' : Does o s' t) : Does o s t := by
  obtain ⟨es, hes⟩ := h
  obtain ⟨es', hes'⟩ := h'
  exact ⟨es ++ es', hes.append hes'⟩

theorem Does.of_data (h : s'.data = s.data) : Does o s s' := ⟨[], h ▸ .nil s'.data⟩

theorem size_lt_of_toSettle (hsound : s'.data.Sound o)
    (h : s'.market.toSettle < s.market.toSettle) : s'.size < s.size := by
  have hnonneg : 0 ≤ s'.market.toSettle := hsound.toSettle_nonneg
  exact Prod.Lex.toLex_lt_toLex.2 (.inl (by dsimp only; omega))

theorem size_lt_of_ahead (hmarket : s'.market = s.market) (h : s'.ahead < s.ahead) :
    s'.size < s.size :=
  Prod.Lex.toLex_lt_toLex.2 (.inr ⟨by rw [hmarket], Prod.Lex.toLex_lt_toLex.2 (.inl h)⟩)

theorem size_lt_of_mode (hmarket : s'.market = s.market) (hle : s'.ahead ≤ s.ahead)
    (h : s'.mode < s.mode) : s'.size < s.size := by
  rcases hle.lt_or_eq with hlt | heq
  · exact size_lt_of_ahead hmarket hlt
  · exact Prod.Lex.toLex_lt_toLex.2
      (.inr ⟨by rw [hmarket], Prod.Lex.toLex_lt_toLex.2 (.inr ⟨heq, h⟩)⟩)

/-- **The iteration that throws**: the request that comes next is due, and to be settled at the
price of the feed, for less has been settled of the asset than may be; but its worth at that price
is too much for an amount. -/
def Unpriced (o : SettlementOptions) (s : Clearing) : Prop :=
  s.round = none ∧ ∃ e ∈ s.market.settlementFrom s.currentAsset,
    e.2.settlementDate ≤ s.market.ledger.headBlockTime ∧
      ∃ b ∈ s.market.bitassets e.2.balance.assetId,
        b.hasSettlement = false ∧ b.currentFeed.settlementPrice.isNull = false ∧
        s.forceSettledVolume e.2.balance.assetId < o.maxForceSettlementVolume e.2.balance.assetId
          (s.market.currentSupply e.2.balance.assetId)
          (s.forceSettledVolume e.2.balance.assetId) ∧
        e.2.balance.mulPrice b.currentFeed.settlementPrice = none

/-- What an iteration leads to: the loop goes on from a smaller state, or an exception is thrown
that only `thrown` explains. -/
def Leads (o : SettlementOptions) (s : Clearing) (thrown : Prop) :
    Except SettlementFault (Option Clearing) → Prop
  | .ok none => s.round = none
  | .ok (some s') => s'.Inv o ∧ Does o s s' ∧ s'.size < s.size
  | .error .thrown => thrown
  | .error .noCallOrder => False

variable {thrown thrown' : Prop}

theorem Leads.mono {x : Except SettlementFault (Option Clearing)} (h : s.Leads o thrown x)
    (himp : thrown → thrown') : s.Leads o thrown' x := by
  match x with
  | .ok none => exact h
  | .ok (some _) => exact h
  | .error .thrown => exact himp h

/-! ### The index of what is to be settled -/

theorem mem_of_settlementFrom {m : Market} {id : AssetId} {e : (_ : ℕ) × ForceSettlement}
    (h : m.settlementFrom id = some e) :
    m.forceSettlements.lookup e.1 = some e.2 ∧ id ≤ e.2.balance.assetId := by
  have hmem := List.argmin_mem h
  rw [List.mem_filter, decide_eq_true_iff] at hmem
  exact ⟨List.mem_dlookup m.forceSettlements.nodupKeys hmem.1, hmem.2⟩

theorem lt_of_settlementAfter {m : Market} {id : AssetId} {e : (_ : ℕ) × ForceSettlement}
    (h : m.settlementAfter id = some e) : id < e.2.balance.assetId := by
  have hmem := List.argmin_mem h
  rw [List.mem_filter, decide_eq_true_iff] at hmem
  exact hmem.2

/-- Going on with a later asset leaves a request behind. -/
theorem countP_lt {entries : List ((_ : ℕ) × ForceSettlement)} {id id' : AssetId}
    {e : (_ : ℕ) × ForceSettlement} (he : e ∈ entries) (hid : e.2.balance.assetId = id)
    (hlt : id < id') :
    entries.countP (fun e ↦ id' ≤ e.2.balance.assetId) <
      entries.countP fun e ↦ id ≤ e.2.balance.assetId := by
  induction entries with
  | nil => cases he
  | cons x entries ih =>
    have hle : entries.countP (fun e ↦ id' ≤ e.2.balance.assetId) ≤
        entries.countP fun e ↦ id ≤ e.2.balance.assetId :=
      List.countP_mono_left fun y _ hy ↦ decide_eq_true (hlt.le.trans (of_decide_eq_true hy))
    rw [List.countP_cons, List.countP_cons]
    rcases List.mem_cons.1 he with rfl | he
    · rw [if_neg (by simpa using hid ▸ hlt), if_pos (by simpa using hid.ge)]
      omega
    · have hlt' := ih he
      split_ifs with h₁ h₂
      · omega
      · exact absurd (decide_eq_true (hlt.le.trans (of_decide_eq_true h₁))) h₂
      · omega
      · omega

theorem data_atAsset (hround : s.round = none) (id : AssetId) :
    ({ s with currentAsset := id } : Clearing).data = s.data := by
  rw [data, data, hround]
  rfl

/-- Which asset the loop is at does not matter between two rounds. -/
theorem inv_atAsset (h : s.Inv o) (hround : s.round = none) (id : AssetId) :
    ({ s with currentAsset := id } : Clearing).Inv o := by
  have hdata := data_atAsset hround id
  refine ⟨hdata ▸ h.sound, ?_, fun r hr ↦ ?_⟩
  · rw [hdata]
    exact h.cached
  · cases hround.symm.trans hr

/-- **The next asset**: a request is behind the loop now. -/
theorem leads_nextAsset (h : s.Inv o) (hround : s.round = none)
    {e : (_ : ℕ) × ForceSettlement} (he : e ∈ s.market.forceSettlements.entries)
    (hid : e.2.balance.assetId = s.currentAsset) : s.Leads o thrown (.ok s.nextAsset) := by
  rw [nextAsset]
  cases hafter : s.market.settlementAfter s.currentAsset with
  | none => exact hround
  | some e' =>
    have hlt := lt_of_settlementAfter hafter
    exact ⟨inv_atAsset h hround _, .of_data (data_atAsset hround _),
      size_lt_of_ahead rfl (countP_lt he hid hlt)⟩

/-! ### Requests that are taken back -/

theorem cancelSettlement_spec {m : Market} {id : ℕ} {order : ForceSettlement}
    (horder : m.forceSettlements.lookup id = some order) (hpos : 0 ≤ order.balance.amount) :
    ∃ m₁, m.cancelSettlement id =
        some { m₁ with forceSettlements := m.forceSettlements.erase id } ∧
      Market.Moves (.paid order.owner order.balance) m m₁ ∧ Market.SameOrders m m₁ := by
  obtain ⟨m₁, hm₁⟩ := Market.adjustBalance_isSome m order.owner order.balance hpos
  have hmoves := Market.moves_adjustBalance hm₁
  refine ⟨m₁, ?_, hmoves, Market.sameOrders_adjustBalance hm₁⟩
  simp only [Market.cancelSettlement, horder, hm₁, Option.bind_eq_bind, Option.bind_some]
  rw [hmoves.settlements]
  rfl

/-- **A request is taken back**, and there is less to settle. -/
theorem leads_cancel {t : Clearing} {id : ℕ} {order : ForceSettlement} (h : s.Inv o)
    (hdata : t.data = s.data) (hmax : t.maxSettlementVolume = s.maxSettlementVolume)
    (hround : t.round = none) (horder : s.market.forceSettlements.lookup id = some order)
    (hreason : s.data.CancelReason id order) : s.Leads o thrown (t.cancel id) := by
  have hmarket : t.market = s.market := congrArg Settlements.market hdata
  have hvolume : t.forceSettledVolume = s.data.forceSettledVolume := by
    rw [← hdata, data, hround]
    rfl
  obtain ⟨m₁, hm₁, hmoves, hsame⟩ :=
    cancelSettlement_spec horder (h.sound.requests id order horder).1
  let t' : Clearing :=
    { t with market := { m₁ with forceSettlements := s.market.forceSettlements.erase id } }
  have ht' : t'.data = ⟨t'.market, s.data.forceSettledVolume⟩ := by
    show (⟨t'.market, t.round.elim _ _⟩ : Settlements) = _
    rw [hround, ← hvolume]
    rfl
  have hstep : s.data.Step o (.cancelled id order.balance.amount) t'.data := by
    rw [ht']
    exact .cancel horder hreason hmoves hsame
  obtain ⟨hsound, hlt⟩ := hstep.sound h.sound
  rw [cancel, hmarket, hm₁]
  refine ⟨⟨hsound, ?_, ?_⟩, ⟨_, hstep.trace⟩, size_lt_of_toSettle hsound hlt⟩
  · have hsupply : m₁.currentSupply = s.market.currentSupply :=
      Settlements.currentSupply_of_moves hmoves
    show t.maxSettlementVolume.assetId = _ ∨ t.maxSettlementVolume.amount =
      o.maxForceSettlementVolume t.maxSettlementVolume.assetId (m₁.currentSupply _)
        (t'.data.forceSettledVolume _)
    rw [hmax, hsupply, ht']
    exact h.cached
  · intro r hr
    cases hround.symm.trans hr

/-! ### Rounds that are entered and left -/

/-- What a state leads to, a larger one with the same data leads to. -/
theorem Leads.of_le {t : Clearing} {x : Except SettlementFault (Option Clearing)}
    (h : t.Leads o thrown x) (hdata : t.data = s.data) (hround : t.round = s.round)
    (hle : t.size ≤ s.size) : s.Leads o thrown x := by
  match x with
  | .ok none => exact hround.symm.trans h
  | .ok (some s') =>
    obtain ⟨hinv, ⟨es, htrace⟩, hlt⟩ := h
    exact ⟨hinv, ⟨es, hdata ▸ htrace⟩, hlt.trans_le hle⟩
  | .error .thrown => exact h

@[simp]
theorem refreshVolume_forceSettledVolume :
    (s.refreshVolume o).forceSettledVolume = s.forceSettledVolume := by
  rw [refreshVolume]
  split_ifs <;> rfl

theorem refreshVolume_inv (h : s.Inv o) (hround : s.round = none) :
    (s.refreshVolume o).Inv o ∧ (s.refreshVolume o).data = s.data ∧
      (s.refreshVolume o).size = s.size ∧ (s.refreshVolume o).round = none ∧
      (s.refreshVolume o).market = s.market ∧
      (s.refreshVolume o).currentAsset = s.currentAsset ∧
      (s.refreshVolume o).maxSettlementVolume.assetId = s.currentAsset := by
  rw [refreshVolume]
  split_ifs with hid
  · refine ⟨⟨h.sound, .inr ?_, fun r hr ↦ ?_⟩, rfl, ?_, hround, rfl, rfl, rfl⟩
    · show o.maxForceSettlementVolume _ _ (s.forceSettledVolume _) =
        o.maxForceSettlementVolume _ _ (s.data.forceSettledVolume _)
      rw [data, hround]
      rfl
    · cases hround.symm.trans hr
    · rw [size, size, mode, mode, hround]
      rfl
  · exact ⟨h, rfl, rfl, hround, rfl, rfl, not_not.1 hid⟩

/-- Once it has been worked out, what may be settled is what may be settled of the asset. -/
theorem refreshVolume_amount {b : BitassetData} (h : s.Inv o) (hround : s.round = none)
    (hb : s.market.bitassets s.currentAsset = some b) :
    (s.refreshVolume o).maxSettlementVolume.amount = o.maxForceSettlementVolume s.currentAsset
      (s.market.currentSupply s.currentAsset) (s.forceSettledVolume s.currentAsset) := by
  obtain ⟨hinv, hdata, -, -, hmarket, -, hmax⟩ := refreshVolume_inv h hround
  have hcached := hinv.cached
  have hvolume : s.data.forceSettledVolume = s.forceSettledVolume := by
    rw [data, hround]
    rfl
  rw [hmax, hdata, hmarket, hvolume] at hcached
  exact hcached.resolve_left (h.sound.backs s.currentAsset b hb).ne_core

/-- What a price of the feed is worth, less the offset. -/
theorem offset_bounds {worth : ℤ} {offset : ℕ} (hoffset : offset ≤ hundredPercent)
    (hnonneg : 0 ≤ worth) (hle : worth ≤ maxShareSupply) :
    0 ≤ worth * ((hundredPercent : ℤ) - offset) / hundredPercent ∧
      worth * ((hundredPercent : ℤ) - offset) / hundredPercent ≤ maxShareSupply := by
  have hpos : (0 : ℤ) < hundredPercent := by decide
  have hpart : 0 ≤ (hundredPercent : ℤ) - offset := by
    have : (offset : ℤ) ≤ hundredPercent := by exact_mod_cast hoffset
    omega
  refine ⟨Int.ediv_nonneg (mul_nonneg hnonneg hpart) hpos.le, le_trans ?_ hle⟩
  exact Int.ediv_le_of_le_mul hpos (mul_le_mul_of_nonneg_left (by omega) hnonneg)

/-- **A round is entered**, or enough has been settled of the asset. -/
theorem leads_enterRound {id : ℕ} {order : ForceSettlement} {b : BitassetData} (h : s.Inv o)
    (hround : s.round = none) (hmax : s.maxSettlementVolume.assetId = s.currentAsset)
    (horder : s.market.forceSettlements.lookup id = some order)
    (hid : order.balance.assetId = s.currentAsset)
    (hdue : order.settlementDate ≤ s.market.ledger.headBlockTime)
    (hb : s.market.bitassets s.currentAsset = some b) (hsettled : b.hasSettlement = false)
    (hfeed : b.currentFeed.settlementPrice.isNull = false) :
    s.Leads o (s.forceSettledVolume s.currentAsset < s.maxSettlementVolume.amount ∧
        order.balance.mulPrice b.currentFeed.settlementPrice = none)
      (s.enterRound o id order b.currentFeed.settlementPrice) := by
  rw [enterRound]
  split_ifs with henough
  · exact leads_nextAsset h hround (List.of_mem_dlookup horder) hid
  obtain ⟨-, hne, -, -, -, hprice⟩ := h.sound.backs s.currentAsset b hb
  obtain ⟨hvalid, hof⟩ := hprice hfeed
  cases hworth : order.balance.mulPrice b.currentFeed.settlementPrice with
  | none => exact ⟨not_le.1 henough, rfl⟩
  | some worth =>
    obtain ⟨-, hnonneg, hle, rfl⟩ := (Market.mulPrice_base (hid.trans hof.1.symm)).1 hworth
    have hbounds := offset_bounds (h.sound.options s.currentAsset)
      (Int.ediv_nonneg hnonneg hvalid.1.le) hle
    dsimp only
    rw [Asset.dividedBy, if_pos (by rw [hid, hof.2]; exact hne)]
    have hdata : ∀ r : Round, r.settled = s.forceSettledVolume s.currentAsset →
        ({ s with round := some r } : Clearing).data = s.data := by
      intro r hr
      show (⟨s.market, Function.update s.forceSettledVolume s.currentAsset r.settled⟩ :
        Settlements) = ⟨s.market, s.round.elim _ _⟩
      rw [hr, Function.update_eq_self, hround]
      rfl
    refine ⟨⟨?_, ?_, ?_⟩, .of_data (hdata _ rfl), size_lt_of_mode rfl le_rfl ?_⟩
    · rw [hdata _ rfl]
      exact h.sound
    · rw [hdata _ rfl]
      exact h.cached
    · rintro r ⟨⟩
      refine ⟨hmax, ⟨b, hb, hsettled, hid, hof.2⟩, (not_le.1 henough).le, hbounds, ?_⟩
      intro order' horder'
      obtain rfl := Option.some.inj (horder.symm.trans horder')
      exact ⟨hid, hdue, le_rfl⟩
    · rw [mode, mode, hround]
      refine (if_pos ⟨?_, not_le.1 henough⟩).trans_lt one_pos
      exact Option.isSome_of_eq_some horder

/-- **An iteration of the loop**, up to the loop in it. -/
theorem leads_pick (h : s.Inv o) (hround : s.round = none) :
    s.Leads o (s.Unpriced o) (s.pick o) := by
  rw [pick]
  cases hfrom : s.market.settlementFrom s.currentAsset with
  | none => exact hround
  | some e =>
    obtain ⟨horder, hle⟩ := mem_of_settlementFrom hfrom
    let t : Clearing := { s with currentAsset := e.2.balance.assetId }
    have hdata : t.data = s.data := data_atAsset hround _
    have ht : t.Inv o := inv_atAsset h hround _
    have hsize : t.size ≤ s.size := by
      have hahead : t.ahead ≤ s.ahead :=
        List.countP_mono_left fun x _ hx ↦ decide_eq_true (hle.trans (of_decide_eq_true hx))
      have hmode : t.mode = s.mode := by
        rw [mode, mode, hround]
        rfl
      rw [size, size, hmode]
      exact Prod.Lex.toLex_le_toLex.2 (.inr ⟨rfl, Prod.Lex.toLex_le_toLex.2
        (hahead.lt_or_eq.imp id fun heq ↦ ⟨heq, le_rfl⟩)⟩)
    obtain ⟨-, hbitasset⟩ := h.sound.requests e.1 e.2 horder
    obtain ⟨b, hb⟩ := Option.isSome_iff_exists.1 hbitasset
    have hb' : t.market.bitassets t.currentAsset = some b := hb
    suffices hleads : t.Leads o (s.Unpriced o)
        (if b.hasSettlement then t.cancel e.1
        else if e.2.settlementDate > t.market.ledger.headBlockTime then .ok t.nextAsset
        else if b.currentFeed.settlementPrice.isNull then t.cancel e.1
        else (t.refreshVolume o).enterRound o e.1 e.2 b.currentFeed.settlementPrice) by
      show s.Leads o _ (match t.market.bitassets t.currentAsset with
        | none => _
        | some mia => _)
      rw [hb']
      exact hleads.of_le hdata rfl hsize
    split_ifs with hsettled hdate hnull
    · exact leads_cancel ht rfl rfl hround horder (.globallySettled hb' hsettled)
    · exact leads_nextAsset ht hround (List.of_mem_dlookup horder) rfl
    · exact leads_cancel ht rfl rfl hround horder (.noFeed hb' (not_lt.1 hdate) hnull)
    · have hsettled := Bool.eq_false_of_not_eq_true hsettled
      have hnull := Bool.eq_false_of_not_eq_true hnull
      have hcached := refreshVolume_amount ht hround hb'
      obtain ⟨hinv, hdata', hsize', hround', hmarket, hcurrent, hmax⟩ := refreshVolume_inv ht hround
      refine ((leads_enterRound hinv hround' (hmax.trans hcurrent.symm) (hmarket ▸ horder)
        hcurrent.symm (hmarket ▸ not_lt.1 hdate) (by rw [hmarket, hcurrent]; exact hb') hsettled
        hnull).mono fun ⟨hless, hworth⟩ ↦ ?_).of_le hdata' (hround'.trans hround.symm) hsize'.le
      rw [refreshVolume_forceSettledVolume, hcurrent, hcached] at hless
      exact ⟨hround, e, hfrom, not_lt.1 hdate, b, hb, hsettled, hnull, hless, hworth⟩

theorem data_leaveRound (hround : s.round = some r) : (s.leaveRound r).data = s.data := by
  rw [data, data, hround]
  show (⟨s.market, if s.forceSettledVolume s.currentAsset ≠ r.settled then _ else _⟩ :
    Settlements) = ⟨s.market, Function.update s.forceSettledVolume s.currentAsset r.settled⟩
  split_ifs with hne
  · rfl
  · rw [← not_not.1 hne, Function.update_eq_self]

/-- **A round that is over** is left. -/
theorem leads_leaveRound (h : s.Inv o) (hround : s.round = some r) (hover : ¬s.Busy r) :
    s.Leads o thrown (.ok (some (s.leaveRound r))) := by
  have hdata := data_leaveRound hround
  refine ⟨⟨hdata ▸ h.sound, ?_, fun r' hr' ↦ by cases hr'⟩, .of_data hdata,
    size_lt_of_mode rfl le_rfl ?_⟩
  · rw [hdata]
    exact h.cached
  · rw [mode, mode, hround]
    exact one_lt_two.trans_eq (if_neg hover).symm

/-! ### A request is matched -/

/-- What is between two prices of a market is a price of it. -/
theorem ids_of_between {p x q : Price}
    (hid : p.base.assetId = q.base.assetId ∧ p.quote.assetId = q.quote.assetId)
    (hle : p.orderKey ≤ x.orderKey) (hle' : x.orderKey ≤ q.orderKey) :
    x.base.assetId = q.base.assetId ∧ x.quote.assetId = q.quote.assetId := by
  obtain ⟨hbase, hquote⟩ := hid
  have hbase' : x.base.assetId = q.base.assetId :=
    le_antisymm (Prod.Lex.monotone_fst _ _ hle')
      (hbase.symm.trans_le (Prod.Lex.monotone_fst _ _ hle))
  rcases Prod.Lex.toLex_le_toLex.1 hle with hlt | ⟨-, hle⟩
  · exact absurd hlt (hbase.trans hbase'.symm).not_lt
  rcases Prod.Lex.toLex_le_toLex.1 hle' with hlt | ⟨-, hle'⟩
  · exact absurd hlt hbase'.not_lt
  exact ⟨hbase', le_antisymm (Prod.Lex.monotone_fst _ _ hle')
    (hquote.symm.trans_le (Prod.Lex.monotone_fst _ _ hle))⟩

/-- An asset that backs another has the least price in it. -/
theorem leastCollateralized_isSome {m : Market} {backing mia : AssetId} (hne : backing ≠ mia) :
    ∃ itr, m.leastCollateralized backing mia = some itr := by
  rw [Market.leastCollateralized, Price.minimum_of_ne hne, Option.bind_eq_bind, Option.bind_some]
  exact ⟨_, rfl⟩

/-- **There is always a call order** of an asset of which something is owed. -/
theorem leastCollateralized_spec {m : Market} {backing mia : AssetId} (hne : backing ≠ mia)
    (howes : ∀ id, ∀ c ∈ m.callOrders.lookup id, m.Owes c)
    (hcall : ∃ id c, m.callOrders.lookup id = some c ∧ c.callPrice.base.assetId = backing ∧
      c.callPrice.quote.assetId = mia) :
    ∃ call, m.leastCollateralized backing mia = some (some call) ∧
      m.callOrders.lookup call.1 = some call.2 ∧ call.2.callPrice.base.assetId = backing ∧
        call.2.callPrice.quote.assetId = mia := by
  obtain ⟨id, c, hc, hbase, hquote⟩ := hcall
  rw [Market.leastCollateralized, Price.minimum_of_ne hne, Option.bind_eq_bind, Option.bind_some]
  let key (e : (_ : ℕ) × CallOrder) : ℕ ×ₗ ℕ ×ₗ ℚ :=
    (⟨e.2.getCollateral, e.2.getDebt⟩ : Price).orderKey
  let lowest : Price := ⟨⟨1, backing⟩, ⟨maxShareSupply, mia⟩⟩
  show ∃ call, some ((m.callOrders.entries.filter fun e ↦ lowest.orderKey ≤ key e).argmin
    Market.collateralKey) = some (some call) ∧ _
  obtain ⟨⟨hdebt, hdebtle⟩, hcollateral, -, -⟩ := howes id c hc
  have hlowest : lowest.orderKey ≤ key ⟨id, c⟩ := by
    refine Prod.Lex.toLex_le_toLex.2 (.inr ⟨hbase.symm, Prod.Lex.toLex_le_toLex.2
      (.inr ⟨hquote.symm, ?_⟩)⟩)
    show ((1 : ℤ) : ℚ) / maxShareSupply ≤ (c.collateral : ℚ) / c.debt
    rw [div_le_div_iff₀ (Int.cast_pos.2 (by decide)) (Int.cast_pos.2 hdebt)]
    have hcross : 1 * c.debt ≤ c.collateral * maxShareSupply :=
      mul_le_mul hcollateral hdebtle hdebt.le hcollateral.le
    exact_mod_cast hcross
  have hmem : (⟨id, c⟩ : (_ : ℕ) × CallOrder) ∈
      m.callOrders.entries.filter fun e ↦ lowest.orderKey ≤ key e :=
    List.mem_filter.2 ⟨List.of_mem_dlookup hc, decide_eq_true hlowest⟩
  cases hmin : (m.callOrders.entries.filter fun e ↦ lowest.orderKey ≤ key e).argmin
      Market.collateralKey with
  | none =>
    rw [List.argmin_eq_none.1 hmin] at hmem
    cases hmem
  | some call =>
    have hfirst := List.argmin_mem hmin
    rw [List.mem_filter, decide_eq_true_iff] at hfirst
    have hle : key call ≤ key ⟨id, c⟩ := by
      rcases Prod.Lex.toLex_le_toLex.1 (List.le_of_mem_argmin hmem hmin) with hlt | ⟨heq, -⟩
      · exact hlt.le
      · exact heq.le
    have hbetween := ids_of_between (p := lowest) (q := ⟨c.getCollateral, c.getDebt⟩)
      ⟨hbase.symm, hquote.symm⟩ hfirst.2 hle
    exact ⟨call, rfl, List.mem_dlookup m.callOrders.nodupKeys hfirst.1, hbetween.1.trans hbase,
      hbetween.2.trans hquote⟩

/-- **Whether a match is a black swan**: the position does not have what it would pay. -/
theorem matchIsBlackSwan_eq {m : Market} {call settle : ℕ} {c : CallOrder}
    {request : ForceSettlement} {price : Price} {maxSettlement pays : Asset}
    (h : m.Settling call settle c request price maxSettlement)
    (hpays : (⟨Market.settledAmount c request maxSettlement, request.balance.assetId⟩ :
      Asset).mulPrice price = some pays) :
    m.matchIsBlackSwan call settle price maxSettlement =
      some (!decide (pays.amount < c.collateral)) := by
  have hdebt : c.getDebt.assetId = request.balance.assetId := h.debt_id
  have hpos : c.debt > 0 ∧ c.collateral > 0 ∧ request.balance.amount > 0 :=
    ⟨h.debt_pos, h.collateral_pos, h.balance_pos⟩
  have hsale : (⟨min request.balance.amount maxSettlement.amount, request.balance.assetId⟩ :
      Asset).minimum c.getDebt =
        some ⟨Market.settledAmount c request maxSettlement, request.balance.assetId⟩ :=
    Market.minimum_of_eq hdebt
  have hless : pays.less c.getCollateral = some (decide (pays.amount < c.collateral)) := by
    obtain ⟨-, -, -, rfl⟩ := (Market.mulPrice_base
      (a := ⟨Market.settledAmount c request maxSettlement, request.balance.assetId⟩)
        h.match_of.1.symm).1 hpays
    exact Asset.less_eq_some.2 ⟨h.match_of.2, rfl⟩
  simp only [Market.matchIsBlackSwan, h.call_mem, h.settle_mem, guard, if_pos hdebt, if_pos hpos,
    Market.minimum_of_eq h.max_id, hsale, hpays, hless, Option.bind_eq_bind, Option.bind_some,
    Option.pure_def]

/-- How much may be settled depends on what there is of an asset and what was settled of it. -/
theorem maxForceSettlementVolume_congr {mia : AssetId} {supply supply' volume volume' : ℤ}
    (h : supply' + volume' = supply + volume) :
    o.maxForceSettlementVolume mia supply' volume' =
      o.maxForceSettlementVolume mia supply volume := by
  rw [SettlementOptions.maxForceSettlementVolume, SettlementOptions.maxForceSettlementVolume, h]

theorem data_of_round (hround : s.round = some r) :
    s.data = ⟨s.market, Function.update s.forceSettledVolume s.currentAsset r.settled⟩ := by
  rw [data, hround]
  rfl

theorem volume_of_round (hround : s.round = some r) :
    s.data.forceSettledVolume s.currentAsset = r.settled := by
  rw [data_of_round hround]
  exact Function.update_self ..

/-- In a round, the most that may be settled is what could be worked out now. -/
theorem cached_of_round (h : s.Inv o) (hround : s.round = some r) :
    s.maxSettlementVolume.amount = o.maxForceSettlementVolume s.currentAsset
      (s.market.currentSupply s.currentAsset) r.settled := by
  obtain ⟨hmaxid, ⟨b, hb, -⟩, -⟩ := h.round r hround
  rcases h.cached with hcore | hcached
  · exact absurd (hmaxid.symm.trans hcore) (h.sound.backs s.currentAsset b hb).ne_core
  · rwa [hmaxid, volume_of_round hround] at hcached

section MatchWith

variable {call : ℕ} {c : CallOrder} {request : ForceSettlement} {b : BitassetData}

/-- The most that can be settled of a request. -/
def maxSettlement (s : Clearing) (r : Round) : Asset :=
  ⟨s.maxSettlementVolume.amount - r.settled, s.currentAsset⟩

/-- A request that is being matched, and a position of its asset. -/
theorem settling_of_inv (h : s.Inv o) (hround : s.round = some r)
    (hrequest : s.market.forceSettlements.lookup r.order = some request)
    (hpos : 0 < request.balance.amount) (hcall : s.market.callOrders.lookup call = some c)
    (hb : s.market.bitassets s.currentAsset = some b)
    (hbase : c.callPrice.base.assetId = b.shortBackingAsset)
    (hquote : c.callPrice.quote.assetId = s.currentAsset) :
    s.market.Settling call r.order c request r.settlementPrice (s.maxSettlement r) := by
  obtain ⟨-, ⟨b', hb', -, hof⟩, hle, ⟨hnonneg, -⟩, horder⟩ := h.round r hround
  obtain rfl := Option.some.inj (hb.symm.trans hb')
  obtain ⟨hid, -, hworth⟩ := horder request hrequest
  obtain ⟨hdebt, hcollateral, hborrower, -⟩ := h.sound.owes call c hcall
  obtain ⟨-, -, hasset, hbacking, hoptions, -⟩ := h.sound.backs s.currentAsset b hb
  exact
    { call_mem := hcall
      settle_mem := hrequest
      debt_id := hquote.trans hid.symm
      max_id := hid.symm
      debt_pos := hdebt.1
      collateral_pos := hcollateral
      balance_pos := hpos
      max_nonneg := Int.sub_nonneg_of_le hle
      match_valid := ⟨hpos.trans_le hworth, hnonneg⟩
      match_of := ⟨hof.1.trans hid.symm, hof.2.trans hbase.symm⟩
      borrower := hborrower
      assets := ⟨hid ▸ hasset, hbase ▸ hbacking⟩
      options := hbase ▸ hoptions }

/-- What is to be paid for a request is an amount. -/
theorem pays_of_settling {m : Market} {settle : ℕ} {price : Price} {maxSettlement : Asset}
    (h : m.Settling call settle c request price maxSettlement)
    (hworth : request.balance.amount ≤ price.base.amount)
    (hprice : price.quote.amount ≤ maxShareSupply) :
    ∃ pays, (⟨Market.settledAmount c request maxSettlement, request.balance.assetId⟩ :
      Asset).mulPrice price = some pays := by
  obtain ⟨⟨hnonneg, hle, -, -⟩, -⟩ := h.settledAmount_bounds
  obtain ⟨hb, hq⟩ := h.match_valid
  refine ⟨_, (Market.mulPrice_base (a := ⟨Market.settledAmount c request maxSettlement,
    request.balance.assetId⟩) h.match_of.1.symm).2 ⟨hb, mul_nonneg hnonneg hq, ?_, rfl⟩⟩
  refine (Int.ediv_le_of_le_mul hb ?_).trans hprice
  rw [mul_comm price.quote.amount]
  exact mul_le_mul_of_nonneg_right (hle.trans hworth) hq

/-- The state after a match. -/
def matched (s : Clearing) (r : Round) (m : Market) (pays : ℤ) : Clearing :=
  { s with market := m, round := some { r with settled := r.settled + pays } }

theorem data_matched (hround : s.round = some r) (m : Market) (pays : ℤ) :
    (s.matched r m pays).data =
      ⟨m, Function.update s.data.forceSettledVolume s.currentAsset (r.settled + pays)⟩ := by
  rw [data_of_round hround, Function.update_idem]
  rfl

section Matched

variable {m' : Market} {e : CallExchange} (h : s.Inv o) (hround : s.round = some r)
  (hrequest : s.market.forceSettlements.lookup r.order = some request)
  (hmatched : s.market.CallMatched m' call r.order c request r.settlementPrice
    (s.maxSettlement r) e)
include h hround hrequest hmatched

/-- What is settled adds up with what there is then to what there was, so that as much may be
settled as before. -/
theorem cached_matched : s.maxSettlementVolume.amount =
    o.maxForceSettlementVolume s.currentAsset (m'.currentSupply s.currentAsset)
      (r.settled + e.settlePays) := by
  obtain ⟨hid, -⟩ := (h.round r hround).order request hrequest
  rw [cached_of_round h hround]
  refine (maxForceSettlementVolume_congr ?_).symm
  rw [Settlements.currentSupply_of_matched hmatched, if_pos hid]
  omega

/-- A match is a step. -/
theorem step_matched (hlt : r.settled < s.maxSettlementVolume.amount)
    (hsettling : s.market.Settling call r.order c request r.settlementPrice (s.maxSettlement r)) :
    s.data.Step o (.settled r.order e.settlePays) (s.matched r m' e.settlePays).data := by
  obtain ⟨hid, hdue, -⟩ := (h.round r hround).order request hrequest
  obtain ⟨-, -, -, hmax⟩ := hmatched.settle_pays
  have hmax : e.settlePays ≤ s.maxSettlementVolume.amount - r.settled := hmax
  have hprogress : 0 < e.settlePays := by
    rcases hmatched.filled_one with heq | heq | heq
    · exact heq.symm ▸ hsettling.debt_pos
    · exact heq.symm ▸ hsettling.balance_pos
    · exact heq.symm ▸ Int.sub_pos_of_lt hlt
  have hdata := data_of_round hround
  have hvolume : s.data.forceSettledVolume request.balance.assetId = r.settled :=
    hid ▸ volume_of_round hround
  rw [data_matched hround, ← hid, ← hvolume]
  refine .settle (by rw [hdata]; exact hsettling.call_mem) hsettling.debt_id
    (by rw [hdata]; exact hrequest) (by rw [hdata]; exact hdue) hprogress
    (by rw [hdata]; exact hmatched) ?_ ?_
  · rw [hvolume, hid, hdata, ← cached_of_round h hround]
    omega
  · rw [hvolume, hid, ← cached_matched h hround hrequest hmatched]
    omega

theorem inRound_matched :
    (s.matched r m' e.settlePays).InRound { r with settled := r.settled + e.settlePays } := by
  obtain ⟨hmaxid, ⟨b, hb, hsettled, hof⟩, -, hprice, horder⟩ := h.round r hround
  obtain ⟨hnonneg, -, -, hmax⟩ := hmatched.settle_pays
  have hmax : e.settlePays ≤ s.maxSettlementVolume.amount - r.settled := hmax
  refine ⟨hmaxid, ⟨b, ?_, hsettled, hof⟩, ?_, hprice, ?_⟩
  · show m'.bitassets s.currentAsset = some b
    rw [hmatched.world.bitassets]
    exact hb
  · show r.settled + e.settlePays ≤ s.maxSettlementVolume.amount
    omega
  · intro order' horder'
    have horder' : m'.forceSettlements.lookup r.order = some order' := horder'
    rw [hmatched.settle_left] at horder'
    obtain ⟨s₀, hs₀, -, hdate, hasset, hamount, -⟩ := lookup_settlementsLeft hrequest horder'
    obtain ⟨hid₀, hdue₀, hworth₀⟩ := horder s₀ hs₀
    refine ⟨hasset.trans hid₀, ?_, ?_⟩
    · show order'.settlementDate ≤ m'.ledger.headBlockTime
      rw [hdate, hmatched.world.time]
      exact hdue₀
    · rw [hamount, if_pos rfl]
      show s₀.balance.amount - e.settlePays ≤ r.settlementPrice.base.amount
      omega

/-- **A match settles something**, and the loop in the loop goes on. -/
theorem matched_leads (hlt : r.settled < s.maxSettlementVolume.amount)
    (hsettling : s.market.Settling call r.order c request r.settlementPrice (s.maxSettlement r)) :
    s.Leads o thrown (.ok (some (s.matched r m' e.settlePays))) := by
  have hstep := step_matched h hround hrequest hmatched hlt hsettling
  obtain ⟨hsound, hless⟩ := hstep.sound h.sound
  rw [data_matched hround, data_of_round hround] at hless
  refine ⟨⟨hsound, .inr ?_, ?_⟩, ⟨_, hstep.trace⟩, size_lt_of_toSettle hsound hless⟩
  · show s.maxSettlementVolume.amount = o.maxForceSettlementVolume s.maxSettlementVolume.assetId
      (m'.currentSupply s.maxSettlementVolume.assetId)
        ((s.matched r m' e.settlePays).data.forceSettledVolume s.maxSettlementVolume.assetId)
    rw [(h.round r hround).max_id, data_matched hround]
    dsimp only
    rw [Function.update_self]
    exact cached_matched h hround hrequest hmatched
  · rintro r' ⟨⟩
    exact inRound_matched h hround hrequest hmatched

end Matched

/-- **A request is matched** with a position, or it is taken back because of a black swan. -/
theorem leads_matchWith (h : s.Inv o) (hround : s.round = some r)
    (hrequest : s.market.forceSettlements.lookup r.order = some request)
    (hlt : r.settled < s.maxSettlementVolume.amount) (hpos : 0 < request.balance.amount)
    (hcall : s.market.callOrders.lookup call = some c)
    (hb : s.market.bitassets s.currentAsset = some b)
    (hbase : c.callPrice.base.assetId = b.shortBackingAsset)
    (hquote : c.callPrice.quote.assetId = s.currentAsset) :
    s.Leads o thrown (s.matchWith r call) := by
  have hsettling := settling_of_inv h hround hrequest hpos hcall hb hbase hquote
  obtain ⟨-, -, -, ⟨-, hprice⟩, horder⟩ := h.round r hround
  obtain ⟨pays, hpays⟩ := pays_of_settling hsettling (horder request hrequest).2.2 hprice
  have hswan := matchIsBlackSwan_eq hsettling hpays
  show s.Leads o _ (match s.market.matchIsBlackSwan call r.order r.settlementPrice
    (s.maxSettlement r) with
    | none => _
    | some true => _
    | some false => _)
  rw [hswan]
  by_cases hpay : pays.amount < c.collateral
  · obtain ⟨m', e, hmatch, hmatched⟩ := Market.matchForceSettlement_exchange hsettling hpays hpay
    rw [decide_eq_true hpay]
    show s.Leads o _ (match s.market.matchForceSettlement call r.order r.settlementPrice
      (s.maxSettlement r) with
      | none => _
      | some (m, settled) => _)
    rw [hmatch]
    exact matched_leads h hround hrequest hmatched hlt hsettling
  · rw [decide_eq_false hpay] at hswan ⊢
    exact leads_cancel h (data_leaveRound hround) rfl rfl hrequest
      (.blackSwan (horder request hrequest).2.1 hswan)

end MatchWith

/-- **An iteration of the loop in the loop.** -/
theorem leads_settle (h : s.Inv o) (hround : s.round = some r) :
    s.Leads o thrown (s.settle r) := by
  rw [settle]
  cases hrequest : s.market.forceSettlements.lookup r.order with
  | none =>
    refine leads_leaveRound h hround fun hbusy ↦ ?_
    rw [Busy, hrequest] at hbusy
    cases hbusy.1
  | some request =>
    dsimp only
    by_cases hlt : r.settled < s.maxSettlementVolume.amount
    swap
    · rw [if_neg hlt]
      exact leads_leaveRound h hround fun hbusy ↦ hlt hbusy.2
    rw [if_pos hlt]
    obtain ⟨-, ⟨b, hb, hsettled, -⟩, -, -, horder⟩ := h.round r hround
    have hb : s.market.bitassets s.currentAsset = some b := hb
    have hid := (horder request hrequest).1
    have hdata := data_of_round hround
    have hsound := h.sound
    rw [hdata] at hsound
    obtain ⟨-, hne, -, -, -, -⟩ := hsound.backs s.currentAsset b hb
    rw [hb]
    dsimp only
    obtain ⟨itr, hitr⟩ := leastCollateralized_isSome (m := s.market) hne.symm
    rw [hitr]
    dsimp only
    split_ifs with hzero
    · exact leads_cancel h (data_leaveRound hround) rfl rfl hrequest
        (.empty (horder request hrequest).2.1 hzero)
    have hpos : 0 < request.balance.amount :=
      lt_of_le_of_ne (hsound.requests r.order request hrequest).1 (Ne.symm hzero)
    -- What is requested is owed, and so there is a position.
    have howed : 0 < s.market.owed s.currentAsset :=
      calc 0 < request.balance.amount := hpos
        _ ≤ s.market.requested s.currentAsset := hid ▸ hsound.requested_le hrequest
        _ ≤ s.market.owed s.currentAsset := hsound.covered s.currentAsset b hb hsettled
    obtain ⟨id, c, hc, hquote⟩ := exists_call_of_owed howed
    obtain ⟨call, hcall, hlookup, hbase, hquote⟩ := leastCollateralized_spec hne.symm hsound.owes
      ⟨id, c, hc, (hsound.owes id c hc).backed b (hquote ▸ hb), hquote⟩
    obtain rfl := Option.some.inj (hcall.symm.trans hitr)
    exact leads_matchWith h hround hrequest hlt hpos hlookup hb hbase hquote

/-- **An iteration.** -/
theorem next_spec (h : s.Inv o) : s.Leads o (s.Unpriced o) (s.next o) := by
  rw [next]
  cases hround : s.round with
  | none => exact leads_pick h hround
  | some r => exact leads_settle h hround

/-- **What an iteration keeps**, and what it makes smaller. -/
theorem next_keeps (h : s.Inv o) (hnext : s.next o = .ok (some s')) :
    s'.Inv o ∧ s.Does o s' ∧ s'.size < s.size := by
  have hleads := next_spec h
  rwa [hnext] at hleads

theorem inv_start {d : Settlements} (h : d.Sound o) (id : AssetId) :
    (⟨d.market, d.forceSettledVolume, id, ⟨0, coreAsset⟩, none⟩ : Clearing).Inv o :=
  ⟨h, .inl rfl, fun r hr ↦ by cases hr⟩

/-- **Which iterations throw.** -/
theorem next_error_iff (h : s.Inv o) {e : SettlementFault} :
    s.next o = .error e ↔ e = .thrown ∧ s.Unpriced o := by
  constructor
  · intro hnext
    have hleads := next_spec h
    rw [hnext] at hleads
    cases e with
    | thrown => exact ⟨rfl, hleads⟩
    | noCallOrder => exact hleads.elim
  · rintro ⟨rfl, hround, e, he, hdue, b, hb, hsettled, hnull, hless, hworth⟩
    let t : Clearing := { s with currentAsset := e.2.balance.assetId }
    have ht : t.Inv o := inv_atAsset h hround _
    have hcached := refreshVolume_amount ht hround hb
    obtain ⟨-, -, -, -, -, hcurrent, -⟩ := refreshVolume_inv ht hround
    have hless' : ¬ (t.refreshVolume o).forceSettledVolume (t.refreshVolume o).currentAsset ≥
        (t.refreshVolume o).maxSettlementVolume.amount := by
      rw [refreshVolume_forceSettledVolume, hcurrent, hcached]
      exact not_le.2 hless
    have hround' : (t.refreshVolume o).enterRound o e.1 e.2 b.currentFeed.settlementPrice =
        .error .thrown := by
      rw [enterRound, if_neg hless', hworth]
    rw [Option.mem_def] at he hb
    have hpick : s.pick o = .error .thrown := by
      simp only [pick, he, hb, hsettled, hnull, if_neg hdue.not_gt, Bool.false_eq_true, if_false]
      exact hround'
    rw [next, hround]
    exact hpick

theorem Unpriced.unpriceable (h : s.Unpriced o) : s.data.Unpriceable := by
  obtain ⟨-, e, he, hdue, b, hb, -, -, -, hworth⟩ := h
  exact ⟨e.1, e.2, (mem_of_settlementFrom he).1, hdue, b, hb, hworth⟩

end Clearing

/-! ## The loop -/

/-- **Force settlement is bounded and ends.**  Where the database keeps its promises, the loop ends.
What it does is one step after the other, each of which settles a part of a request whose date has
come and no more of an asset than may be settled of what there is of it then, or takes a request
back for one of four reasons; and so nothing that was in a request is lost.  If it fails, then
because what a due request is worth at the price of the feed is more than there can be of an
asset. -/
theorem force_settlement_bounded (o : SettlementOptions) (d : Settlements) (h : d.Sound o) :
    ∃ n es d', d.Trace o es d' ∧
      (∀ fuel ≥ n, d.clear o fuel = some (.ok d') ∨
        d.clear o fuel = some (.error .thrown) ∧ d'.Unpriceable) ∧
      d.Descends d' ∧
        ∀ id, d.balanceOf id =
          Settlements.settledOf id es + Settlements.returnedOf id es + d'.balanceOf id := by
  cases hfrom : d.market.settlementFrom 0 with
  | none =>
    have htrace := Settlements.Trace.nil (o := o) d
    exact ⟨0, [], d, htrace, fun fuel _ ↦ .inl (by rw [Settlements.clear, hfrom]), htrace.accounts⟩
  | some e =>
    let s : Clearing := ⟨d.market, d.forceSettledVolume, e.2.balance.assetId, ⟨0, coreAsset⟩, none⟩
    have hstep : ∀ t t' : Clearing, t.Inv o → t.next o = .ok (some t') →
        t'.Inv o ∧ t.Does o t' ∧ t'.size < t.size :=
      fun _ _ ht hnext ↦ Clearing.next_keeps ht hnext
    obtain ⟨n, t, ht, ⟨es, htrace⟩, hrun⟩ := Looping.terminates
      (fun t ↦ (Clearing.Does.of_data rfl : t.Does o t)) (fun _ _ _ h h' ↦ h.trans h') hstep s
      (Clearing.inv_start h _)
    refine ⟨n, es, t.data, htrace, fun fuel hfuel ↦ ?_, htrace.accounts⟩
    have hclear : d.clear o fuel =
        (Looping.run (Clearing.next o) fuel s).map fun r ↦ r.map Clearing.data := by
      rw [Settlements.clear, hfrom]
    rw [hclear]
    rcases hrun fuel hfuel with ⟨-, hrun⟩ | ⟨e, hnext, hrun⟩
    · exact .inl (by rw [hrun]; rfl)
    · obtain ⟨rfl, hunpriced⟩ := (Clearing.next_error_iff ht).1 hnext
      exact .inr ⟨by rw [hrun]; rfl, hunpriced.unpriceable⟩

/-- The points that the loop comes to. -/
def Settlements.Reaches (o : SettlementOptions) (d : Settlements) (s : Clearing) : Prop :=
  ∃ e, d.market.settlementFrom 0 = some e ∧ Looping.Reaches (Clearing.next o)
    ⟨d.market, d.forceSettledVolume, e.2.balance.assetId, ⟨0, coreAsset⟩, none⟩ s

/-- Of an asset, a fifth may be settled. -/
def fifthMaySettle : SettlementOptions := ⟨fun _ ↦ 2000, fun _ ↦ 100⟩

/-- The first asset is backed by core, and worth two of it. -/
def backedByCore : BitassetData :=
  ⟨coreAsset, 0, ⟨⟨⟨1, 1⟩, ⟨2, coreAsset⟩⟩, 1500⟩, false, ⟨⟨0, coreAsset⟩, ⟨0, coreAsset⟩⟩, 0⟩

/-- The busy market, in which the first asset is market-issued. -/
def settlingMarket : Settlements :=
  ⟨{ busyMarket with bitassets := fun id ↦ if id = 1 then some backedByCore else none },
    fun _ ↦ 0⟩

theorem settlingMarket_sound : settlingMarket.Sound fifthMaySettle where
  options _ := show 100 ≤ hundredPercent by decide
  backs mia b hb := by
    obtain ⟨rfl, hb⟩ := Option.ite_none_right_eq_some.1 (Option.mem_def.1 hb)
    obtain rfl := Option.some.inj hb
    exact ⟨by decide, by decide, rfl, rfl, ⟨by decide, by decide, by decide⟩, fun _ ↦
      ⟨⟨by decide, by decide, by decide⟩, rfl, rfl⟩⟩
  requests id s hs := by
    obtain ⟨rfl, rfl⟩ := Sigma.mk.inj_iff.1 (List.mem_singleton.1 (AList.mem_lookup_iff.1 hs))
    exact ⟨by decide, rfl⟩
  owes id c hc := by
    obtain ⟨rfl, rfl⟩ := Sigma.mk.inj_iff.1 (List.mem_singleton.1 (AList.mem_lookup_iff.1 hc))
    exact ⟨by decide, by decide, rfl, by rintro b ⟨⟩; rfl⟩
  covered mia b hb _ := by
    obtain ⟨rfl, -⟩ := Option.ite_none_right_eq_some.1 (Option.mem_def.1 hb)
    decide

/-- The loop ends, and what was requested is settled, given back or still there. -/
theorem force_settlement_bounded_sample :
    settlingMarket.Sound fifthMaySettle ∧
    ∃ n es d', settlingMarket.Trace fifthMaySettle es d' ∧
      (∀ fuel ≥ n, settlingMarket.clear fifthMaySettle fuel = some (.ok d') ∨
        settlingMarket.clear fifthMaySettle fuel = some (.error .thrown) ∧ d'.Unpriceable) ∧
      settlingMarket.Descends d' ∧
        ∀ id, settlingMarket.balanceOf id =
          Settlements.settledOf id es + Settlements.returnedOf id es + d'.balanceOf id :=
  ⟨settlingMarket_sound,
    force_settlement_bounded fifthMaySettle settlingMarket settlingMarket_sound⟩

/-- A fifth of nineteen is settled, and the rest of the request is left waiting. -/
example : (settlingMarket.clear fifthMaySettle 5).bind (fun r ↦ r.toOption.map fun d ↦
    (d.forceSettledVolume 1, d.balanceOf 0)) = some (3, 2) := by
  decide +kernel

end Graphene
