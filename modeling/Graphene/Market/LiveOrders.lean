import Graphene.Lib.IndexRange
import Graphene.Market.GlobalSettlement
import Graphene.Market.Matching

/-!
# Margin calls and the orders that are there

`check_call_orders` goes through the limit orders that sell an asset and through the call orders
that owe it, and fills one with the other.  Both iterators stand in indexes that change as orders
are filled: whether an iterator has to go on is told by a flag, and the one of the limit orders is
never reset.

* `MarginCalls.Steady` — the flag says of a limit order that is not used up whether it is too small
  to be sold.
* `MarginCalls.Live` — what is ahead of the iterators is what there is, the best price first.
* `Market.BestLimit`, `Market.NoneCallable` — the best price, and what is left to be called at it.
* `Live.next`, `Live.returns` — what an iteration does, and what the loop returns.
* `check_call_orders_live` — margin calls stay on orders that are there.
* `check_call_orders_skips` — they do not where the flag is wrong.
-/

set_option autoImplicit false

namespace Graphene

/-! ## Prices -/

namespace Price

variable {a b c : Price}

theorem lessEq_trans (hab : a.Of b.base.assetId b.quote.assetId)
    (hbc : b.Of c.base.assetId c.quote.assetId) (ha : 0 ≤ a.quote.amount)
    (hb : 0 < b.quote.amount) (hc : 0 ≤ c.quote.amount) (h : a.lessEq b = true)
    (h' : b.lessEq c = true) : a.lessEq c = true := by
  rw [lessEq_iff hab] at h
  rw [lessEq_iff hbc] at h'
  rw [lessEq_iff ⟨hab.1.trans hbc.1, hab.2.trans hbc.2⟩]
  refine le_of_mul_le_mul_left ?_ hb
  calc b.quote.amount * (c.quote.amount * a.base.amount)
      = c.quote.amount * (b.quote.amount * a.base.amount) := mul_left_comm _ _ _
    _ ≤ c.quote.amount * (a.quote.amount * b.base.amount) := mul_le_mul_of_nonneg_left h hc
    _ = a.quote.amount * (c.quote.amount * b.base.amount) := mul_left_comm _ _ _
    _ ≤ a.quote.amount * (b.quote.amount * c.base.amount) := mul_le_mul_of_nonneg_left h' ha
    _ = b.quote.amount * (a.quote.amount * c.base.amount) := mul_left_comm _ _ _

theorem lessEq_refl (a : Price) : a.lessEq a = true :=
  (lessEq_iff ⟨rfl, rfl⟩).2 le_rfl

/-- The other way around, prices stand the other way around. -/
theorem lessEq_inverse (hab : a.Of b.base.assetId b.quote.assetId) (h : a.lessEq b = true) :
    b.inverse.lessEq a.inverse = true := by
  rw [lessEq_iff hab] at h
  rw [lessEq_iff ⟨hab.2.symm, hab.1.symm⟩]
  show a.base.amount * b.quote.amount ≤ b.base.amount * a.quote.amount
  rwa [mul_comm, mul_comm b.base.amount]

end Price

/-! ## What is called, and at which price -/

/-- The prices are what the database promises. -/
structure Market.Priced (m : Market) (mia : AssetId) : Prop where
  /-- The limit orders have prices. -/
  limits : ∀ id, ∀ a ∈ m.limitOrders.lookup id, a.WellPriced
  /-- So have the call orders. -/
  calls : ∀ id, ∀ c ∈ m.callOrders.lookup id, c.callPrice.Valid ∧
    c.callPrice.base.amount ≤ maxShareSupply ∧ c.callPrice.quote.amount ≤ maxShareSupply
  /-- The asset is not backed by itself. -/
  ne : ∀ b ∈ m.bitassets mia, mia ≠ b.shortBackingAsset
  /-- The feed, if there is one, is a price of the asset in what backs it. -/
  feed : ∀ b ∈ m.bitassets mia, b.currentFeed.settlementPrice.isNull = false →
    b.currentFeed.settlementPrice.Valid ∧
      b.currentFeed.settlementPrice.Of mia b.shortBackingAsset

namespace BitassetData

variable (b : BitassetData) (mia : AssetId)

/-- A price of the asset in what backs it, at which margin calls may be filled. -/
def Offers (p : Price) : Prop :=
  p.Of mia b.shortBackingAsset ∧
    ∃ lowest ∈ b.currentFeed.maxShortSqueezePrice, lowest.lessEq p = true

/-- A position is margin-callable at a limit order. -/
structure MarginCallable (a : LimitOrder) (c : CallOrder) : Prop where
  /-- There are margin calls. -/
  market : b.isPredictionMarket = false ∧ b.currentFeed.settlementPrice.isNull = false
  /-- The position owes the asset. -/
  owes : c.callPrice.Of b.shortBackingAsset mia
  /-- The feed does not protect it. -/
  feed : b.currentFeed.settlementPrice.lessEq c.callPrice.inverse = true
  /-- The price of the limit order is not above that at which it is called. -/
  price : a.sellPrice.lessEq c.callPrice.inverse = true

end BitassetData

namespace Market

variable (m : Market) (mia : AssetId) (b : BitassetData)

/-- **The best matching limit order**: none that sells the asset has a better price. -/
def BestLimit (id : ℕ) : Prop :=
  ∃ a ∈ m.limitOrders.lookup id, b.Offers mia a.sellPrice ∧
    ∀ j, ∀ a' ∈ m.limitOrders.lookup j, a'.sellPrice.Of mia b.shortBackingAsset →
      a'.sellPrice.lessEq a.sellPrice = true

/-- **No position is margin-callable** at the best matching limit order. -/
def NoneCallable : Prop :=
  ∀ id, m.BestLimit mia b id → ∀ a ∈ m.limitOrders.lookup id, ∀ j, ∀ c ∈ m.callOrders.lookup j,
    ¬b.MarginCallable mia a c

end Market

/-! ## The loop -/

namespace MarginCalls

/-- The states in which the loop is, one iteration after the other. -/
inductive Reached (mia : AssetId) (enable : Bool) (s₀ : MarginCalls) : MarginCalls → Prop where
  /-- The loop starts. -/
  | start : Reached mia enable s₀ s₀
  /-- It goes on. -/
  | step {s s' : MarginCalls} (before : Reached mia enable s₀ s)
      (next : s.next mia enable = some (.inr s')) : Reached mia enable s₀ s'

/-- What is left of a limit order after it has paid `amount` is too small to be sold. -/
def TooSmall (a : LimitOrder) (amount : ℤ) : Prop :=
  (a.pay amount).amountToReceive.map Asset.amount = some 0

instance (a : LimitOrder) (amount : ℤ) : Decidable (TooSmall a amount) :=
  inferInstanceAs (Decidable (_ = _))

/-- **The flag is right**: where a limit order has more for sale than the position owes,
`filled_limit` is set from an iteration before exactly if what is left of the limit order is too
small to be sold; or it is not set, and there is no other position. -/
def Steady (s : MarginCalls) : Prop :=
  ∀ call ∈ s.calls.head?, ∀ c ∈ s.market.callOrders.lookup call, ∀ limit ∈ s.limits.head?,
    ∀ a ∈ s.market.limitOrders.lookup limit, c.debt < a.forSale →
      (s.filledLimit = true ↔ TooSmall a c.debt) ∨ s.filledLimit = false ∧ s.calls.tail = []

instance (s : MarginCalls) : Decidable s.Steady :=
  inferInstanceAs (Decidable (∀ call ∈ s.calls.head?, ∀ c ∈ s.market.callOrders.lookup call,
    ∀ limit ∈ s.limits.head?, ∀ a ∈ s.market.limitOrders.lookup limit, _ → _))

/-- **What is ahead is what there is**: the call orders of the asset, and, as long as there is one,
the limit orders that may fill them, the best price first. -/
structure Live (mia : AssetId) (b : BitassetData) (s : MarginCalls) : Prop where
  /-- The asset is what it was. -/
  bitasset : s.market.bitassets mia = some b
  /-- The prices are what the database promises. -/
  priced : s.market.Priced mia
  /-- There are margin calls. -/
  market : b.isPredictionMarket = false ∧ b.currentFeed.settlementPrice.isNull = false
  /-- The call orders. -/
  calls : IndexRange s.market.callOrders CallOrder.callPrice
    (fun p ↦ p.Of b.shortBackingAsset mia) (fun p q ↦ p.lessEq q = true) s.calls
  /-- The limit orders. -/
  limits : s.calls ≠ [] → IndexRange s.market.limitOrders LimitOrder.sellPrice (b.Offers mia)
    (fun p q ↦ q.lessEq p = true) s.limits

/-- A limit order that is no longer ahead is gone. -/
def Passes (s s' : MarginCalls) : Prop :=
  ∀ id ∈ s.limits, id ∉ s'.limits → s'.market.limitOrders.lookup id = none

/-! ## What one iteration finds -/

variable {mia : AssetId} {b : BitassetData} {enable : Bool} {s s' : MarginCalls}

/-- **Why nothing is filled**: there is no call order, no limit order, or the first of the limit
orders asks for too much. -/
theorem plan_stop_spec (hb : s.market.bitassets mia = some b) (h : s.plan mia = some .stop) :
    s.calls = [] ∨ s.limits = [] ∨ ∃ call calls limit limits c a,
      s.calls = call :: calls ∧ s.limits = limit :: limits ∧
      s.market.callOrders.lookup call = some c ∧ s.market.limitOrders.lookup limit = some a ∧
      (b.currentFeed.settlementPrice.lessEq c.callPrice.inverse = false ∨
        a.sellPrice.lessEq c.callPrice.inverse = false) := by
  rw [plan] at h
  rcases hcalls : s.calls with _ | ⟨call, calls⟩
  · exact .inl rfl
  rcases hlimits : s.limits with _ | ⟨limit, limits⟩
  · exact .inr (.inl rfl)
  simp only [hcalls, hlimits, hb, Option.bind_eq_bind, Option.bind_some, Option.bind_eq_some_iff,
    Option.guard_eq_some', exists_const] at h
  obtain ⟨c, hc, a, ha, -, h⟩ := h
  refine .inr (.inr ⟨call, calls, limit, limits, c, a, rfl, rfl, hc, ha, ?_⟩)
  split_ifs at h with hprotected
  · simpa using hprotected
  simp only [Option.bind_eq_some_iff] at h
  obtain ⟨worth, -, enough, -, h⟩ := h
  split_ifs at h
  · cases h
  obtain ⟨less, -, h⟩ := Option.bind_eq_some_iff.1 h
  split_ifs at h
  · obtain ⟨_, -, h⟩ := Option.bind_eq_some_iff.1 h
    cases h
  · cases h

/-! ## What one iteration does -/

/-- Filling a limit order leaves the market-issued assets as they are. -/
theorem bitassets_fillLimitOrder {m m' : Market} {id : ℕ} {pays receives : Asset}
    {cull filled : Bool} (h : m.fillLimitOrder id pays receives cull = some (m', filled)) :
    m'.bitassets = m.bitassets := by
  simp only [Market.fillLimitOrder, Option.bind_eq_bind, Option.bind_eq_some_iff,
    Option.guard_eq_some', exists_const] at h
  obtain ⟨order, -, -, -, -, -, ⟨m₁, fees⟩, hfees, paid, -, m₂, hm₂, h⟩ := h
  have hm₁ : m₁.bitassets = m.bitassets := by
    simp only [Market.payMarketFees, Option.bind_eq_bind, Option.bind_eq_some_iff] at hfees
    obtain ⟨-, -, hfees⟩ := hfees
    split_ifs at hfees
    all_goals
      obtain ⟨rfl, -⟩ := Prod.mk.inj (Option.some.inj hfees)
      rfl
  have hm₂ : m₂.bitassets = m.bitassets :=
    (Market.moves_adjustBalance hm₂).world.bitassets.trans
      ((Market.moves_addIf _ _ _).world.bitassets.trans hm₁)
  have hm₃ : (if order.deferredFee > 0 then m₂.payDeferredFee order.seller order.deferredFee
      else m₂).bitassets = m.bitassets := by
    split_ifs
    · exact hm₂
    · exact hm₂
  generalize (if order.deferredFee > 0 then _ else m₂) = m₃ at hm₃ h
  split_ifs at h with hall hcull
  · obtain ⟨rfl, -⟩ := Prod.mk.inj (Option.some.inj h)
    exact hm₃
  · have hculled := Market.moves_maybeCullSmallOrder (AList.lookup_insert _) rfl h
    exact hculled.world.bitassets.trans hm₃
  · obtain ⟨rfl, -⟩ := Prod.mk.inj (Option.some.inj h)
    exact hm₃

/-- **What an iteration leaves of the limit order**: if the iterator goes on, the order is gone, and
if it does not, the order is there as long as there is another position. -/
theorem limit_left {m₁ m₂ : Market} {limit : ℕ} {calls : List ℕ} {c : CallOrder} {a : LimitOrder}
    {pays receives : Asset} {filledLimit filled : Bool} (hcalls : s.calls.tail = calls)
    (ha : m₁.limitOrders.lookup limit = some a)
    (hcase : receives = a.amountForSale ∧ filledLimit = true ∨ receives = c.getDebt ∧
      c.debt < a.forSale ∧ filledLimit = s.filledLimit ∧
        ((s.filledLimit = true ↔ TooSmall a c.debt) ∨ s.filledLimit = false ∧ s.calls.tail = []))
    (hm₂ : m₁.fillLimitOrder limit receives pays true = some (m₂, filled)) :
    (∀ a' ∈ m₂.limitOrders.lookup limit, a'.sellPrice = a.sellPrice) ∧
      (filledLimit = true → m₂.limitOrders.lookup limit = none) ∧
      (filledLimit = false → calls ≠ [] → ∃ a', m₂.limitOrders.lookup limit = some a') := by
  obtain ⟨a', ha', -, -, hfilled⟩ := Market.lookup_fillLimitOrder hm₂
  obtain rfl := Option.some.inj (ha.symm.trans ha')
  rcases hfilled with ⟨-, hgone, hwhy⟩ | ⟨-, hpart, hleft, hrest⟩
  · -- It is gone.
    refine ⟨fun a' ha' ↦ ?_, fun _ ↦ hgone, fun hfalse hne ↦ ?_⟩
    · rw [hgone] at ha'
      cases ha'
    rcases hcase with ⟨-, htrue⟩ | ⟨rfl, hlt, hflag, hsteady | ⟨-, hnil⟩⟩
    · cases hfalse.symm.trans htrue
    · have hsmall : ¬TooSmall a c.debt := fun hsmall ↦
        Bool.false_ne_true (hfalse.symm.trans (hflag.trans (hsteady.2 hsmall)))
      rcases hwhy with hall | ⟨-, receive, hreceive, hzero⟩
      · exact absurd (congrArg Asset.amount hall) hlt.ne
      · refine absurd ?_ hsmall
        have hreceive : (a.pay c.debt).amountToReceive = some receive := hreceive
        rw [TooSmall, hreceive, Option.map_some, hzero]
    · exact absurd (hcalls.symm.trans hnil) hne
  · -- Some of it is left.
    refine ⟨fun a' ha' ↦ ?_, fun htrue ↦ ?_, fun _ _ ↦ ⟨_, hleft⟩⟩
    · obtain rfl := Option.some.inj (hleft.symm.trans ha')
      rfl
    obtain ⟨receive, hreceive, hpos⟩ := hrest rfl
    rcases hcase with ⟨rfl, -⟩ | ⟨rfl, -, hflag, hsteady | ⟨hfalse, -⟩⟩
    · exact absurd rfl hpart
    · have hsmall : TooSmall a c.debt := hsteady.1 (hflag.symm.trans htrue)
      have hreceive : (a.pay c.debt).amountToReceive = some receive := hreceive
      rw [TooSmall, hreceive, Option.map_some, Option.some_inj] at hsmall
      exact absurd hsmall hpos.ne'
    · cases htrue.symm.trans (hflag.trans hfalse)

/-- **What an iteration leaves**: each walk goes on by at most one, and no price changes. -/
structure Fills (s s' : MarginCalls) : Prop where
  /-- The market-issued assets are what they were. -/
  bitassets : s'.market.bitassets = s.market.bitassets
  /-- The call orders. -/
  calls : IndexRange.Advances s.market.callOrders s'.market.callOrders CallOrder.callPrice s.calls
    s'.calls
  /-- The limit orders, as long as there is a call order. -/
  limits : s'.calls ≠ [] →
    IndexRange.Advances s.market.limitOrders s'.market.limitOrders LimitOrder.sellPrice s.limits
      s'.limits
  /-- The limit orders that are left are sold for what they were. -/
  price : ∀ id, ∀ a' ∈ s'.market.limitOrders.lookup id, ∃ a ∈ s.market.limitOrders.lookup id,
    a'.sellPrice = a.sellPrice
  /-- Those that are passed are gone. -/
  passes : s.Passes s'

theorem fills_of_next (hsteady : s.Steady) (hnext : s.next mia enable = some (.inr s')) :
    s.Fills s' := by
  obtain ⟨m, settled, hswan, ⟨hr, -⟩ | ⟨hfalse, ⟨p, m', -, -, hr⟩ | hfill⟩⟩ := next_spec hnext
  · cases hr
  · cases hr
  obtain ⟨call, limit, pays, receives, filledCall, filledLimit, m₁, _, m₂, _, hplan, hm₁, hm₂,
    hr⟩ := hfill
  obtain rfl := Sum.inr.inj hr
  obtain rfl := Market.eq_of_calm hswan hfalse
  obtain ⟨calls, limits, c, a, hcalls, hlimits, hc, ha, hid, -, hcase⟩ := plan_fill_spec hplan
  obtain ⟨hle, hmoves, hleft, hsame⟩ := Market.moves_fillCallOrder hm₁ hc
  obtain ⟨_, _, -, htouches, -⟩ := Market.lookup_fillLimitOrder hm₂
  have ha₁ : m₁.limitOrders.lookup limit = some a := hsame ▸ ha
  obtain ⟨hprice, hgone, hthere⟩ := limit_left (c := c) (s := s) (by rw [hcalls, List.tail_cons])
    ha₁ (by
      rcases hcase with ⟨hall, -, -, htrue⟩ | ⟨hdebt, hlt, -, hflag⟩
      · exact .inl ⟨hall, htrue⟩
      · exact .inr ⟨hdebt, hlt, hflag, hsteady call (by rw [hcalls]; rfl) c hc limit
          (by rw [hlimits]; rfl) a ha hlt⟩) hm₂
  have hothers : ∀ j ≠ limit,
      m₂.limitOrders.lookup j = s.market.limitOrders.lookup j := fun j hj ↦ by
    rw [htouches.others j hj, hsame]
  refine ⟨(bitassets_fillLimitOrder hm₂).trans hmoves.world.bitassets, ?_, fun hne ↦ ?_,
    fun id a' ha' ↦ ?_, fun id hid hnot ↦ ?_⟩
  · show IndexRange.Advances _ m₂.callOrders _ _ (if filledCall then s.calls.tail else s.calls)
    have hcalls₂ : m₂.callOrders = Market.callsLeft s.market.callOrders call c pays.amount
        receives.amount hle := htouches.calls.trans hleft
    obtain ⟨hothers', hpaid, hkept⟩ := Market.lookup_callsLeft_of receives.amount hle hc
    rw [← hcalls₂] at hothers' hpaid hkept
    have hfilled : filledCall = true ↔ receives.amount = c.debt := by
      rcases hcase with ⟨rfl, -, hiff, -⟩ | ⟨rfl, -, rfl, -⟩
      · exact hiff.trans eq_comm
      · exact iff_of_true rfl rfl
    cases hflag : filledCall with
    | true =>
      rw [if_pos rfl, hcalls, List.tail_cons]
      exact .next (hpaid (hfilled.1 hflag)) hothers'
    | false =>
      rw [if_neg Bool.false_ne_true]
      refine .modify (hkept fun hall ↦ ?_)
      cases hflag.symm.trans (hfilled.2 hall)
  · show IndexRange.Advances _ m₂.limitOrders _ _ (if filledLimit then s.limits.tail else s.limits)
    cases hflag : filledLimit with
    | true =>
      rw [if_pos rfl, hlimits, List.tail_cons]
      exact .next (hgone hflag) hothers
    | false =>
      rw [if_neg Bool.false_ne_true]
      -- The position is used up, and there is another.
      have hcalls' : calls ≠ [] := by
        rcases hcase with ⟨-, -, -, htrue⟩ | ⟨-, -, rfl, -⟩
        · cases hflag.symm.trans htrue
        · rintro rfl
          exact hne (by rw [if_pos rfl, hcalls, List.tail_cons])
      obtain ⟨a', ha'⟩ := hthere hflag hcalls'
      refine .modify fun j ↦ ?_
      rcases eq_or_ne j limit with rfl | hj
      · rw [ha', ha, Option.map_some, Option.map_some, hprice a' ha']
      · rw [hothers j hj]
  · rcases eq_or_ne id limit with rfl | hne
    · exact ⟨a, ha, hprice a' ha'⟩
    · exact ⟨a', (hothers id hne).symm.trans ha', rfl⟩
  · have hnot : id ∉ if filledLimit then s.limits.tail else s.limits := hnot
    split_ifs at hnot with hflag
    · rw [hlimits] at hid hnot
      obtain rfl := (List.mem_cons.1 hid).resolve_right hnot
      exact hgone hflag
    · exact absurd hid hnot

theorem Fills.priced (hf : s.Fills s') (h : s.market.Priced mia) : s'.market.Priced mia where
  limits id a' ha' := by
    obtain ⟨a, ha, heq⟩ := hf.price id a' ha'
    obtain ⟨hvalid, hle⟩ := h.limits id a ha
    exact ⟨heq ▸ hvalid, heq ▸ hle⟩
  calls id c' hc' := by
    obtain ⟨c, hc, heq⟩ := hf.calls.exists_key hc'
    exact heq ▸ h.calls id c hc
  ne := hf.bitassets ▸ h.ne
  feed := hf.bitassets ▸ h.feed

/-- **An iteration keeps what is ahead what there is**, and passes only limit orders that are
gone. -/
theorem Live.next (h : s.Live mia b) (hsteady : s.Steady)
    (hnext : s.next mia enable = some (.inr s')) : s'.Live mia b ∧ s.Passes s' := by
  have hf := fills_of_next hsteady hnext
  have hcalls := h.calls.advance hf.calls
  refine ⟨⟨hf.bitassets ▸ h.bitasset, hf.priced h.priced, h.market, hcalls, fun hne ↦ ?_⟩,
    hf.passes⟩
  have hne' : s.calls ≠ [] := fun hnil ↦ hne (List.sublist_nil.1 (hnil ▸ hf.calls.sublist))
  exact (h.limits hne').advance (hf.limits hne)

/-! ## Where the loop starts -/

theorem of_maxShortSqueezePrice {feed : PriceFeed} {p : Price}
    (h : feed.maxShortSqueezePrice = some p) :
    0 < p.quote.amount ∧
      p.Of feed.settlementPrice.base.assetId feed.settlementPrice.quote.assetId := by
  rw [PriceFeed.maxShortSqueezePrice] at h
  dsimp only at h
  split_ifs at h
  obtain ⟨-, rfl⟩ := Asset.dividedBy_eq_some.1 h
  exact ⟨Int.natCast_pos.2 (Rat.den_pos _), rfl, rfl⟩

section Ranges

variable {m : Market} {lowest : Price} {backing : AssetId} {calls : List ((_ : ℕ) × CallOrder)}

/-- **The limit orders** from the highest price on are those that offer. -/
theorem range_limitsBetween (h : m.Priced mia)
    (hlowest : b.currentFeed.maxShortSqueezePrice = some lowest)
    (hof : lowest.Of mia b.shortBackingAsset) :
    IndexRange m.limitOrders LimitOrder.sellPrice (b.Offers mia) (fun p q ↦ q.lessEq p = true)
      ((m.limitsBetween ⟨⟨maxShareSupply, mia⟩, ⟨1, b.shortBackingAsset⟩⟩ lowest).map
        Sigma.fst) := by
  have hmem := m.mem_limitsBetween ⟨⟨maxShareSupply, mia⟩, ⟨1, b.shortBackingAsset⟩⟩ lowest
    ⟨rfl, rfl⟩ hof
  have hvalid : m.LimitsValid := fun id a ha ↦ (h.limits id a ha).valid
  refine .of_entries (m.nodup_limitsBetween _ _) (fun e ↦ ⟨fun he ↦ ?_, ?_⟩) ?_
  · obtain ⟨hlookup, hid⟩ := hmem e he
    rw [Market.limitsBetween, List.mem_insertionSort, List.mem_filter, Bool.and_eq_true] at he
    exact ⟨hlookup, hid, lowest, hlowest, he.2.2⟩
  · rintro ⟨hlookup, hid, p, hp, hle⟩
    obtain rfl := Option.some.inj (hlowest.symm.trans hp)
    refine Market.mem_limitsBetween_of hlookup ?_ hle
    have hmax := (h.limits e.1 e.2 hlookup).lessEq_maximum
    rwa [hid.1, hid.2] at hmax
  · refine (Market.pairwise_limitsBetween hvalid ⟨rfl, rfl⟩ hof).imp_of_mem
      fun {x y} hx hy hxy ↦ ?_
    obtain ⟨hlookup, hid⟩ := hmem x hx
    obtain ⟨hlookup', hid'⟩ := hmem y hy
    have hof' : y.2.sellPrice.Of x.2.sellPrice.base.assetId x.2.sellPrice.quote.assetId :=
      ⟨hid'.1.trans hid.1.symm, hid'.2.trans hid.2.symm⟩
    have hkey := (Market.dearestFirst_iff ⟨hof'.1.symm, hof'.2.symm⟩ (hvalid _ _ hlookup)
      (hvalid _ _ hlookup')).1 hxy
    rw [Price.lessEq_iff_ratio hof' (hvalid _ _ hlookup') (hvalid _ _ hlookup)]
    exact neg_le_neg_iff.1 (Prod.Lex.monotone_fst _ _ hkey)

/-- What call orders of one market are sorted by. -/
def callKey (e : (_ : ℕ) × CallOrder) : ℚ ×ₗ ℕ := toLex (e.2.callPrice.ratio, e.1)

theorem calledFirst_iff {x y : (_ : ℕ) × CallOrder}
    (hof : x.2.callPrice.Of y.2.callPrice.base.assetId y.2.callPrice.quote.assetId)
    (hx : x.2.callPrice.Valid) (hy : y.2.callPrice.Valid) :
    Market.calledFirst x y ↔ callKey x ≤ callKey y := by
  rw [Market.calledFirst, Price.less_iff_ratio hof hx hy,
    Price.less_iff_ratio ⟨hof.1.symm, hof.2.symm⟩ hy hx, callKey, callKey, Prod.Lex.toLex_le_toLex,
    not_lt]
  refine or_congr_right' fun hnot ↦ and_congr_left fun _ ↦ ?_
  exact ⟨fun hle ↦ le_antisymm hle (not_lt.1 hnot), fun heq ↦ heq.le⟩

/-- **The call orders** between the extreme prices are those of the asset. -/
theorem range_callsOf (h : m.Priced mia) (hne : backing ≠ mia)
    (hcalls : m.callsOf mia backing = some calls) :
    IndexRange m.callOrders CallOrder.callPrice (fun p ↦ p.Of backing mia)
      (fun p q ↦ p.lessEq q = true) (calls.map Sigma.fst) := by
  obtain ⟨hnodup, hlookup⟩ := Market.mem_callsOf hcalls
  have hof : ∀ e ∈ calls, e.2.callPrice.Of backing mia := fun e he ↦
    Market.callPrice_of_mem_callsOf hne hcalls he
  have heq : calls = m.callsBetween ⟨⟨1, backing⟩, ⟨maxShareSupply, mia⟩⟩
      ⟨⟨maxShareSupply, backing⟩, ⟨1, mia⟩⟩ := by
    rw [Market.callsOf, Price.minimum_of_ne hne, Price.maximum_of_ne hne] at hcalls
    exact (Option.some.inj hcalls).symm
  refine .of_entries hnodup (fun e ↦ ⟨fun he ↦ ⟨hlookup e he, hof e he⟩, ?_⟩) ?_
  · rintro ⟨he, hid⟩
    obtain ⟨⟨hbase, hquote, -⟩, hbase', hquote'⟩ := h.calls e.1 e.2 he
    rw [heq, Market.callsBetween, List.mem_insertionSort, List.mem_filter, Bool.and_eq_true]
    refine ⟨List.of_mem_dlookup he, ?_, ?_⟩
    · rw [Price.lessEq_iff ⟨hid.1.symm, hid.2.symm⟩]
      show e.2.callPrice.quote.amount * 1 ≤ maxShareSupply * e.2.callPrice.base.amount
      exact mul_le_mul hquote' hbase zero_le_one (by decide)
    · rw [Price.lessEq_iff ⟨hid.1, hid.2⟩]
      exact mul_le_mul hquote hbase' hbase.le hquote.le
  · have hpair : calls.Pairwise Market.calledFirst := by
      rw [heq]
      refine pairwise_insertionSort_of_key callKey fun x hx y hy ↦ ?_
      have hx : x ∈ calls := heq ▸ (List.mem_insertionSort _).2 hx
      have hy : y ∈ calls := heq ▸ (List.mem_insertionSort _).2 hy
      exact calledFirst_iff ⟨(hof x hx).1.trans (hof y hy).1.symm,
        (hof x hx).2.trans (hof y hy).2.symm⟩ (h.calls _ _ (hlookup x hx)).1
        (h.calls _ _ (hlookup y hy)).1
    refine hpair.imp_of_mem fun {x y} hx hy hxy ↦ ?_
    have hid : x.2.callPrice.Of y.2.callPrice.base.assetId y.2.callPrice.quote.assetId :=
      ⟨(hof x hx).1.trans (hof y hy).1.symm, (hof x hx).2.trans (hof y hy).2.symm⟩
    have hvalid := (h.calls _ _ (hlookup x hx)).1
    have hvalid' := (h.calls _ _ (hlookup y hy)).1
    have hkey := (calledFirst_iff hid hvalid hvalid').1 hxy
    rw [Price.lessEq_iff_ratio hid hvalid hvalid']
    exact Prod.Lex.monotone_fst _ _ hkey

/-- **Where the loop starts**, all that there is is ahead. -/
theorem live_start (h : m.Priced mia) (hb : m.bitassets mia = some b)
    (hstart : m.startMarginCalls mia b = some (some s)) : s.Live mia b := by
  have hne := h.ne b hb
  rw [Market.startMarginCalls, Price.maximum_of_ne hne] at hstart
  split_ifs at hstart with hmarket
  · cases hstart
  obtain ⟨hprediction, hfeed⟩ := not_or.1 hmarket
  have hmarket : b.isPredictionMarket = false ∧ b.currentFeed.settlementPrice.isNull = false :=
    ⟨Bool.eq_false_of_not_eq_true hprediction, Bool.eq_false_of_not_eq_true hfeed⟩
  simp only [Option.bind_eq_bind, Option.bind_some, Option.bind_eq_some_iff] at hstart
  obtain ⟨lowest, hlowest, hstart⟩ := hstart
  split_ifs at hstart
  · cases hstart
  obtain ⟨calls, hcalls, hstart⟩ := Option.bind_eq_some_iff.1 hstart
  obtain rfl := Option.some.inj (Option.some.inj hstart)
  obtain ⟨-, hof⟩ := h.feed b hb hmarket.2
  obtain ⟨-, hlow⟩ := of_maxShortSqueezePrice hlowest
  exact ⟨hb, h, hmarket, range_callsOf h hne.symm hcalls, fun _ ↦ range_limitsBetween h hlowest
    ⟨hlow.1.trans hof.1, hlow.2.trans hof.2⟩⟩

end Ranges

/-! ## What the loop returns -/

end MarginCalls

namespace Market

variable {m m' : Market} {mia : AssetId} {b : BitassetData} {enable : Bool}

/-- **Nothing is left to be called**: the asset has been settled, or no position is margin-callable
at the best matching limit order. -/
def CallsDone (m : Market) (mia : AssetId) : Prop :=
  ∀ b ∈ m.bitassets mia, b.hasSettlement = true ∨ m.NoneCallable mia b

theorem callsDone_of_globallySettleAsset {price : Price}
    (h : m.globallySettleAsset mia price = some m') : m'.CallsDone mia := by
  obtain ⟨b, _, hb, hsettled, -⟩ := globallySettleAsset_spec h
  intro b' hb'
  obtain rfl := Option.some.inj (hb.symm.trans hb')
  exact .inl hsettled

theorem hasSettlement_of_blackSwan (h : m.blackSwan mia = some .settled) :
    ∃ b, m.bitassets mia = some b ∧ b.hasSettlement = true := by
  rw [blackSwan] at h
  split at h
  · cases h
  rename_i b hb
  split_ifs at h with hsettled
  · exact ⟨b, hb, hsettled⟩
  dsimp only at h
  split_ifs at h
  · cases h
  simp only [Option.bind_eq_bind, Option.bind_eq_some_iff] at h
  obtain ⟨_, -, _, -, calls, -, h⟩ := h
  cases calls with
  | nil => cases h
  | cons call calls =>
    obtain ⟨least, -, h⟩ := Option.bind_eq_some_iff.1 h
    split_ifs at h
    · cases h
    · cases h

/-- An asset that `check_for_blackswan` says is settled has been settled. -/
theorem callsDone_of_checkForBlackswan (h : m.checkForBlackswan mia enable = some (m', true)) :
    m'.CallsDone mia := by
  rcases checkForBlackswan_spec h with ⟨-, -, hfalse⟩ | ⟨hswan, rfl, -⟩ | ⟨price, -, -, hm', -⟩
  · cases hfalse
  · obtain ⟨b, hb, hsettled⟩ := hasSettlement_of_blackSwan hswan
    intro b' hb'
    obtain rfl := Option.some.inj (hb.symm.trans hb')
    exact .inl hsettled
  · exact callsDone_of_globallySettleAsset hm'

end Market

namespace MarginCalls

variable {mia : AssetId} {b : BitassetData} {enable : Bool} {s s' : MarginCalls}

/-- **The heads of what is ahead** are there, and the limit order is the best. -/
theorem Live.heads (h : s.Live mia b) :
    (∀ call ∈ s.calls.head?, (s.market.callOrders.lookup call).isSome) ∧
      (s.calls ≠ [] → ∀ limit ∈ s.limits.head?, s.market.BestLimit mia b limit) := by
  constructor
  · intro call hcall
    obtain ⟨calls, hcalls⟩ := List.head?_eq_some_iff.1 (Option.mem_def.1 hcall)
    have hrange := h.calls
    rw [hcalls] at hrange
    obtain ⟨c, hc, -⟩ := hrange.head Price.lessEq_refl
    exact Option.isSome_of_eq_some hc
  · intro hne limit hlimit
    obtain ⟨limits, hlimits⟩ := List.head?_eq_some_iff.1 (Option.mem_def.1 hlimit)
    have hrange := h.limits hne
    rw [hlimits] at hrange
    obtain ⟨a, ha, hoffers, hbest⟩ := hrange.head Price.lessEq_refl
    refine ⟨a, ha, hoffers, fun j a' ha' hof ↦ ?_⟩
    -- One that has a better price would offer as well.
    by_contra hnot
    obtain ⟨hid, lowest, hlowest, hle⟩ := hoffers
    obtain ⟨hlow, hof'⟩ := of_maxShortSqueezePrice hlowest
    obtain ⟨-, hfeed⟩ := h.priced.feed b h.bitasset h.market.2
    have hvalid := (h.priced.limits _ a ha).valid
    have hvalid' := (h.priced.limits _ a' ha').valid
    have hsame : a'.sellPrice.Of a.sellPrice.base.assetId a.sellPrice.quote.assetId :=
      ⟨hof.1.trans hid.1.symm, hof.2.trans hid.2.symm⟩
    rw [Price.lessEq_iff_ratio hsame hvalid' hvalid, not_le] at hnot
    have hle' : a.sellPrice.lessEq a'.sellPrice = true :=
      (Price.lessEq_iff_ratio ⟨hsame.1.symm, hsame.2.symm⟩ hvalid hvalid').2 hnot.le
    refine absurd ((Price.lessEq_iff_ratio hsame hvalid' hvalid).1 (hbest j a' ha' ⟨hof, lowest,
      hlowest, ?_⟩)) (not_le.2 hnot)
    exact Price.lessEq_trans ⟨hof'.1.trans (hfeed.1.trans hid.1.symm),
      hof'.2.trans (hfeed.2.trans hid.2.symm)⟩ ⟨hsame.1.symm, hsame.2.symm⟩ hlow.le hvalid.2.1
      hvalid'.2.1.le hle hle'

/-- **Where nothing is filled**, nothing can be called at the best price. -/
theorem Live.noneCallable (h : s.Live mia b) (hstop : s.plan mia = some .stop) :
    s.market.NoneCallable mia b := by
  intro id ⟨a, ha, hoffers, hbest⟩ a' ha' j c hc hcallable
  obtain rfl := Option.some.inj (Option.mem_def.1 ha ▸ Option.mem_def.1 ha')
  rcases plan_stop_spec h.bitasset hstop with hnil | hnil | hheads
  · have hrange := h.calls
    rw [hnil] at hrange
    exact hrange.nil j hc hcallable.owes
  · have hne : s.calls ≠ [] := List.ne_nil_of_mem ((h.calls.mem j).2 ⟨c, hc, hcallable.owes⟩)
    have hrange := h.limits hne
    rw [hnil] at hrange
    exact hrange.nil id ha hoffers
  obtain ⟨call, calls, limit, limits, c₀, a₀, hcalls, hlimits, hc₀, ha₀, hnot⟩ := hheads
  have hne : s.calls ≠ [] := by
    rw [hcalls]
    exact List.cons_ne_nil _ _
  have hrange := h.calls
  rw [hcalls] at hrange
  obtain ⟨c', hc', howes, hfirst⟩ := hrange.head Price.lessEq_refl
  obtain rfl := Option.some.inj (hc₀.symm.trans hc')
  have hrange' := h.limits hne
  rw [hlimits] at hrange'
  obtain ⟨a₁, ha₁, hoffers₀, -⟩ := hrange'.head Price.lessEq_refl
  obtain rfl := Option.some.inj (ha₀.symm.trans ha₁)
  -- What is called at a price is called first, and at no better price.
  have hvalid := (h.priced.calls _ c hc).1
  have hvalid₀ := (h.priced.calls _ c₀ hc₀).1
  have hinverse : c.callPrice.inverse.lessEq c₀.callPrice.inverse = true :=
    Price.lessEq_inverse ⟨howes.1.trans hcallable.owes.1.symm,
      howes.2.trans hcallable.owes.2.symm⟩ (hfirst j c hc hcallable.owes)
  have hof : ∀ p : Price, p.Of mia b.shortBackingAsset →
      p.Of c.callPrice.inverse.base.assetId c.callPrice.inverse.quote.assetId := fun p hp ↦
    ⟨hp.1.trans hcallable.owes.2.symm, hp.2.trans hcallable.owes.1.symm⟩
  have hof₀ : c.callPrice.inverse.Of c₀.callPrice.inverse.base.assetId
      c₀.callPrice.inverse.quote.assetId :=
    ⟨hcallable.owes.2.trans howes.2.symm, hcallable.owes.1.trans howes.1.symm⟩
  rcases hnot with hnot | hnot
  · obtain ⟨hfeed, hfeedof⟩ := h.priced.feed b h.bitasset h.market.2
    have hle := Price.lessEq_trans (hof _ hfeedof) hof₀ hfeed.2.1.le hvalid.1 hvalid₀.1.le
      hcallable.feed hinverse
    exact Bool.false_ne_true (hnot.symm.trans hle)
  · have hle := Price.lessEq_trans (hof _ hoffers.1) hof₀
      (h.priced.limits _ a ha).valid.2.1.le hvalid.1 hvalid₀.1.le hcallable.price hinverse
    have hbest₀ := hbest limit a₀ ha₀ hoffers₀.1
    have hle₀ := Price.lessEq_trans ⟨hoffers₀.1.1.trans hoffers.1.1.symm,
      hoffers₀.1.2.trans hoffers.1.2.symm⟩ ⟨(hof _ hoffers.1).1.trans hof₀.1,
      (hof _ hoffers.1).2.trans hof₀.2⟩ (h.priced.limits _ a₀ ha₀).valid.2.1.le
      (h.priced.limits _ a ha).valid.2.1 hvalid₀.1.le hbest₀ hle
    exact Bool.false_ne_true (hnot.symm.trans hle₀)

/-- **What the loop returns**: nothing is left to be called. -/
theorem Live.returns (h : s.Live mia b) {r : Market × Bool}
    (hnext : s.next mia enable = some (.inl r)) : r.1.CallsDone mia := by
  obtain ⟨m, settled, hswan, ⟨hr, hstop⟩ | ⟨-, ⟨p, m', -, hm', hr⟩ | hfill⟩⟩ := next_spec hnext
  · obtain rfl := Sum.inl.inj hr
    cases settled with
    | true => exact Market.callsDone_of_checkForBlackswan hswan
    | false =>
      obtain rfl := Market.eq_of_calm hswan rfl
      intro b' hb'
      obtain rfl := Option.some.inj (h.bitasset.symm.trans hb')
      exact .inr (h.noneCallable (hstop rfl))
  · obtain rfl := Sum.inl.inj hr
    exact Market.callsDone_of_globallySettleAsset hm'
  · obtain ⟨_, _, _, _, _, _, _, _, _, _, -, -, -, hr⟩ := hfill
    cases hr

/-! ## Over a run -/

theorem calls_ne_nil (h : s.next mia enable = some (.inr s')) : s.calls ≠ [] := by
  obtain ⟨m, settled, -, ⟨hr, -⟩ | ⟨-, ⟨p, m', -, -, hr⟩ | hfill⟩⟩ := next_spec h
  · cases hr
  · cases hr
  · obtain ⟨_, _, _, _, _, _, _, _, _, _, hplan, -⟩ := hfill
    exact (plan_fill hplan).1

/-- What is ahead is what there is, in every state that is reached while the flag is right. -/
theorem live_of_reached {s₀ : MarginCalls} (h₀ : s₀.Live mia b)
    (hsteady : ∀ t t', Reached mia enable s₀ t → t.next mia enable = some (.inr t') → t.Steady)
    (h : Reached mia enable s₀ s) : s.Live mia b := by
  induction h with
  | start => exact h₀
  | step before next ih => exact (ih.next (hsteady _ _ before next) next).1

/-- What the loop returns, it returns from a state that it reaches. -/
theorem reached_of_run {r : Market × Bool} (h : s.run mia enable = some r) :
    ∃ t, Reached mia enable s t ∧ t.next mia enable = some (.inl r) := by
  induction s using MarginCalls.run.induct mia enable with
  | case1 s hnext =>
    rw [run, hnext] at h
    cases h
  | case2 s r' hnext =>
    rw [run, hnext] at h
    obtain rfl := Option.some.inj h
    exact ⟨s, .start, hnext⟩
  | case3 s s' hnext ih =>
    rw [run, hnext] at h
    obtain ⟨t, ht, hr⟩ := ih h
    refine ⟨t, ?_, hr⟩
    clear h ih hr
    induction ht with
    | start => exact .step .start hnext
    | step _ next ih => exact .step ih next

/-- Where the loop is not entered, there is nothing to call. -/
theorem noneCallable_of_start {m : Market} (h : m.Priced mia) (hb : m.bitassets mia = some b)
    (hstart : m.startMarginCalls mia b = some none) : m.NoneCallable mia b := by
  intro id ⟨a, ha, hoffers, hbest⟩ a' _ j c hc hcallable
  have hne := h.ne b hb
  obtain ⟨hprediction, hfeed⟩ := hcallable.market
  rw [Market.startMarginCalls, Price.maximum_of_ne hne, hprediction, hfeed,
    if_neg (by simp)] at hstart
  simp only [Option.bind_eq_bind, Option.bind_some, Option.bind_eq_some_iff] at hstart
  obtain ⟨lowest, hlowest, hstart⟩ := hstart
  split_ifs at hstart with hempty
  · obtain ⟨-, hof⟩ := h.feed b hb hfeed
    obtain ⟨-, hlow⟩ := of_maxShortSqueezePrice hlowest
    have hrange := range_limitsBetween h hlowest ⟨hlow.1.trans hof.1, hlow.2.trans hof.2⟩
    rw [List.isEmpty_iff.1 hempty] at hrange
    exact hrange.nil id ha hoffers
  · obtain ⟨calls, -, hstart⟩ := Option.bind_eq_some_iff.1 hstart
    cases hstart

end MarginCalls

/-- **Margin-call matching stays on live orders** in every run in which the flag is right.  What is
ahead of the iterators is what there is; what they stand at is there, and the limit order is the
best; it is passed only when it is gone.  What is returned has been settled, or leaves nothing to be
called at the best matching limit order. -/
theorem check_call_orders_live {m : Market} {mia : AssetId} {enable : Bool} (h : m.Priced mia)
    (hsteady : ∀ b ∈ m.bitassets mia, ∀ s₀, m.startMarginCalls mia b = some (some s₀) →
      ∀ s s', MarginCalls.Reached mia enable s₀ s → s.next mia enable = some (.inr s') →
        s.Steady) :
    (∀ b ∈ m.bitassets mia, ∀ s₀, m.startMarginCalls mia b = some (some s₀) →
      ∀ s, MarginCalls.Reached mia enable s₀ s → s.Live mia b ∧
        (∀ call ∈ s.calls.head?, (s.market.callOrders.lookup call).isSome) ∧
        (s.calls ≠ [] → ∀ limit ∈ s.limits.head?, s.market.BestLimit mia b limit) ∧
        ∀ s', s.next mia enable = some (.inr s') → s.Passes s') ∧
    ∀ m' called, m.checkCallOrders mia enable = some (m', called) → m'.CallsDone mia := by
  have hlive : ∀ b ∈ m.bitassets mia, ∀ s₀, m.startMarginCalls mia b = some (some s₀) →
      ∀ s, MarginCalls.Reached mia enable s₀ s → s.Live mia b := fun b hb s₀ hs₀ s hs ↦
    MarginCalls.live_of_reached (MarginCalls.live_start h hb hs₀) (hsteady b hb s₀ hs₀) hs
  constructor
  · intro b hb s₀ hs₀ s hs
    have hs' := hlive b hb s₀ hs₀ s hs
    obtain ⟨hcall, hlimit⟩ := hs'.heads
    exact ⟨hs', hcall, hlimit, fun s' hnext ↦ (hs'.next (hsteady b hb s₀ hs₀ s s' hs hnext)
      hnext).2⟩
  · intro m' called hreturn
    rcases Market.checkCallOrders_spec hreturn with ⟨hnone, rfl⟩ |
      ⟨b, m₁, settled, hb, hswan, hrest⟩
    · intro b hb
      cases hnone.symm.trans hb
    cases settled with
    | true =>
      rcases hrest with ⟨rfl, -⟩ | ⟨hfalse, -⟩
      · exact Market.callsDone_of_checkForBlackswan hswan
      · cases hfalse
    | false =>
      obtain rfl := Market.eq_of_calm hswan rfl
      rcases hrest with ⟨rfl, hstart⟩ | ⟨-, s₀, hstart, hrun⟩
      · intro b' hb'
        obtain rfl := Option.some.inj (hb.symm.trans hb')
        exact .inr (MarginCalls.noneCallable_of_start h hb (hstart rfl))
      · obtain ⟨t, ht, hnext⟩ := MarginCalls.reached_of_run hrun
        exact (hlive b hb s₀ hstart t ht).returns hnext

/-! ## Flags that are right, and flags that are wrong -/

/-- Two of the first asset for a core. -/
def twoForOne : Price := ⟨⟨2, 1⟩, ⟨1, coreAsset⟩⟩

/-- A core for three of the first asset. -/
def oneForThree : Price := ⟨⟨1, coreAsset⟩, ⟨3, 1⟩⟩

/-- An amount of the first asset is for sale. -/
def sellerOf (amount : ℤ) : LimitOrder := ⟨9, 7, amount, twoForOne, 0⟩

/-- An amount of the first asset is owed, for thirty core. -/
def owerOf (debt : ℤ) : CallOrder := ⟨6, 30, Int.natCast_nonneg 30, debt, oneForThree⟩

/-- The first asset is worth a core. -/
def worthOneCore : BitassetData :=
  ⟨coreAsset, 0, ⟨⟨⟨1, 1⟩, ⟨1, coreAsset⟩⟩, 1500⟩, false, ⟨⟨0, coreAsset⟩, ⟨0, coreAsset⟩⟩, 0⟩

/-- A market of the first asset, with an order for each amount. -/
def marginMarket (limits calls : List ℤ) : Market :=
  { twoSellers with
    limitOrders := (limits.zipIdx.map fun e ↦ ⟨e.2, sellerOf e.1⟩).toAList
    callOrders := (calls.zipIdx.map fun e ↦ ⟨e.2, owerOf e.1⟩).toAList
    bitassets := fun id ↦ if id = 1 then some worthOneCore else none }

theorem eq_of_lookup {α : Type*} {f : ℤ → α} {l : List ℤ} {id : ℕ} {x : α}
    (h : (l.zipIdx.map fun e ↦ (⟨e.2, f e.1⟩ : (_ : ℕ) × α)).toAList.lookup id = some x) :
    ∃ amount, x = f amount := by
  rw [AList.lookup_to_alist] at h
  obtain ⟨e, -, heq⟩ := List.mem_map.1 (List.of_mem_dlookup (Option.mem_def.2 h))
  cases heq
  exact ⟨e.1, rfl⟩

theorem marginMarket_priced (limits calls : List ℤ) : (marginMarket limits calls).Priced 1 where
  limits id a ha := by
    obtain ⟨amount, rfl⟩ := eq_of_lookup ha
    exact ⟨show twoForOne.Valid by decide, show twoForOne.base.amount ≤ maxShareSupply by decide⟩
  calls id c hc := by
    obtain ⟨amount, rfl⟩ := eq_of_lookup hc
    exact show oneForThree.Valid ∧ oneForThree.base.amount ≤ maxShareSupply ∧
      oneForThree.quote.amount ≤ maxShareSupply by decide
  ne b hb := by
    obtain rfl := Option.some.inj hb
    decide
  feed b hb _ := by
    obtain rfl := Option.some.inj hb
    exact ⟨⟨by decide, by decide, by decide⟩, rfl, rfl⟩

deriving instance DecidableEq for Price, PriceFeed, BitassetData, LimitOrder

namespace MarginCalls

/-- The flag is right in each of the next iterations, after which nothing is left to call. -/
def steadyFor (mia : AssetId) : ℕ → MarginCalls → Bool
  | 0, s => decide (s.calls = [])
  | fuel + 1, s => decide s.Steady &&
    match s.next mia true with
    | some (.inr s') => steadyFor mia fuel s'
    | _ => true

theorem steady_of_steadyFor {mia : AssetId} {fuel : ℕ} {s₀ s : MarginCalls}
    (h : steadyFor mia fuel s₀ = true) (hs : Reached mia true s₀ s) : s.Steady := by
  have hleft : ∃ k, steadyFor mia k s = true := by
    induction hs with
    | start => exact ⟨fuel, h⟩
    | @step t t' _ next ih =>
      obtain ⟨k, hk⟩ := ih
      cases k with
      | zero => exact absurd (of_decide_eq_true hk) (calls_ne_nil next)
      | succ k =>
        rw [steadyFor, next, Bool.and_eq_true] at hk
        exact ⟨k, hk.2⟩
  obtain ⟨k, hk⟩ := hleft
  cases k with
  | zero =>
    intro call hcall
    rw [of_decide_eq_true hk] at hcall
    cases hcall
  | succ k =>
    rw [steadyFor, Bool.and_eq_true] at hk
    exact of_decide_eq_true hk.1

end MarginCalls

/-- Two limit orders fill two positions: the first order pays the first position and what it can of
the second, and the other order pays the rest. -/
theorem check_call_orders_live_two :
    ∃ m', (marginMarket [10, 10] [4, 16]).checkCallOrders 1 true = some (m', true) ∧
      m'.limitOrders.keys = [] ∧ m'.callOrders.keys = [] ∧ m'.CallsDone 1 := by
  have hsteady : ∀ b ∈ (marginMarket [10, 10] [4, 16]).bitassets 1, ∀ s₀,
      (marginMarket [10, 10] [4, 16]).startMarginCalls 1 b = some (some s₀) → ∀ s s',
        MarginCalls.Reached 1 true s₀ s → s.next 1 true = some (.inr s') → s.Steady := by
    intro b hb s₀ hs₀ s s' hs _
    obtain rfl := Option.some.inj hb
    have hfor : ((marginMarket [10, 10] [4, 16]).startMarginCalls 1 worthOneCore).map
        (fun o ↦ o.map (MarginCalls.steadyFor 1 3)) = some (some true) := by
      decide +kernel
    rw [hs₀] at hfor
    exact MarginCalls.steady_of_steadyFor (Option.some.inj (Option.some.inj hfor)) hs
  have hreturns : ((marginMarket [10, 10] [4, 16]).checkCallOrders 1 true).map (fun r ↦
      (r.1.limitOrders.keys, r.1.callOrders.keys, r.2)) = some ([], [], true) := by
    decide +kernel
  obtain ⟨⟨m', called⟩, hm', heq⟩ := Option.map_eq_some_iff.1 hreturns
  obtain ⟨hlimits, hcalls, rfl⟩ : m'.limitOrders.keys = [] ∧ m'.callOrders.keys = [] ∧
      called = true := by
    simpa using heq
  exact ⟨m', hm', hlimits, hcalls,
    (check_call_orders_live (marginMarket_priced [10, 10] [4, 16]) hsteady).2 m' true hm'⟩

/-- Where two limit orders fill a position together, the second is passed with most of it left, and
a position that could be called at it is not; and where what a position leaves of a limit order is
too small, the loop goes on with a limit order that is gone. -/
theorem check_call_orders_skips :
    ((marginMarket [10, 100] [15, 5]).Priced 1 ∧ ∃ m',
      (marginMarket [10, 100] [15, 5]).checkCallOrders 1 true = some (m', true) ∧
        ¬m'.CallsDone 1) ∧
    (marginMarket [10] [9, 5]).Priced 1 ∧ ∃ s₀ s,
      (marginMarket [10] [9, 5]).startMarginCalls 1 worthOneCore = some (some s₀) ∧
      MarginCalls.Reached 1 true s₀ s ∧ s.calls ≠ [] ∧
      ∃ limit ∈ s.limits.head?, s.market.limitOrders.lookup limit = none := by
  refine ⟨⟨marginMarket_priced _ _, ?_⟩, marginMarket_priced _ _, ?_⟩
  · have hreturns : ((marginMarket [10, 100] [15, 5]).checkCallOrders 1 true).map (fun r ↦
        (r.1.limitOrders.entries, r.1.bitassets 1,
          (r.1.callOrders.lookup 1).map CallOrder.callPrice, r.2)) =
        some ([⟨1, sellerOf 95⟩], some worthOneCore, some (owerOf 5).callPrice, true) := by
      decide +kernel
    obtain ⟨⟨m', called⟩, hm', heq⟩ := Option.map_eq_some_iff.1 hreturns
    obtain ⟨hlimits, hb, hcall, rfl⟩ : m'.limitOrders.entries = [⟨1, sellerOf 95⟩] ∧
        m'.bitassets 1 = some worthOneCore ∧
        (m'.callOrders.lookup 1).map CallOrder.callPrice = some (owerOf 5).callPrice ∧
        called = true := by
      simpa using heq
    have hlookup : ∀ id, ∀ a ∈ m'.limitOrders.lookup id, id = 1 ∧ a = sellerOf 95 := by
      intro id a ha
      have hmem := List.of_mem_dlookup ha
      rw [hlimits] at hmem
      cases List.mem_singleton.1 hmem
      exact ⟨rfl, rfl⟩
    have ha : m'.limitOrders.lookup 1 = some (sellerOf 95) :=
      List.mem_dlookup m'.limitOrders.nodupKeys (by rw [hlimits]; exact List.mem_singleton_self _)
    obtain ⟨c, hc, hprice⟩ := Option.map_eq_some_iff.1 hcall
    refine ⟨m', hm', fun hdone ↦ ?_⟩
    rcases hdone worthOneCore hb with hsettled | hnone
    · revert hsettled
      decide
    · refine hnone 1 ⟨sellerOf 95, ha, ⟨⟨rfl, rfl⟩, ⟨⟨2, 1⟩, ⟨3, coreAsset⟩⟩, ?_, by decide⟩, ?_⟩
        _ ha 1 c hc ⟨⟨rfl, by decide⟩, ?_, ?_, ?_⟩
      · decide +kernel
      · rintro j a' ha' -
        obtain ⟨-, rfl⟩ := hlookup j a' ha'
        decide
      · rw [hprice]
        exact ⟨rfl, rfl⟩
      · rw [hprice]
        decide
      · rw [hprice]
        decide
  · have hchain : (((marginMarket [10] [9, 5]).startMarginCalls 1 worthOneCore).bind id).bind
        (fun s₀ ↦ (s₀.next 1 true).bind fun r ↦ r.elim (fun _ ↦ none) fun s ↦
          some (s.calls, s.limits, (s.market.limitOrders.lookup 0).isNone)) =
        some ([1], [0], true) := by
      decide +kernel
    obtain ⟨s₀, hs₀, hnext⟩ := Option.bind_eq_some_iff.1 hchain
    obtain ⟨r, hr, hs⟩ := Option.bind_eq_some_iff.1 hnext
    obtain ⟨o, ho, rfl⟩ := Option.bind_eq_some_iff.1 hs₀
    cases r with
    | inl r => cases hs
    | inr s =>
      obtain ⟨hcalls, hrest⟩ := Prod.mk.inj (Option.some.inj hs)
      obtain ⟨hlimits, hnone⟩ := Prod.mk.inj hrest
      refine ⟨s₀, s, ho, .step .start hr, ?_, 0, ?_, Option.isNone_iff_eq_none.1 hnone⟩
      · rw [hcalls]
        exact List.cons_ne_nil _ _
      · rw [hlimits]
        rfl

end Graphene
