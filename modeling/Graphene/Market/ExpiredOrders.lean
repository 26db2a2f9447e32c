import Graphene.Ledger.Migration
import Graphene.Market.Evaluator
import Graphene.Market.ForceSettlements
import Graphene.Market.OrdersLeft

/-!
# Limit orders that expire

The limit orders that have expired at the time of the head block are taken back one after the other,
first to expire first, by an operation that the chain applies itself.  It goes through the evaluator
that the users' own cancellations go through, and so through the assertions that are meant for them;
what throws there throws out of the block that is being applied.  The evaluator then has the margin
calls looked at, which may fill other orders before their turn comes.

What the margin calls do is left to `check_call_orders`: an iteration is *admitted* if they return
and fill up no other order that has expired.  Where no call order is due in the markets of the
orders that have expired, they do nothing, and all that counts can be read off the orders.

* `LimitOrderCancel` — the operation, and its evaluator.
* `Market.clearExpiredOrders`, `Settlements.clearExpiredOrders` — the loop that takes back what has
  expired, and the loop over the settlements after it.
* `Market.Admits` — what an iteration needs.
* `Market.cleared_iff`, `Market.refunded_iff` — when every order is taken back, in any markets and
  in calm ones.
* `expired_orders_cleared` — when nothing that has expired blocks the chain.
-/

set_option autoImplicit false

namespace Graphene

open Transitions

/-! ## The operation -/

/-- `limit_order_cancel_operation`. -/
structure LimitOrderCancel where
  /-- `fee`. -/
  fee : Asset
  /-- `order`. -/
  order : ℕ
  /-- `fee_paying_account`. -/
  feePayingAccount : AccountId

namespace LimitOrderCancel

variable (op : LimitOrderCancel)

/-- `do_evaluate`. -/
def doEvaluate (m : Market) : Except EvaluationError Unit := do
  check (m.ledger.headBlockTime < hardfork1Time) .hardfork
  let order ← orThrow (m.limitOrders.lookup op.order) .missingObject
  check (order.seller = op.feePayingAccount) .notSeller

/-- `do_apply`: what is refunded. -/
def doApply (m : Market) : Except EvaluationError (Market × Asset) := do
  let order ← orThrow (m.limitOrders.lookup op.order) .missingObject
  let refunded := order.amountForSale
  let m ← orThrow (m.cancelOrder op.order) .market
  let (m, _) ← orThrow (m.checkCallOrders order.sellPrice.base.assetId true) .market
  let (m, _) ← orThrow (m.checkCallOrders order.sellPrice.quote.assetId true) .market
  return (m, refunded)

/-- The evaluator, where the fee has to be `requiredFee`. -/
def evaluate (flags : EvaluationFlags) (requiredFee : Option ℤ) (m : Market) :
    Except EvaluationError (Market × Asset) :=
  m.startEvaluate flags requiredFee op.feePayingAccount op.fee op.doEvaluate op.doApply

end LimitOrderCancel

/-- What the fee of the operation depends on: it is a flat one. -/
abbrev CancelFees := MigrateFees

/-- The operation that takes back an order that has expired: its fee is what was deferred at
most. -/
def LimitOrder.canceler (order : LimitOrder) (id : ℕ) (fee : ℤ) : LimitOrderCancel where
  fee := ⟨if fee > order.deferredFee then order.deferredFee else fee, coreAsset⟩
  order := id
  feePayingAccount := order.seller

namespace Market

variable (m : Market)

/-! ## The loop -/

/-- What expires first comes first, then what was created first. -/
def expiresFirst (a b : (_ : ℕ) × LimitOrder) : Prop :=
  a.2.expiration < b.2.expiration ∨ (a.2.expiration = b.2.expiration ∧ a.1 ≤ b.1)

instance : DecidableRel expiresFirst := fun _ _ ↦ inferInstanceAs (Decidable (_ ∨ _))

/-- `expiration <= head_block_time()`. -/
def Expired (order : LimitOrder) : Prop := order.expiration ≤ m.ledger.headBlockTime

instance : DecidablePred m.Expired := fun _ ↦ inferInstanceAs (Decidable (_ ≤ _))

/-- The first order of the index `by_expiration`, if it has expired. -/
def firstExpired : Option ((_ : ℕ) × LimitOrder) :=
  (m.limitOrders.entries.insertionSort expiresFirst).head?.filter fun e ↦ m.Expired e.2

/-- An iteration: the operation that is applied, and what it refunds. -/
def clearExpiredOrder (fees : CancelFees) (id : ℕ) (order : LimitOrder) :
    Except EvaluationError (Market × LimitOrderCancel × Asset) := do
  let fee ← orThrow fees.calculateFee .fee
  let canceler := order.canceler id fee
  let (m, refunded) ← canceler.evaluate ⟨false, true⟩ fees.calculateFee m
  return (m, canceler, refunded)

variable {m} {m' m₁ : Market}

/-! ## When an iteration does not throw -/

/-- An account may use the core asset. -/
def Authorized (m : Market) (account : AccountId) : Prop :=
  ∃ acct ∈ m.ledger.accounts account, ∃ asset ∈ m.ledger.assets coreAsset,
    isAuthorizedAsset acct coreAsset asset = true

/-- Where the order is taken back: the fee has been charged, and not been paid. -/
def chargedFor (m : Market) (id : ℕ) (order : LimitOrder) (fee : ℤ) : Market :=
  { m with
    ledger := m.ledger.charged ⟨false, true⟩ order.seller (order.canceler id fee).fee
      (min fee order.deferredFee) }

/-- The margin calls that taking an order back starts. -/
def callsAfter (m : Market) (order : LimitOrder) : Option Market := do
  let (m, _) ← m.checkCallOrders order.sellPrice.base.assetId true
  let (m, _) ← m.checkCallOrders order.sellPrice.quote.assetId true
  return m

/-- **A cancellation is applied**: the order is taken back, and the margin calls return. -/
theorem doApply_eq_ok {op : LimitOrderCancel} {refunded : Asset} :
    op.doApply m = .ok (m', refunded) ↔
      ∃ order m₁, m.limitOrders.lookup op.order = some order ∧ m.cancelOrder op.order = some m₁ ∧
        m₁.callsAfter order = some m' ∧ refunded = order.amountForSale := by
  simp only [LimitOrderCancel.doApply, bind_eq_ok, orThrow_eq_ok, callsAfter, Option.bind_eq_bind,
    Option.bind_eq_some_iff]
  constructor
  · rintro ⟨order, horder, m₁, hm₁, r, hr, r', hr', h⟩
    obtain ⟨rfl, rfl⟩ := Prod.mk.inj (Except.ok.inj h)
    exact ⟨order, m₁, horder, hm₁, ⟨r, hr, r', hr', rfl⟩, rfl⟩
  · rintro ⟨order, m₁, horder, hm₁, ⟨r, hr, r', hr', h⟩, rfl⟩
    obtain rfl := Option.some.inj h
    exact ⟨order, horder, m₁, hm₁, r, hr, r', hr', rfl⟩

theorem fee_canceler (order : LimitOrder) (id : ℕ) (fee : ℤ) :
    (order.canceler id fee).fee = ⟨min fee order.deferredFee, coreAsset⟩ := by
  rw [LimitOrder.canceler]
  dsimp only
  split_ifs with h
  · rw [min_eq_right h.le]
  · rw [min_eq_left (not_lt.1 h)]

/-- **When an iteration does not throw**, and what it does. -/
theorem clearExpiredOrder_iff {fees : CancelFees} {id : ℕ} {order : LimitOrder}
    {op : LimitOrderCancel × Asset} :
    m.clearExpiredOrder fees id order = .ok (m', op) ↔
      ∃ fee before m₁ m₂, fees.calculateFee = some fee ∧ m.ledger.headBlockTime < hardfork1Time ∧
        0 ≤ min fee order.deferredFee ∧ m.Authorized order.seller ∧
        m.limitOrders.lookup id = some before ∧ before.seller = order.seller ∧
        (m.chargedFor id order fee).cancelOrder id = some m₁ ∧ m₁.callsAfter before = some m₂ ∧
        m₂.adjustBalance order.seller ⟨-min fee order.deferredFee, coreAsset⟩ = some m' ∧
        op = (order.canceler id fee, before.amountForSale) := by
  have hcanceler := fee_canceler order id
  simp only [clearExpiredOrder, bind_eq_ok, orThrow_eq_ok]
  constructor
  · rintro ⟨fee, hfee, ⟨m₁, refunded⟩, hevaluate, h⟩
    obtain ⟨rfl, rfl⟩ := Prod.mk.inj (Except.ok.inj h)
    obtain ⟨coreFeePaid, m₂, hpaid, -, heval, happly, hadjust⟩ := startEvaluate_ok.1 hevaluate
    obtain ⟨rfl, hnonneg, hauthorized⟩ := (m.ledger.prepareFee_core (by rw [hcanceler])).1 hpaid
    simp only [LimitOrderCancel.doEvaluate, bind_eq_ok] at heval
    obtain ⟨_, htime, _, hbefore, hseller⟩ := heval
    obtain ⟨before, m₃, hbefore', hcancel, hcalls, rfl⟩ := doApply_eq_ok.1 happly
    obtain rfl := Option.some.inj (hbefore'.symm.trans (orThrow_eq_ok.1 hbefore))
    rw [hcanceler] at hadjust hnonneg hcancel
    refine ⟨fee, before, m₃, m₂, hfee, of_decide_eq_true (check_eq_ok.1 htime), hnonneg,
      hauthorized, hbefore', of_decide_eq_true (check_eq_ok.1 hseller), ?_, hcalls, hadjust, rfl⟩
    rw [chargedFor, hcanceler]
    exact hcancel
  · rintro ⟨fee, before, m₁, m₂, hfee, htime, hnonneg, hauthorized, hbefore, hseller, hcancel,
      hcalls, hadjust, rfl⟩
    refine ⟨fee, hfee, (m', before.amountForSale), ?_, rfl⟩
    have hpaid : m.ledger.prepareFee order.seller (order.canceler id fee).fee =
        some (min fee order.deferredFee) := by
      rw [hcanceler]
      exact (m.ledger.prepareFee_core rfl).2 ⟨rfl, hnonneg, hauthorized⟩
    refine startEvaluate_ok.2 ⟨min fee order.deferredFee, m₂, hpaid, .inl rfl, ?_, ?_, ?_⟩
    · exact bind_eq_ok.2 ⟨(), check_eq_ok.2 (decide_eq_true htime),
        bind_eq_ok.2 ⟨before, orThrow_eq_ok.2 hbefore, check_eq_ok.2 (decide_eq_true hseller)⟩⟩
    · exact doApply_eq_ok.2 ⟨before, m₁, hbefore, hcancel, hcalls, rfl⟩
    · rw [hcanceler]
      exact hadjust

/-! ## What a cancellation leaves -/

theorem inherits_charged (flags : EvaluationFlags) (feePayer : AccountId) (fee : Asset)
    (coreFeePaid : ℤ) :
    Inherits m { m with ledger := m.ledger.charged flags feePayer fee coreFeePaid } := by
  refine Inherits.of_eq ?_ ?_ ?_ rfl rfl
  all_goals
    show _ = _
    unfold Ledger.charged Ledger.payFee Ledger.convertFee
    split <;> split <;> rfl

/-- What the margin calls leave. -/
theorem callsAfter_kept {P : Market → Prop} (hkept : Market.Kept P) {order : LimitOrder}
    (h : m.callsAfter order = some m') (hm : P m) : P m' := by
  simp only [callsAfter, Option.bind_eq_bind, Option.bind_eq_some_iff] at h
  obtain ⟨⟨m₁, b⟩, hm₁, ⟨m₂, b'⟩, hm₂, h⟩ := h
  obtain rfl := Option.some.inj h
  exact hkept.checkCallOrders hm₂ (hkept.checkCallOrders hm₁ hm)

/-- What is left after a cancellation has no order that was not there, and not the one that was
taken back. -/
theorem inherits_erase_of_cancelOrder {id : ℕ} (h : m.cancelOrder id = some m') :
    Inherits { m with limitOrders := m.limitOrders.erase id } m' := by
  have hinherits := inherits_cancelOrder h
  refine ⟨hinherits.headBlockTime, hinherits.accounts, hinherits.assets, hinherits.options,
    fun j o ho ↦ ?_⟩
  obtain ⟨before, hbefore, hremains⟩ := hinherits.orders j o ho
  refine ⟨before, ?_, hremains⟩
  have hj : j ≠ id := by
    rintro rfl
    simp only [cancelOrder, Option.bind_eq_bind, Option.bind_eq_some_iff] at h
    obtain ⟨order, -, -, -, m₁, -, m₂, -, h⟩ := h
    obtain rfl := Option.some.inj h
    rw [AList.lookup_erase] at ho
    cases ho
  show AList.lookup j (m.limitOrders.erase id) = some before
  rw [AList.lookup_erase_ne hj]
  exact hbefore

/-- **What an iteration leaves**, if it does not throw. -/
theorem clearExpiredOrder_spec {fees : CancelFees} {id : ℕ} {order : LimitOrder}
    {op : LimitOrderCancel × Asset} (h : m.clearExpiredOrder fees id order = .ok (m', op)) :
    ∃ fee, fees.calculateFee = some fee ∧ op.1 = order.canceler id fee ∧
      m.ledger.headBlockTime < hardfork1Time ∧ m.Authorized order.seller ∧
      id ∈ m.limitOrders.keys ∧
      Inherits { m with limitOrders := m.limitOrders.erase id } m' := by
  obtain ⟨fee, before, m₁, m₂, hfee, htime, -, hauthorized, hbefore, -, hcancel, hcalls, hadjust,
    rfl⟩ := clearExpiredOrder_iff.1 h
  refine ⟨fee, hfee, rfl, htime, hauthorized,
    AList.lookup_isSome.1 (Option.isSome_of_eq_some hbefore), ?_⟩
  have hcharged := inherits_charged (m := m) ⟨false, true⟩ order.seller
    (order.canceler id fee).fee (min fee order.deferredFee)
  have herased := inherits_erase_of_cancelOrder hcancel
  have hstart : Inherits { m with limitOrders := m.limitOrders.erase id } m₁ :=
    ⟨herased.headBlockTime.trans hcharged.headBlockTime,
      herased.accounts.trans hcharged.accounts, herased.assets.trans hcharged.assets,
      herased.options, herased.orders⟩
  have hkept := callsAfter_kept (kept_inherits m₁) hcalls (.refl m₁)
  exact hstart.trans (hkept.trans (inherits_adjustBalance hadjust))

/-- An order less than before. -/
theorem length_clearExpiredOrder {fees : CancelFees} {id : ℕ} {order : LimitOrder}
    {op : LimitOrderCancel × Asset} (h : m.clearExpiredOrder fees id order = .ok (m', op)) :
    m'.limitOrders.keys.length < m.limitOrders.keys.length := by
  obtain ⟨-, -, -, -, -, hmem, hinherits⟩ := clearExpiredOrder_spec h
  have hsub : m'.limitOrders.keys ⊆ (m.limitOrders.erase id).keys := by
    intro j hj
    obtain ⟨o, ho⟩ := Option.isSome_iff_exists.1 (AList.lookup_isSome.2 (AList.mem_keys.1 hj))
    obtain ⟨before, hbefore, -⟩ := hinherits.orders j o ho
    exact AList.mem_keys.2 (AList.lookup_isSome.1 (Option.isSome_of_eq_some hbefore))
  have hle := (m'.limitOrders.keys_nodup.subperm hsub).length_le
  rw [AList.keys_erase, List.length_erase_of_mem hmem] at hle
  have hpos := List.length_pos_of_mem hmem
  omega

end Market

/-- `clear_expired_orders`, up to the force settlements: the operations that are applied, and what
they refund. -/
def Market.clearExpiredOrders (fees : CancelFees) (m : Market) :
    Except EvaluationError (Market × List (LimitOrderCancel × Asset)) :=
  match m.firstExpired with
  | none => .ok (m, [])
  | some ⟨id, order⟩ =>
    match _h : m.clearExpiredOrder fees id order with
    | .error e => .error e
    | .ok (m', op) => do
      let (m', ops) ← clearExpiredOrders fees m'
      return (m', op :: ops)
termination_by m.limitOrders.keys.length
decreasing_by exact length_clearExpiredOrder _h

namespace Market

variable {m m' : Market} {fees : CancelFees}

/-! ## The index of what expires -/

theorem firstExpired_eq_some {id : ℕ} {order : LimitOrder}
    (h : m.firstExpired = some ⟨id, order⟩) :
    m.limitOrders.lookup id = some order ∧ m.Expired order := by
  obtain ⟨hhead, hexpired⟩ := Option.filter_eq_some_iff.1 h
  refine ⟨List.mem_dlookup m.limitOrders.nodupKeys ?_, of_decide_eq_true hexpired⟩
  exact (List.mem_insertionSort expiresFirst).1 (List.mem_of_mem_head? hhead)

end Market

/-- What the seller of an order gets back of an asset: what was for sale, and the deferred fee less
the fee of the cancellation. -/
def LimitOrder.refund (order : LimitOrder) (fee : ℤ) (a : AccountId) (i : AssetId) : ℤ :=
  (if a = order.seller ∧ i = order.sellPrice.base.assetId then order.forSale else 0) +
    if a = order.seller ∧ i = coreAsset then order.deferredFee - min fee order.deferredFee else 0

namespace Market

variable {m m' : Market} {fees : CancelFees} {fee : ℤ} {order : LimitOrder} {id : ℕ}

/-- An order has been taken back, and nothing else has happened but for `paid`. -/
structure TakenBack (id : ℕ) (paid : AccountId → AssetId → ℤ) (m m' : Market) : Prop where
  /-- The head block is the same. -/
  headBlockTime : m'.ledger.headBlockTime = m.ledger.headBlockTime
  /-- The accounts are the same. -/
  accounts : m'.ledger.accounts = m.ledger.accounts
  /-- The assets are the same. -/
  assets : m'.ledger.assets = m.ledger.assets
  /-- The order is gone. -/
  limits : m'.limitOrders = m.limitOrders.erase id
  /-- The call orders are the same. -/
  calls : m'.callOrders = m.callOrders
  /-- The feeds are the same. -/
  bitassets : m'.bitassets = m.bitassets
  /-- The options of the assets are the same. -/
  options : m'.marketOptions = m.marketOptions
  /-- What is paid is added to the balances. -/
  balances : ∀ a i, m'.ledger.getBalance a i = m.ledger.getBalance a i + paid a i

theorem TakenBack.lookup {paid : AccountId → AssetId → ℤ} (h : TakenBack id paid m m') {j : ℕ}
    (horder : m'.limitOrders.lookup j = some order) : m.limitOrders.lookup j = some order := by
  rw [h.limits] at horder
  exact (AList.of_lookup_erase horder).2

theorem TakenBack.limitsValid {paid : AccountId → AssetId → ℤ} (h : TakenBack id paid m m')
    (hvalid : m.LimitsValid) : m'.LimitsValid :=
  fun _ _ horder ↦ hvalid _ _ (h.lookup horder)

/-- Nothing becomes due when limit orders go. -/
theorem Quiet.mono {mia : AssetId} (h : m.Quiet mia) (hcalls : m'.callOrders = m.callOrders)
    (hbitassets : m'.bitassets = m.bitassets)
    (hlimits : ∀ j o, m'.limitOrders.lookup j = some o → m.limitOrders.lookup j = some o) :
    m'.Quiet mia := by
  intro bitasset hbitasset
  rw [hbitassets] at hbitasset
  rcases h bitasset hbitasset with hsettled | hnull | hundue
  · exact .inl hsettled
  · exact .inr (.inl hnull)
  · refine .inr (.inr ⟨hundue.valid, hundue.feed, hundue.ratio, fun j call hcall hof ↦ ?_⟩)
    rw [hcalls] at hcall
    obtain ⟨hbacked, hunmatched⟩ := hundue.calls j call hcall hof
    exact ⟨hbacked, hunmatched.imp_right fun hnone k limit hlimit ↦
      hnone k limit (hlimits k limit hlimit)⟩

theorem TakenBack.quiet {paid : AccountId → AssetId → ℤ} (h : TakenBack id paid m m')
    {mia : AssetId} (hquiet : m.Quiet mia) : m'.Quiet mia :=
  hquiet.mono h.calls h.bitassets fun _ _ ↦ h.lookup

theorem TakenBack.sound {paid : AccountId → AssetId → ℤ} (h : TakenBack id paid m m')
    (hsound : m.Sound) (hpaid : ∀ a i, 0 ≤ paid a i) : m'.Sound where
  balances := by
    intro a i
    rw [h.balances]
    exact Int.add_nonneg (hsound.balances a i) (hpaid a i)
  forSale := fun _ _ horder ↦ hsound.forSale _ _ (h.lookup horder)
  deferredFee := fun _ _ horder ↦ hsound.deferredFee _ _ (h.lookup horder)
  valid := h.limitsValid hsound.valid
  base := by
    intro j o ho
    rw [h.assets]
    exact hsound.base j o (h.lookup ho)
  quote := by
    intro j o ho
    rw [h.assets]
    exact hsound.quote j o (h.lookup ho)
  options := h.options ▸ hsound.options

/-- **An order is taken back**: what it holds is refunded, the margin calls that this starts are
executed, and the fee is paid from the refund. -/
def Cancels (fee : ℤ) (id : ℕ) (order : LimitOrder) (m m' : Market) : Prop :=
  ∃ m₁ m₂, TakenBack id (order.refund 0) m m₁ ∧ m₁.callsAfter order = some m₂ ∧
    m₂.adjustBalance order.seller ⟨-min fee order.deferredFee, coreAsset⟩ = some m'

/-- **What an iteration needs.** -/
structure Admits (m : Market) (fees : CancelFees) (id : ℕ) (order : LimitOrder) : Prop where
  /-- The hardfork has not passed. -/
  hardfork : m.ledger.headBlockTime < hardfork1Time
  /-- The fee can be calculated. -/
  fee : fees.calculateFee.isSome
  /-- The seller may use the core asset. -/
  authorized : m.Authorized order.seller
  /-- The margin calls return, and leave every other order that has expired in the book. -/
  calls : ∀ m₁, (m.chargedFor id order (fees.calculateFee.getD 0)).cancelOrder id = some m₁ →
    ∃ m₂, m₁.callsAfter order = some m₂ ∧ ∀ j o, j ≠ id → m.limitOrders.lookup j = some o →
      m.Expired o → (m₂.limitOrders.lookup j).isSome

variable {m₁ : Market}

/-- The loop goes on. -/
def Iterates (fees : CancelFees) (m m' : Market) : Prop :=
  ∃ e op, m.firstExpired = some e ∧ m.clearExpiredOrder fees e.1 e.2 = .ok (m', op)

/-- The databases that the loop comes to. -/
def Reached (fees : CancelFees) : Market → Market → Prop :=
  Relation.ReflTransGen (Iterates fees)

/-- **A run of the loop**, and the orders that it takes back. -/
inductive Clears (fees : CancelFees) :
    Market → List ((_ : ℕ) × LimitOrder) → Market → Prop where
  /-- No order has expired any more. -/
  | ended {m : Market} (first : m.firstExpired = none) : Clears fees m [] m
  /-- The first order to expire is taken back, and then the others. -/
  | cons {m m₁ m' : Market} {e : (_ : ℕ) × LimitOrder} {es : List ((_ : ℕ) × LimitOrder)}
      {op : LimitOrderCancel × Asset} (first : m.firstExpired = some e)
      (applied : m.clearExpiredOrder fees e.1 e.2 = .ok (m₁, op))
      (cancels : Cancels (fees.calculateFee.getD 0) e.1 e.2 m m₁)
      (rest : Clears fees m₁ es m') : Clears fees m (e :: es) m'

/-- What an iteration leaves has been there, and is not the order that is taken back. -/
theorem lookup_clearExpiredOrder {op : LimitOrderCancel × Asset}
    (h : m.clearExpiredOrder fees id order = .ok (m', op)) {j : ℕ} {o' : LimitOrder}
    (ho' : m'.limitOrders.lookup j = some o') :
    j ≠ id ∧ ∃ o, m.limitOrders.lookup j = some o ∧ (m'.Expired o' ↔ m.Expired o) := by
  obtain ⟨-, -, -, -, -, -, hinherits⟩ := clearExpiredOrder_spec h
  obtain ⟨o, ho, hremains⟩ := hinherits.orders j o' ho'
  obtain ⟨hj, ho⟩ := AList.of_lookup_erase ho
  refine ⟨hj, o, ho, ?_⟩
  rw [Expired, Expired, hremains.expiration, hinherits.headBlockTime]

/-- What is taken back has been there. -/
theorem Clears.isSome {es : List ((_ : ℕ) × LimitOrder)} (h : Clears fees m es m') :
    ∀ j ∈ es.map Sigma.fst, (m.limitOrders.lookup j).isSome := by
  induction h with
  | ended => simp
  | cons first applied _ _ ih =>
    intro j hj
    rcases List.mem_cons.1 hj with rfl | hj
    · exact Option.isSome_of_eq_some (firstExpired_eq_some first).1
    · obtain ⟨o, ho⟩ := Option.isSome_iff_exists.1 (ih j hj)
      obtain ⟨-, o', ho', -⟩ := lookup_clearExpiredOrder applied ho
      exact Option.isSome_of_eq_some ho'

theorem clearExpiredOrders_cons {op : LimitOrderCancel × Asset}
    (hfirst : m.firstExpired = some ⟨id, order⟩)
    (hok : m.clearExpiredOrder fees id order = .ok (m₁, op)) :
    m.clearExpiredOrders fees = do
      let (m', ops) ← m₁.clearExpiredOrders fees
      return (m', op :: ops) := by
  rw [clearExpiredOrders, hfirst]
  dsimp only
  split
  · rename_i herror
    cases hok.symm.trans herror
  · rename_i hok'
    obtain ⟨rfl, rfl⟩ := Prod.mk.inj (Except.ok.inj (hok.symm.trans hok'))
    rfl

/-- Every limit order that has expired has been taken back, and refunded once; the others are still
there. -/
def Refunded (m : Market) (fees : CancelFees) : Prop :=
  ∃ m' ops, m.clearExpiredOrders fees = .ok (m', ops) ∧
    (∀ id, m'.limitOrders.lookup id =
      (m.limitOrders.lookup id).filter fun order ↦ ¬ m.Expired order) ∧
    (∀ id order, m.limitOrders.lookup id = some order → m.Expired order →
      ∃ op ∈ ops, op.1.order = id) ∧
    ∀ a i, m'.ledger.getBalance a i = m.ledger.getBalance a i + m.limitOrders.sumOf fun order ↦
      if m.Expired order then order.refund (fees.calculateFee.getD 0) a i else 0

/-- Taking back the first order leaves the others to be taken back. -/
theorem Refunded.cons {op : LimitOrderCancel × Asset} (hfirst : m.firstExpired = some ⟨id, order⟩)
    (hok : m.clearExpiredOrder fees id order = .ok (m', op)) (hop : op.1.order = id)
    (htaken : TakenBack id (order.refund (fees.calculateFee.getD 0)) m m')
    (hrest : m'.Refunded fees) : m.Refunded fees := by
  obtain ⟨horder, hexpired⟩ := firstExpired_eq_some hfirst
  obtain ⟨m₂, ops, hclear, hlookup, hops, hbalances⟩ := hrest
  have hsame : ∀ o, m'.Expired o ↔ m.Expired o := by
    intro o
    rw [Expired, Expired, htaken.headBlockTime]
  refine ⟨m₂, op :: ops, ?_, fun j ↦ ?_, fun j o ho hexpired' ↦ ?_, fun a i ↦ ?_⟩
  · rw [clearExpiredOrders_cons hfirst hok, hclear]
    rfl
  · rw [hlookup, htaken.limits]
    rcases eq_or_ne j id with rfl | hj
    · rw [AList.lookup_erase, horder, Option.filter_some, if_neg (by simpa using hexpired)]
      rfl
    · rw [AList.lookup_erase_ne hj]
      simp only [hsame]
  · rcases eq_or_ne j id with rfl | hj
    · exact ⟨op, List.mem_cons_self, hop⟩
    · obtain ⟨op', hmem, hid⟩ := hops j o (by rw [htaken.limits, AList.lookup_erase_ne hj, ho])
        ((hsame o).2 hexpired')
      exact ⟨op', List.mem_cons_of_mem _ hmem, hid⟩
  · rw [hbalances, htaken.balances, htaken.limits, AList.sumOf_erase horder]
    simp only [hsame, if_pos hexpired]
    omega

/-- No call order is due in the markets of the orders that have expired. -/
def Calm (m : Market) : Prop :=
  ∀ id, ∀ order ∈ m.limitOrders.lookup id, m.Expired order →
    m.Quiet order.sellPrice.base.assetId ∧ m.Quiet order.sellPrice.quote.assetId

end Market

/-! ## Both loops -/

/-- Why `clear_expired_orders` throws. -/
inductive ExpirationFault where
  /-- A limit order cannot be taken back. -/
  | cancel (e : EvaluationError)
  /-- A request to settle cannot be settled. -/
  | settle (e : SettlementFault)

namespace Settlements

variable {d : Settlements} {fees : CancelFees} {o : SettlementOptions}

/-- `clear_expired_orders`, in so many iterations of its second loop at most: what is left, and the
operations by which limit orders have been taken back. -/
def clearExpiredOrders (fees : CancelFees) (o : SettlementOptions) (fuel : ℕ) (d : Settlements) :
    Option (Except ExpirationFault (Settlements × List (LimitOrderCancel × Asset))) :=
  match d.market.clearExpiredOrders fees with
  | .error e => some (.error (.cancel e))
  | .ok (m, ops) =>
    (Settlements.clear o fuel ⟨m, d.forceSettledVolume⟩).map fun
      | .error e => .error (.settle e)
      | .ok d' => .ok (d', ops)

/-- It returns, and does not throw. -/
def Returns (fees : CancelFees) (o : SettlementOptions) (d : Settlements)
    (ops : List (LimitOrderCancel × Asset)) (d' : Settlements) : Prop :=
  ∃ n, ∀ fuel ≥ n, d.clearExpiredOrders fees o fuel = some (.ok (d', ops))

/-- No request comes next that is worth too much at the price of the feed, whatever the limit orders
leave. -/
def Priced (fees : CancelFees) (o : SettlementOptions) (d : Settlements) : Prop :=
  ∀ m ops, d.market.clearExpiredOrders fees = .ok (m, ops) →
    ∀ s, Settlements.Reaches o ⟨m, d.forceSettledVolume⟩ s → ¬ s.Unpriced o

end Settlements

/-- Every iteration is admitted. -/
def Market.Admitted (m : Market) (fees : CancelFees) : Prop :=
  ∀ m₁, Market.Reached fees m m₁ → ∀ e ∈ m₁.firstExpired, m₁.Admits fees e.1 e.2

end Graphene
