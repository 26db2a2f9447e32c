import Mathlib.Algebra.Order.BigOperators.Group.List
import Graphene.Vesting.LazyDeposits

/-!
# Cashback

Accounts are paid cashback one after the other, and what the accounts of the chain itself are to get
is burned.

A payment goes to the vesting balance that the account had for it last, or to a new one.  What is
counted here therefore follows the account and not the balance: what it holds in all its vesting
balances, and what of that is cashback.

* `Cashback` — a payment; `VestingDatabase.depositCashbacks` — one after the other.
* `VestingDatabase.heldBy` — the core shares that an account has in vesting balances;
  `VestingDatabase.cashbackBalance` — those that more cashback is added to.
* `VestingDatabase.Deposited` — what payments do of all these.
* `VestingDatabase.Reached.depositCashbacks_ok_iff` — when payments go through.
-/

set_option autoImplicit false

namespace Graphene

open Transitions

/-- What an account is to get. -/
structure Cashback where
  /-- The account. -/
  acct : AccountId
  /-- The core shares. -/
  amount : ℤ
  /-- `require_vesting`. -/
  requireVesting : Bool

namespace Cashback

variable (c : Cashback)

/-- What is burned of it. -/
def burned : ℤ := if isChainAccount c.acct then c.amount else 0

/-- What the account `x` is paid of it. -/
def paidTo (x : AccountId) : ℤ :=
  if isChainAccount c.acct then 0 else if x = c.acct then c.amount else 0

/-- The seconds that come with shares that are free fit. -/
def SecondsFit (period : UInt32) : Prop :=
  isChainAccount c.acct = true ∨ c.requireVesting = true ∨ FitsInt64 (c.amount * period.toNat)

/-- It fits, when the supply is `supply`, and it is added to `balance`. -/
def Fits (period : UInt32) (supply : ℤ) (balance : AccountId → ℤ) : Prop :=
  c.SecondsFit period ∧ FitsInt64 (supply - c.burned) ∧
    FitsInt64 (balance c.acct + c.paidTo c.acct)

/-- The amount is a `share_type`, and not negative. -/
def Valid : Prop := 0 ≤ c.amount ∧ c.amount < 2 ^ 63

/-- What is burned of payments. -/
def allBurned (cs : List Cashback) : ℤ := (cs.map burned).sum

/-- What the account `x` is paid. -/
def allPaidTo (cs : List Cashback) (x : AccountId) : ℤ := (cs.map fun c ↦ c.paidTo x).sum

/-- **Payments fit**, when the supply is `supply`, and they are added to `balance`. -/
structure AllFit (cs : List Cashback) (period : UInt32) (supply : ℤ) (balance : AccountId → ℤ) :
    Prop where
  /-- The seconds fit. -/
  seconds : ∀ c ∈ cs, c.SecondsFit period
  /-- What is left of the supply fits. -/
  supply : FitsInt64 (supply - allBurned cs)
  /-- What more is added to fits with it. -/
  balances : ∀ x, FitsInt64 (balance x + allPaidTo cs x)

end Cashback

namespace VestingDatabase

variable (d d' : VestingDatabase) (period now : UInt32)

/-- `deposit_cashback`, for one payment after the other. -/
def depositCashbacks : List Cashback → Except Fault VestingDatabase :=
  List.foldlM (fun d c ↦ d.depositCashback c.amount period c.requireVesting now c.acct) d

/-- The core shares of the account `x` in vesting balances. -/
def heldBy (x : AccountId) : ℤ :=
  d.objects.sumOf fun vbo ↦
    if vbo.owner = x ∧ vbo.balance.assetId = coreAsset then vbo.balance.amount else 0

/-- The core shares that cashback of the account `x` is added to. -/
def cashbackBalance (x : AccountId) : ℤ :=
  match (d.cashbackVb x).bind fun id ↦ d.objects.lookup id with
  | none => 0
  | some vbo => if vbo.suits period x then vbo.balance.amount else 0

/-- **What payments do**: what is burned leaves the supply, and every account has what it is paid in
addition to what it had. -/
structure Deposited (burned : ℤ) (paidTo : AccountId → ℤ) : Prop where
  /-- The supply. -/
  supply : d'.currentSupply = d.currentSupply - burned
  /-- What the accounts have. -/
  held : ∀ x, d'.heldBy x = d.heldBy x + paidTo x
  /-- What more cashback is added to. -/
  cashback : ∀ x, d'.cashbackBalance period x = d.cashbackBalance period x + paidTo x

/-! ## Where payments go -/

variable {d d' : VestingDatabase} {period now : UInt32} {acct : AccountId} {amount : ℤ} {id : ℕ}
  {vbo vbo' : VestingBalanceObject}

theorem Deposited.refl (d : VestingDatabase) (period : UInt32) :
    d.Deposited d period 0 fun _ ↦ 0 where
  supply := (Int.sub_zero _).symm
  held _ := (Int.add_zero _).symm
  cashback _ := (Int.add_zero _).symm

theorem Deposited.trans {d'' : VestingDatabase} {b b' : ℤ} {p p' : AccountId → ℤ}
    (h : d.Deposited d' period b p) (h' : d'.Deposited d'' period b' p') :
    d.Deposited d'' period (b + b') fun x ↦ p x + p' x where
  supply := by rw [h'.supply, h.supply, Int.sub_sub]
  held x := by rw [h'.held, h.held, Int.add_assoc]
  cashback x := by rw [h'.cashback, h.cashback, Int.add_assoc]

theorem cashbackBalance_of_some (hvb : d.cashbackVb acct = some id)
    (hvbo : d.objects.lookup id = some vbo) :
    d.cashbackBalance period acct = if vbo.suits period acct then vbo.balance.amount else 0 := by
  rw [cashbackBalance, hvb, Option.bind_some, hvbo]

theorem cashbackBalance_congr (hvb : d'.cashbackVb acct = d.cashbackVb acct)
    (hobjects : ∀ id, d.cashbackVb acct = some id → d'.objects.lookup id = d.objects.lookup id) :
    d'.cashbackBalance period acct = d.cashbackBalance period acct := by
  rw [cashbackBalance, cashbackBalance, hvb]
  cases hid : d.cashbackVb acct with
  | none => rfl
  | some id => rw [Option.bind_some, Option.bind_some, hobjects id hid]

theorem cashbackBalance_of_none
    (hnone : d.lazyBalance (d.cashbackVb acct) period acct = .ok none) :
    d.cashbackBalance period acct = 0 := by
  cases hvb : d.cashbackVb acct with
  | none => rw [cashbackBalance, hvb, Option.bind_none]
  | some id =>
    rw [hvb] at hnone
    obtain ⟨vbo, hvbo, htarget⟩ := bind_eq_ok.1 hnone
    rw [cashbackBalance_of_some hvb (orThrow_eq_ok.1 hvbo), if_neg]
    intro hsuits
    rw [if_pos hsuits] at htarget
    cases htarget

theorem suits_of_lazyBalance
    (hsome : d.lazyBalance (d.cashbackVb acct) period acct = .ok (some (id, vbo))) :
    d.objects.lookup id = some vbo ∧ vbo.suits period acct = true := by
  rcases lazyBalance_eq_ok hsome with hnone | ⟨j, vbo', hsome, -, hvbo, hsuits⟩
  · cases hnone
  · obtain ⟨rfl, rfl⟩ := Prod.mk.inj (Option.some.inj hsome)
    exact ⟨hvbo, hsuits⟩

theorem owner_of_suits (h : vbo.suits period acct = true) : vbo.owner = acct :=
  eq_of_beq (Bool.and_eq_true_iff.1 h).1

/-- More is added to a balance that there is. -/
theorem deposited_insert (hvb : d.cashbackVb acct = some id)
    (hvbo : d.objects.lookup id = some vbo) (hsuits : vbo.suits period acct = true)
    (hcore : vbo.balance.assetId = coreAsset) (hsuits' : vbo'.suits period acct = true)
    (hbalance : vbo'.balance = ⟨vbo.balance.amount + amount, coreAsset⟩) :
    d.Deposited { d with objects := d.objects.insert id vbo' } period 0
      fun x ↦ if x = acct then amount else 0 where
  supply := (Int.sub_zero _).symm
  held x := by
    rw [heldBy, AList.sumOf_insert hvbo, owner_of_suits hsuits, owner_of_suits hsuits', hcore,
      hbalance, ← heldBy]
    by_cases hx : x = acct
    · rw [if_pos ⟨hx.symm, rfl⟩, if_pos ⟨hx.symm, rfl⟩, if_pos hx]
      dsimp only
      omega
    · rw [if_neg fun h ↦ hx h.1.symm, if_neg fun h ↦ hx h.1.symm, if_neg hx]
      omega
  cashback x := by
    have hafter (hid : d.cashbackVb x = some id) :
        ({ d with objects := d.objects.insert id vbo' } : VestingDatabase).cashbackBalance
          period x = if vbo'.suits period x then vbo'.balance.amount else 0 :=
      cashbackBalance_of_some hid (AList.lookup_insert _)
    by_cases hx : x = acct
    · subst hx
      rw [hafter hvb, cashbackBalance_of_some hvb hvbo, if_pos hsuits, if_pos hsuits', if_pos rfl,
        hbalance]
    · rw [if_neg hx, Int.add_zero]
      by_cases hid : d.cashbackVb x = some id
      · -- the balance is not one of this account
        rw [hafter hid, cashbackBalance_of_some hid hvbo,
          if_neg fun h ↦ hx ((owner_of_suits h).symm.trans (owner_of_suits hsuits)),
          if_neg fun h ↦ hx ((owner_of_suits h).symm.trans (owner_of_suits hsuits'))]
      · refine cashbackBalance_congr rfl fun j hj ↦ AList.lookup_insert_ne ?_
        rintro rfl
        exact hid hj

/-- A balance is made. -/
theorem deposited_create (hfresh : d.objects.lookup d.nextId = none)
    (hlt : ∀ x id, d.cashbackVb x = some id → id < d.nextId)
    (hzero : d.cashbackBalance period acct = 0) (hsuits : vbo.suits period acct = true)
    (hbalance : vbo.balance = ⟨amount, coreAsset⟩) :
    d.Deposited { d.create vbo with
      cashbackVb := Function.update d.cashbackVb acct (some d.nextId) } period 0
      fun x ↦ if x = acct then amount else 0 where
  supply := (Int.sub_zero _).symm
  held x := by
    show AList.sumOf (d.objects.insert d.nextId vbo) _ = _
    rw [AList.sumOf_insert_new hfresh, owner_of_suits hsuits, hbalance, ← heldBy]
    by_cases hx : x = acct
    · rw [if_pos ⟨hx.symm, rfl⟩, if_pos hx]
    · rw [if_neg fun h ↦ hx h.1.symm, if_neg hx]
  cashback x := by
    by_cases hx : x = acct
    · subst hx
      rw [hzero, Int.zero_add, if_pos rfl,
        cashbackBalance_of_some (Function.update_self ..) (AList.lookup_insert _), if_pos hsuits,
        hbalance]
    · rw [if_neg hx, Int.add_zero]
      refine cashbackBalance_congr (Function.update_of_ne hx ..) fun j hj ↦ ?_
      exact AList.lookup_insert_ne (hlt x j hj).ne

/-! ## What holds of every database -/

/-- The ids that are still to be given out are not in use. -/
def Fresh (d : VestingDatabase) : Prop := ∀ id, d.nextId ≤ id → d.objects.lookup id = none

theorem Fresh.insert (h : d.Fresh) (hlt : id < d.nextId) (vbo : VestingBalanceObject) :
    ({ d with objects := d.objects.insert id vbo } : VestingDatabase).Fresh := fun j hj ↦
  (AList.lookup_insert_ne (hlt.trans_le hj).ne').trans (h j hj)

theorem Fresh.create (h : d.Fresh) (vbo : VestingBalanceObject) : (d.create vbo).Fresh :=
  fun _ hj ↦ (AList.lookup_insert_ne (Nat.lt_of_succ_le hj).ne').trans (h _ (Nat.le_of_succ_le hj))

theorem Fresh.lt (h : d.Fresh) (hvbo : d.objects.lookup id = some vbo) : id < d.nextId := by
  by_contra hle
  cases (h id (Nat.le_of_not_lt hle)).symm.trans hvbo

theorem Fresh.depositLazyVesting {ovbid newVbid : Option ℕ} {requireVesting : Bool}
    (h : d.Fresh)
    (hdeposit : d.depositLazyVesting ovbid amount period acct requireVesting now =
      .ok (newVbid, d')) : d'.Fresh := by
  rw [VestingDatabase.depositLazyVesting] at hdeposit
  by_cases hzero : amount = 0
  · rw [if_pos hzero] at hdeposit
    obtain rfl := (Prod.mk.inj (Except.ok.inj hdeposit)).2
    exact h
  · rw [if_neg hzero] at hdeposit
    obtain ⟨target, htarget, hmade⟩ := bind_eq_ok.1 hdeposit
    rcases lazyBalance_eq_ok htarget with rfl | ⟨id, vbo, rfl, rfl, hvbo, -⟩
    · obtain ⟨vbo, -, hok⟩ := bind_eq_ok.1 hmade
      obtain rfl := (Prod.mk.inj (Except.ok.inj hok)).2
      exact h.create vbo
    · clear hdeposit
      cases requireVesting with
      | true =>
        obtain ⟨vbo', -, hok⟩ := bind_eq_ok.1 hmade
        obtain rfl := (Prod.mk.inj (Except.ok.inj hok)).2
        exact h.insert (h.lt hvbo) vbo'
      | false =>
        obtain ⟨vbo', -, hok⟩ := bind_eq_ok.1 hmade
        obtain rfl := (Prod.mk.inj (Except.ok.inj hok)).2
        exact h.insert (h.lt hvbo) vbo'

theorem Fresh.depositCashback {requireVesting : Bool} (h : d.Fresh)
    (hdeposit : d.depositCashback amount period requireVesting now acct = .ok d') : d'.Fresh := by
  rw [VestingDatabase.depositCashback] at hdeposit
  split_ifs at hdeposit
  · obtain rfl := Except.ok.inj hdeposit
    exact h
  · obtain ⟨supply, -, hdeposit⟩ := bind_eq_ok.1 hdeposit
    obtain rfl := Except.ok.inj hdeposit
    exact h
  · obtain ⟨⟨newVbid, d₁⟩, hlazy, hdeposit⟩ := bind_eq_ok.1 hdeposit
    obtain rfl := Except.ok.inj hdeposit
    have hfresh := h.depositLazyVesting hlazy
    cases newVbid with
    | none => exact hfresh
    | some id => exact hfresh

theorem Fresh.depositWitnessPay {wit : ℕ} (h : d.Fresh)
    (hdeposit : d.depositWitnessPay amount period now wit acct = .ok d') : d'.Fresh := by
  rw [VestingDatabase.depositWitnessPay] at hdeposit
  split_ifs at hdeposit
  · obtain rfl := Except.ok.inj hdeposit
    exact h
  · obtain ⟨⟨newVbid, d₁⟩, hlazy, hdeposit⟩ := bind_eq_ok.1 hdeposit
    obtain rfl := Except.ok.inj hdeposit
    have hfresh := h.depositLazyVesting hlazy
    cases newVbid with
    | none => exact hfresh
    | some id => exact hfresh

theorem Fresh.withdraw {owner : AccountId} {amount : Asset} (h : d.Fresh)
    (hwithdraw : d.withdraw now id owner amount = .ok d') : d'.Fresh := by
  obtain ⟨vbo, hvbo, hwithdraw⟩ := bind_eq_ok.1 hwithdraw
  split_ifs at hwithdraw
  obtain ⟨allowed, -, hwithdraw⟩ := bind_eq_ok.1 hwithdraw
  split_ifs at hwithdraw
  obtain ⟨vbo', -, hwithdraw⟩ := bind_eq_ok.1 hwithdraw
  obtain rfl := Except.ok.inj hwithdraw
  exact h.insert (h.lt (orThrow_eq_ok.1 hvbo)) vbo'

theorem Reached.fresh (h : Reached d now) : d.Fresh := by
  induction h with
  | genesis => exact fun _ _ ↦ rfl
  | wait _ _ ih => exact ih
  | create vbo _ ih => exact ih.create vbo
  | cashback acct amount vestingSeconds requireVesting _ _ _ hdeposit ih =>
    exact ih.depositCashback hdeposit
  | witnessPay wit witnessAccount amount vestingSeconds _ _ _ hdeposit ih =>
    exact ih.depositWitnessPay hdeposit
  | withdraw id owner amount _ _ hwithdraw ih => exact ih.withdraw hwithdraw

/-- What there is of the balance that cashback goes to is a `share_type`, and not negative. -/
theorem Reached.cashbackBalance_bounds (h : Reached d now) (period : UInt32) (acct : AccountId) :
    0 ≤ d.cashbackBalance period acct ∧ d.cashbackBalance period acct < 2 ^ 63 := by
  cases hvb : d.cashbackVb acct with
  | none =>
    rw [cashbackBalance, hvb]
    exact ⟨le_rfl, Int.one_pos.trans_le (by decide)⟩
  | some id =>
    obtain ⟨-, vbo, hvbo, p, hp, -, -, hsound⟩ := h.lazy.kept id (.inl ⟨acct, hvb⟩)
    rw [cashbackBalance_of_some hvb hvbo]
    split_ifs
    · exact ⟨hsound.nonneg, hsound.fits⟩
    · exact ⟨le_rfl, by decide⟩

end VestingDatabase

/-! ## A payment -/

namespace VestingBalanceObject

variable {vbo vbo' : VestingBalanceObject} {p : CddVestingPolicy} {period now : UInt32}
  {acct : AccountId} {amount : ℤ} {requireVesting : Bool}

/-- What is added to a balance, free at once or to be held. -/
def add (vbo : VestingBalanceObject) (amount : ℤ) (requireVesting : Bool) (now : UInt32) :
    Except Fault VestingBalanceObject :=
  if requireVesting then vbo.deposit now ⟨amount, coreAsset⟩
  else vbo.depositVested now ⟨amount, coreAsset⟩

theorem fits_mul_period_iff (hpos : 0 ≤ amount) (hfits : amount < 2 ^ 63) :
    FitsInt64 (amount * p.period) ↔ FitsInt64 (amount * p.vestingSeconds.toNat) := by
  by_cases hzero : p.vestingSeconds = 0
  · refine iff_of_true ?_ ?_
    · rw [CddVestingPolicy.period_eq_max, hzero, UInt32.toNat_zero, Nat.zero_max, Nat.cast_one,
        Int.mul_one]
      exact ⟨by omega, hfits⟩
    · rw [hzero, UInt32.toNat_zero, Nat.cast_zero, Int.mul_zero]
      decide
  · rw [CddVestingPolicy.period_of_ne_zero hzero]

/-- **More is added** exactly if the sum fits, and the seconds of what is to be free do. -/
theorem add_cases (hsound : p.Sound vbo.balance now) (hp : vbo.policy = .cdd p)
    (hcore : vbo.balance.assetId = coreAsset) (hpos : 0 ≤ amount) (hfits : amount < 2 ^ 63)
    (requireVesting : Bool) :
    ((FitsInt64 (vbo.balance.amount + amount) ∧
        (requireVesting = true ∨ FitsInt64 (amount * p.vestingSeconds.toNat))) ∧
      ∃ q : CddVestingPolicy, q.vestingSeconds = p.vestingSeconds ∧
        vbo.add amount requireVesting now =
          .ok ⟨vbo.owner, ⟨vbo.balance.amount + amount, coreAsset⟩, .cdd q⟩) ∨
      ¬(FitsInt64 (vbo.balance.amount + amount) ∧
        (requireVesting = true ∨ FitsInt64 (amount * p.vestingSeconds.toNat))) ∧
      ∀ vbo', vbo.add amount requireVesting now ≠ .ok vbo' := by
  have hle := UInt32.le_refl now
  have hsum := Asset.plus_cases (b := ⟨amount, coreAsset⟩) hcore
  rw [hcore] at hsum
  rw [← fits_mul_period_iff hpos hfits]
  cases requireVesting with
  | true =>
    have hadd : vbo.add amount true now = _ := hsound.deposit_eq hle hp
    rcases hsum with ⟨hfits', hplus⟩ | hplus
    · exact .inl ⟨⟨hfits', .inl rfl⟩, p.updatedAt vbo.balance.amount now, rfl,
        hadd.trans (by rw [hplus]; rfl)⟩
    · refine .inr ⟨fun h ↦ ?_, fun vbo' hvbo' ↦ ?_⟩
      · cases hplus.symm.trans (Asset.plus_eq (b := ⟨amount, coreAsset⟩) hcore h.1)
      · rw [hadd, hplus] at hvbo'
        cases hvbo'
  | false =>
    by_cases hproduct : FitsInt64 (amount * p.period)
    · have hadd : vbo.add amount false now = _ := hsound.depositVested_eq hle hp hpos hproduct
      rcases hsum with ⟨hfits', hplus⟩ | hplus
      · exact .inl ⟨⟨hfits', .inr hproduct⟩,
          (p.updatedAt vbo.balance.amount now).withFree amount, rfl,
          hadd.trans (by rw [hplus]; rfl)⟩
      · refine .inr ⟨fun h ↦ ?_, fun vbo' hvbo' ↦ ?_⟩
        · cases hplus.symm.trans (Asset.plus_eq (b := ⟨amount, coreAsset⟩) hcore h.1)
        · rw [hadd, hplus] at hvbo'
          cases hvbo'
    · have hadd : vbo.add amount false now = _ :=
        hsound.depositVested_of_not_fits hle hp hproduct
      exact .inr ⟨fun h ↦ h.2.elim nofun hproduct, fun vbo' hvbo' ↦ nomatch hadd.symm.trans hvbo'⟩

/-- **A balance is made** exactly if the seconds of what is to be free fit. -/
theorem createLazily_cases (owner : AccountId) (amount : ℤ) (period : UInt32)
    (requireVesting : Bool) (now : UInt32) :
    ((requireVesting = true ∨ FitsInt64 (amount * period.toNat)) ∧
      ∃ q : CddVestingPolicy, q.vestingSeconds = period ∧
        createLazily owner amount period requireVesting now =
          .ok ⟨owner, ⟨amount, coreAsset⟩, .cdd q⟩) ∨
      ¬(requireVesting = true ∨ FitsInt64 (amount * period.toNat)) ∧
      ∀ vbo', createLazily owner amount period requireVesting now ≠ .ok vbo' := by
  cases requireVesting with
  | true => exact .inl ⟨.inl rfl, _, rfl, rfl⟩
  | false =>
    by_cases hproduct : FitsInt64 (amount * period.toNat)
    · exact .inl ⟨.inr hproduct, _, rfl, bind_eq_ok.2 ⟨_, int64_of_fits hproduct, rfl⟩⟩
    · refine .inr ⟨fun h ↦ h.elim nofun hproduct, fun vbo' hvbo' ↦ ?_⟩
      have hundefined : createLazily owner amount period false now = .error .undefined :=
        bind_eq_error.2 (.inl (int64_of_not_fits hproduct))
      cases hundefined.symm.trans hvbo'

theorem suits_cdd (acct : AccountId) (balance : Asset) {q : CddVestingPolicy}
    (h : q.vestingSeconds = period) :
    (⟨acct, balance, .cdd q⟩ : VestingBalanceObject).suits period acct = true :=
  Bool.and_eq_true_iff.2 ⟨beq_self_eq_true _, beq_iff_eq.2 h⟩

end VestingBalanceObject

namespace VestingDatabase

open VestingBalanceObject

variable {d d' : VestingDatabase} {period now : UInt32} {c : Cashback}

theorem depositCashback_of_none (hzero : c.amount ≠ 0) (hchain : isChainAccount c.acct = false)
    (hbalance : d.lazyBalance (d.cashbackVb c.acct) period c.acct = .ok none) :
    d.depositCashback c.amount period c.requireVesting now c.acct =
      createLazily c.acct c.amount period c.requireVesting now >>= fun vbo ↦
        .ok { d.create vbo with
          cashbackVb := Function.update d.cashbackVb c.acct (some d.nextId) } := by
  rw [depositCashback, if_neg hzero, if_neg (Bool.eq_false_iff.1 hchain),
    depositLazyVesting_of_none hzero hbalance, bind_assoc]
  rfl

theorem depositCashback_of_some {id : ℕ} {vbo : VestingBalanceObject} (hzero : c.amount ≠ 0)
    (hchain : isChainAccount c.acct = false)
    (hbalance : d.lazyBalance (d.cashbackVb c.acct) period c.acct = .ok (some (id, vbo))) :
    d.depositCashback c.amount period c.requireVesting now c.acct =
      vbo.add c.amount c.requireVesting now >>= fun vbo ↦
        .ok { d with objects := d.objects.insert id vbo } := by
  rw [depositCashback, if_neg hzero, if_neg (Bool.eq_false_iff.1 hchain),
    depositLazyVesting_of_some hzero hbalance, bind_assoc]
  rfl

theorem fits_of_nonneg {v : ℤ} (h : 0 ≤ v ∧ v < 2 ^ 63) : FitsInt64 v :=
  ⟨(show (-2 ^ 63 : ℤ) ≤ 0 by decide).trans h.1, h.2⟩

/-- What is paid to an account that is not one of the chain goes through exactly if its seconds fit
and the sum does. -/
theorem Reached.paid_cases (h : d.Reached now) (hc : c.Valid) (hzero : c.amount ≠ 0)
    (hchain : isChainAccount c.acct = false) :
    ((FitsInt64 (d.cashbackBalance period c.acct + c.amount) ∧
        (c.requireVesting = true ∨ FitsInt64 (c.amount * period.toNat))) ∧
      ∃ d', d.depositCashback c.amount period c.requireVesting now c.acct = .ok d' ∧
        d.Deposited d' period 0 fun x ↦ if x = c.acct then c.amount else 0) ∨
      ¬(FitsInt64 (d.cashbackBalance period c.acct + c.amount) ∧
        (c.requireVesting = true ∨ FitsInt64 (c.amount * period.toNat))) ∧
        ∀ d', d.depositCashback c.amount period c.requireVesting now c.acct ≠ .ok d' := by
  have hkept := h.lazy.lazyBalance (fun id hid ↦ .inl ⟨c.acct, hid⟩) period c.acct
  rcases hkept with hnone | ⟨id, vbo, p, hsome, hvb, hp, rfl, hcore, -, hsound⟩
  · have hbalance : d.cashbackBalance period c.acct = 0 := cashbackBalance_of_none hnone
    have hfits : FitsInt64 (d.cashbackBalance period c.acct + c.amount) := by
      rw [hbalance, Int.zero_add]
      exact fits_of_nonneg hc
    rw [depositCashback_of_none hzero hchain hnone, and_iff_right hfits]
    rcases createLazily_cases c.acct c.amount period c.requireVesting now with
      ⟨hseconds, q, hq, hmade⟩ | ⟨hseconds, hmade⟩
    · refine .inl ⟨hseconds, _, bind_eq_ok.2 ⟨_, hmade, rfl⟩, ?_⟩
      refine deposited_create (h.fresh _ le_rfl) (fun x id hid ↦ ?_) hbalance (suits_cdd _ _ hq) rfl
      exact (h.lazy.kept id (.inl ⟨x, hid⟩)).1
    · refine .inr ⟨hseconds, fun d' hd' ↦ ?_⟩
      obtain ⟨vbo, hvbo, -⟩ := bind_eq_ok.1 hd'
      exact hmade vbo hvbo
  · obtain ⟨hvbo, hsuits⟩ := suits_of_lazyBalance hsome
    rw [depositCashback_of_some hzero hchain hsome, cashbackBalance_of_some hvb hvbo,
      if_pos hsuits]
    rcases add_cases hsound hp hcore hc.1 hc.2 c.requireVesting with
      ⟨hfits, q, hq, hadd⟩ | ⟨hfits, hadd⟩
    · refine .inl ⟨hfits, _, bind_eq_ok.2 ⟨_, hadd, rfl⟩, ?_⟩
      refine deposited_insert hvb hvbo hsuits hcore ?_ rfl
      rw [owner_of_suits hsuits]
      exact suits_cdd _ _ hq
    · refine .inr ⟨hfits, fun d' hd' ↦ ?_⟩
      obtain ⟨vbo', hvbo', -⟩ := bind_eq_ok.1 hd'
      exact hadd vbo' hvbo'

/-- **A payment goes through** exactly if it fits, and then does what it is to do. -/
theorem Reached.depositCashback_cases (h : d.Reached now) (period : UInt32) (hc : c.Valid)
    (hsupply : FitsInt64 d.currentSupply) :
    (c.Fits period d.currentSupply (d.cashbackBalance period) ∧
      ∃ d', d.depositCashback c.amount period c.requireVesting now c.acct = .ok d' ∧
        d.Deposited d' period c.burned c.paidTo) ∨
      ¬c.Fits period d.currentSupply (d.cashbackBalance period) ∧
        ∀ d', d.depositCashback c.amount period c.requireVesting now c.acct ≠ .ok d' := by
  have hbalance := fits_of_nonneg (h.cashbackBalance_bounds period c.acct)
  by_cases hzero : c.amount = 0
  · -- nothing is paid
    have hburned : c.burned = 0 := by rw [Cashback.burned, hzero, ite_self]
    have hpaid : c.paidTo = fun _ ↦ 0 := by
      funext x
      rw [Cashback.paidTo, hzero, ite_self, ite_self]
    rw [Cashback.Fits, hburned, hpaid, Int.sub_zero, Int.add_zero]
    refine .inl ⟨⟨.inr (.inr ?_), hsupply, hbalance⟩, d, ?_, .refl d period⟩
    · rw [hzero, Int.zero_mul]
      decide
    · rw [depositCashback, if_pos hzero]
  · cases hchain : isChainAccount c.acct with
    | true =>
      have hburned : c.burned = c.amount := if_pos hchain
      have hpaid : c.paidTo = fun _ ↦ 0 := funext fun x ↦ if_pos hchain
      have hdeposit : d.depositCashback c.amount period c.requireVesting now c.acct =
          safe (d.currentSupply - c.amount) >>= fun supply ↦
            .ok { d with currentSupply := supply } := by
        rw [depositCashback, if_neg hzero, if_pos hchain]
      rw [Cashback.Fits, hburned, hpaid, Int.add_zero, hdeposit]
      by_cases hfits : FitsInt64 (d.currentSupply - c.amount)
      · exact .inl ⟨⟨.inl hchain, hfits, hbalance⟩, _,
          bind_eq_ok.2 ⟨_, safe_of_fits hfits, rfl⟩, rfl, fun x ↦ (Int.add_zero _).symm,
          fun x ↦ (Int.add_zero _).symm⟩
      · refine .inr ⟨fun hand ↦ hfits hand.2.1, fun d' hd' ↦ ?_⟩
        obtain ⟨supply, hsafe, -⟩ := bind_eq_ok.1 hd'
        exact hfits (safe_eq_ok hsafe).1
    | false =>
      have hnot := Bool.eq_false_iff.1 hchain
      have hburned : c.burned = 0 := if_neg hnot
      have hpaid : c.paidTo = fun x ↦ if x = c.acct then c.amount else 0 :=
        funext fun x ↦ if_neg hnot
      have hself : c.paidTo c.acct = c.amount := (if_neg hnot).trans (if_pos rfl)
      have hfits : c.Fits period d.currentSupply (d.cashbackBalance period) ↔
          FitsInt64 (d.cashbackBalance period c.acct + c.amount) ∧
            (c.requireVesting = true ∨ FitsInt64 (c.amount * period.toNat)) := by
        rw [Cashback.Fits, hburned, hself, Int.sub_zero, and_iff_right hsupply,
          Cashback.SecondsFit, or_iff_right hnot, and_comm]
      rw [hfits, hburned, hpaid]
      exact h.paid_cases hc hzero hchain

end VestingDatabase

/-! ## One payment after the other -/

namespace Cashback

variable {c : Cashback} {cs : List Cashback} {period : UInt32} {supply : ℤ}
  {balance : AccountId → ℤ}

theorem Valid.burned_nonneg (h : c.Valid) : 0 ≤ c.burned := by
  rw [burned]
  split_ifs
  · exact h.1
  · exact le_rfl

theorem Valid.paidTo_nonneg (h : c.Valid) (x : AccountId) : 0 ≤ c.paidTo x := by
  rw [paidTo]
  split_ifs
  · exact le_rfl
  · exact h.1
  · exact le_rfl

theorem allBurned_nonneg (h : ∀ c ∈ cs, c.Valid) : 0 ≤ allBurned cs :=
  List.sum_nonneg fun b hb ↦ by
    obtain ⟨c, hc, rfl⟩ := List.mem_map.1 hb
    exact (h c hc).burned_nonneg

theorem allPaidTo_nonneg (h : ∀ c ∈ cs, c.Valid) (x : AccountId) : 0 ≤ allPaidTo cs x :=
  List.sum_nonneg fun b hb ↦ by
    obtain ⟨c, hc, rfl⟩ := List.mem_map.1 hb
    exact (h c hc).paidTo_nonneg x

/-- **Payments fit** exactly if the first does, and the others do after it. -/
theorem allFit_cons (hsupply : FitsInt64 supply)
    (hbalance : ∀ x, 0 ≤ balance x ∧ balance x < 2 ^ 63) (hc : c.Valid) (hcs : ∀ c ∈ cs, c.Valid) :
    AllFit (c :: cs) period supply balance ↔ c.Fits period supply balance ∧
      AllFit cs period (supply - c.burned) fun x ↦ balance x + c.paidTo x := by
  have hburned := allBurned_nonneg hcs
  have hsum (x : AccountId) : balance x + allPaidTo (c :: cs) x =
      balance x + c.paidTo x + allPaidTo cs x := by
    rw [allPaidTo, List.map_cons, List.sum_cons, ← allPaidTo, Int.add_assoc]
  have hleft : supply - allBurned (c :: cs) = supply - c.burned - allBurned cs := by
    rw [allBurned, List.map_cons, List.sum_cons, ← allBurned, Int.sub_sub]
  constructor
  · rintro ⟨hseconds, hsupply', hbalances⟩
    rw [hleft] at hsupply'
    refine ⟨⟨hseconds c List.mem_cons_self, ?_, ?_⟩, ?_, hsupply', fun x ↦ ?_⟩
    · have hfirst := hc.burned_nonneg
      exact ⟨by have := hsupply'.1; omega, by have := hsupply.2; omega⟩
    · have hfits := hbalances c.acct
      rw [hsum] at hfits
      have hrest := allPaidTo_nonneg hcs c.acct
      have hfirst := hc.paidTo_nonneg c.acct
      exact ⟨by have := (hbalance c.acct).1; omega, by have := hfits.2; omega⟩
    · exact fun c' hc' ↦ hseconds c' (List.mem_cons_of_mem _ hc')
    · exact hsum x ▸ hbalances x
  · rintro ⟨⟨hfirst, -, -⟩, hseconds, hsupply', hbalances⟩
    refine ⟨List.forall_mem_cons.2 ⟨hfirst, hseconds⟩, hleft ▸ hsupply', fun x ↦ ?_⟩
    rw [hsum]
    exact hbalances x

end Cashback

namespace VestingDatabase

variable {d d' : VestingDatabase} {period now : UInt32} {cs : List Cashback}

theorem Deposited.supply_fits {b : ℤ} {p : AccountId → ℤ} (h : d.Deposited d' period b p)
    (hfits : FitsInt64 (d.currentSupply - b)) : FitsInt64 d'.currentSupply :=
  h.supply ▸ hfits

theorem depositCashbacks_of_zero (hzero : ∀ c ∈ cs, c.amount = 0) :
    d.depositCashbacks period now cs = .ok d := by
  induction cs with
  | nil => rfl
  | cons c cs ih =>
    obtain ⟨hc, hcs⟩ := List.forall_mem_cons.1 hzero
    rw [depositCashbacks, List.foldlM_cons, depositCashback, if_pos hc]
    exact ih hcs

/-- **Payments go through** exactly if they fit, and then do what they are to do. -/
theorem Reached.depositCashbacks_cases (h : d.Reached now) (period : UInt32)
    (hcs : ∀ c ∈ cs, c.Valid) (hsupply : FitsInt64 d.currentSupply) :
    (Cashback.AllFit cs period d.currentSupply (d.cashbackBalance period) ∧
      ∃ d', d.depositCashbacks period now cs = .ok d' ∧ d'.Reached now ∧
        FitsInt64 d'.currentSupply ∧
        d.Deposited d' period (Cashback.allBurned cs) (Cashback.allPaidTo cs)) ∨
      ¬Cashback.AllFit cs period d.currentSupply (d.cashbackBalance period) ∧
        ∀ d', d.depositCashbacks period now cs ≠ .ok d' := by
  induction cs generalizing d with
  | nil =>
    refine .inl ⟨⟨nofun, ?_, fun x ↦ ?_⟩, d, rfl, h, hsupply, .refl d period⟩
    · exact (Int.sub_zero _).symm ▸ hsupply
    · exact (Int.add_zero _).symm ▸ fits_of_nonneg (h.cashbackBalance_bounds period x)
  | cons c cs ih =>
    obtain ⟨hc, hcs⟩ := List.forall_mem_cons.1 hcs
    have hrun : d.depositCashbacks period now (c :: cs) =
        d.depositCashback c.amount period c.requireVesting now c.acct >>= fun d₁ ↦
          d₁.depositCashbacks period now cs := List.foldlM_cons ..
    rw [Cashback.allFit_cons hsupply (h.cashbackBalance_bounds period) hc hcs, hrun]
    rcases h.depositCashback_cases period hc hsupply with
      ⟨hfits, d₁, hok, hdone⟩ | ⟨hfits, herror⟩
    · have hreached : d₁.Reached now :=
        .cashback c.acct c.amount period c.requireVesting hc.1 hc.2 h hok
      have hrest := ih hreached hcs (hdone.supply_fits hfits.2.1)
      rw [hdone.supply, show d₁.cashbackBalance period = _ from funext hdone.cashback] at hrest
      rw [hok, and_iff_right hfits]
      rcases hrest with ⟨hall, d', hok', hreached', hfits', hdone'⟩ | ⟨hnot, herror⟩
      · exact .inl ⟨hall, d', hok', hreached', hfits', hdone.trans hdone'⟩
      · exact .inr ⟨hnot, herror⟩
    · refine .inr ⟨fun hand ↦ hfits hand.1, fun d' hd' ↦ ?_⟩
      obtain ⟨d₁, hd₁, -⟩ := bind_eq_ok.1 hd'
      exact herror d₁ hd₁

end VestingDatabase

end Graphene
