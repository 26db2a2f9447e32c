import Graphene.Lib.Table
import Graphene.Vesting.CoinDays

/-!
# Deposits into lazily created vesting balances

Cashback and the pay of witnesses go to a coin days balance that is made when there is none for the
period that is asked for.  Such a deposit is free at once, or has to be held.

The two paths should come to the same: what is put into a balance that is made for it should be as
free as what is put into one that was there.  They write different things into the balance, and the
difference shows only when it is asked how much may be withdrawn.

* `VestingDatabase.depositLazyVesting` — into a balance, or into one that is made.
* `VestingDatabase.depositCashback`, `VestingDatabase.depositWitnessPay` — the calls of it.
* `VestingDatabase.Reached` — the databases of a chain; `VestingDatabase.Lazy` — what there is of
  the balances that a deposit may go to.
* `lazy_deposit_agrees_iff` — when a deposit does what it is to do, by either path.
* `free_deposit_not_free` — one that is not free: the period is zero and the balance is new.
-/

set_option autoImplicit false

namespace Graphene

open Transitions

/-- The vesting balances, and where they are kept. -/
structure VestingDatabase where
  /-- The `vesting_balance_object`s, by the instances of their ids. -/
  objects : Table VestingBalanceObject
  /-- The next of these instances. -/
  nextId : ℕ
  /-- `cashback_vb`, by the accounts. -/
  cashbackVb : AccountId → Option ℕ
  /-- `pay_vb`, by the instances of the witnesses. -/
  payVb : ℕ → Option ℕ
  /-- `current_supply` of the core asset. -/
  currentSupply : ℤ

/-- The balance is of the owner, with a coin days policy of the period. -/
def VestingBalanceObject.suits (vbo : VestingBalanceObject) (reqVestingSeconds : UInt32)
    (reqOwner : AccountId) : Bool :=
  vbo.owner == reqOwner &&
    match vbo.policy with
    | .linear _ => false
    | .cdd p => p.vestingSeconds == reqVestingSeconds

/-- The accounts of the chain itself, from `GRAPHENE_COMMITTEE_ACCOUNT` to
`GRAPHENE_TEMP_ACCOUNT`. -/
def isChainAccount (acct : AccountId) : Bool := acct ≤ tempAccount

namespace VestingDatabase

variable (d : VestingDatabase) (ovbid : Option ℕ) (amount : ℤ) (reqVestingSeconds : UInt32)
  (reqOwner : AccountId) (requireVesting : Bool) (now : UInt32)

/-- The balance that the loop of `deposit_lazy_vesting` comes to deposit into, if it does. -/
def lazyBalance : Except Fault (Option (ℕ × VestingBalanceObject)) :=
  match ovbid with
  | none => .ok none
  | some id => do
    let vbo ← orThrow (d.objects.lookup id) .thrown
    .ok (if vbo.suits reqVestingSeconds reqOwner then some (id, vbo) else none)

/-- `create< vesting_balance_object >`. -/
def create (vbo : VestingBalanceObject) : VestingDatabase :=
  { d with objects := d.objects.insert d.nextId vbo, nextId := d.nextId + 1 }

/-- `deposit_lazy_vesting`. -/
def depositLazyVesting : Except Fault (Option ℕ × VestingDatabase) :=
  if amount = 0 then .ok (none, d)
  else do
    match ← d.lazyBalance ovbid reqVestingSeconds reqOwner with
    | some (id, vbo) =>
      let vbo ← if requireVesting then vbo.deposit now ⟨amount, coreAsset⟩
        else vbo.depositVested now ⟨amount, coreAsset⟩
      .ok (none, { d with objects := d.objects.insert id vbo })
    | none =>
      let vbo ← VestingBalanceObject.createLazily reqOwner amount reqVestingSeconds
        requireVesting now
      .ok (some d.nextId, d.create vbo)

/-- `deposit_cashback`. -/
def depositCashback (acct : AccountId) : Except Fault VestingDatabase :=
  if amount = 0 then .ok d
  else if isChainAccount acct then do
    .ok { d with currentSupply := ← safe (d.currentSupply - amount) }
  else do
    let (newVbid, d) ← d.depositLazyVesting (d.cashbackVb acct) amount reqVestingSeconds acct
      requireVesting now
    .ok (match newVbid with
      | some id => { d with cashbackVb := Function.update d.cashbackVb acct (some id) }
      | none => d)

/-- `deposit_witness_pay`, for the witness number `wit`. -/
def depositWitnessPay (wit : ℕ) (witnessAccount : AccountId) : Except Fault VestingDatabase :=
  if amount = 0 then .ok d
  else do
    let (newVbid, d) ← d.depositLazyVesting (d.payVb wit) amount reqVestingSeconds witnessAccount
      true now
    .ok (match newVbid with
      | some id => { d with payVb := Function.update d.payVb wit (some id) }
      | none => d)

/-- What `vesting_balance_withdraw_evaluator` does of vesting balances. -/
def withdraw (id : ℕ) (owner : AccountId) (amount : Asset) : Except Fault VestingDatabase := do
  let vbo ← orThrow (d.objects.lookup id) .thrown
  if owner = vbo.owner then
    if ← vbo.isWithdrawAllowed now amount then do
      .ok { d with objects := d.objects.insert id (← vbo.withdraw now amount) }
    else .error .thrown
  else .error .thrown

/-- The database of a chain at a time, which is never zero. -/
inductive Reached : VestingDatabase → UInt32 → Prop
  /-- At genesis there are no vesting balances. -/
  | genesis (currentSupply : ℤ) (now : UInt32) (hnow : now ≠ 0) :
    Reached ⟨∅, 0, fun _ ↦ none, fun _ ↦ none, currentSupply⟩ now
  /-- Time goes by. -/
  | wait {d : VestingDatabase} {t now : UInt32} : Reached d t → t ≤ now → Reached d now
  /-- A balance is made by an evaluator or for a worker. -/
  | create {d : VestingDatabase} {now : UInt32} (vbo : VestingBalanceObject) :
    Reached d now → Reached (d.create vbo) now
  /-- An account gets cashback. -/
  | cashback {d d' : VestingDatabase} {now : UInt32} (acct : AccountId) (amount : ℤ)
    (vestingSeconds : UInt32) (requireVesting : Bool) (hpos : 0 ≤ amount)
    (hfits : amount < 2 ^ 63) : Reached d now →
      d.depositCashback amount vestingSeconds requireVesting now acct = .ok d' → Reached d' now
  /-- A witness is paid. -/
  | witnessPay {d d' : VestingDatabase} {now : UInt32} (wit : ℕ) (witnessAccount : AccountId)
    (amount : ℤ) (vestingSeconds : UInt32) (hpos : 0 ≤ amount) (hfits : amount < 2 ^ 63) :
      Reached d now → d.depositWitnessPay amount vestingSeconds now wit witnessAccount = .ok d' →
      Reached d' now
  /-- An owner withdraws something. -/
  | withdraw {d d' : VestingDatabase} {now : UInt32} (id : ℕ) (owner : AccountId) (amount : Asset)
    (hpos : 0 < amount.amount) : Reached d now →
      d.withdraw now id owner amount = .ok d' → Reached d' now

/-- The balances that there are for cashback and for pay. -/
def Kept (id : ℕ) : Prop := (∃ acct, d.cashbackVb acct = some id) ∨ ∃ wit, d.payVb wit = some id

/-! ## What a deposit is to do -/

/-- What is free of the balance that a deposit goes to, before it: nothing, if there is none. -/
def freeBefore (now : UInt32) : Option (ℕ × VestingBalanceObject) → Except Fault ℤ
  | none => .ok 0
  | some (_, vbo) => do .ok (← vbo.getAllowedWithdraw now).amount

/-- The coin seconds that the balance has earned before the deposit. -/
def secondsBefore (now : UInt32) : Option (ℕ × VestingBalanceObject) → Except Fault ℕ
  | none => .ok 0
  | some (_, vbo) =>
    match vbo.policy with
    | .linear _ => .ok 0
    | .cdd p => p.computeCoinSecondsEarned (vbo.context now ⟨0, coreAsset⟩)

/-- **The deposit is free at once**: as much more is free as has been deposited. -/
def FreeAtOnce (vbo : VestingBalanceObject) (free : ℤ) : Prop :=
  vbo.getAllowedWithdraw now = .ok ⟨free + amount, coreAsset⟩ ∧
    vbo.isWithdrawAllowed now ⟨amount, coreAsset⟩ = .ok true

/-- **The deposit has to be held**: no more is free than before, and what is free later has been
paid for, by the seconds that there were before and those for which the whole balance has been
held since. -/
def HeldFirst (vbo : VestingBalanceObject) (p : CddVestingPolicy) (free : ℤ) (seconds : ℕ) : Prop :=
  vbo.getAllowedWithdraw now = .ok ⟨free, coreAsset⟩ ∧
    ∀ later, now ≤ later → ∃ a : ℤ, vbo.getAllowedWithdraw later = .ok ⟨a, coreAsset⟩ ∧
      a * p.period ≤ seconds + vbo.balance.amount * (later.toNat - now.toNat)

/-- **What a deposit is to do**, unless it throws: it means something, and what has been deposited
is free at once, or has to be held. -/
def Agrees : Prop :=
  match d.depositLazyVesting ovbid amount reqVestingSeconds reqOwner requireVesting now with
  | .error .thrown => True
  | .error .undefined => False
  | .ok (newVbid, d') => amount = 0 ∨ ∃ target id vbo p free seconds,
    d.lazyBalance ovbid reqVestingSeconds reqOwner = .ok target ∧
      newVbid.or (target.map Prod.fst) = some id ∧ d'.objects.lookup id = some vbo ∧
      vbo.policy = .cdd p ∧ freeBefore now target = .ok free ∧
      secondsBefore now target = .ok seconds ∧
      if requireVesting then HeldFirst now vbo p free seconds else FreeAtOnce amount now vbo free

/-- **The seconds of free shares are kept**: they fit, and if a balance is made for them, its period
is not zero. -/
def SecondsKept : Prop :=
  amount = 0 ∨ requireVesting = true ∨
    match d.lazyBalance ovbid reqVestingSeconds reqOwner with
    | .ok (some _) => FitsInt64 (amount * max reqVestingSeconds.toNat 1)
    | .ok none => reqVestingSeconds ≠ 0 ∧ FitsInt64 (amount * reqVestingSeconds.toNat)
    | .error _ => True

end VestingDatabase

/-! ## A policy that has just been updated -/

namespace CddVestingPolicy

variable {p : CddVestingPolicy} {vbo : VestingBalanceObject} {now : UInt32}

theorem Sound.coinSeconds_le (h : p.Sound vbo.balance now) :
    p.coinSecondsEarned ≤ vbo.balance.amount.toNat * p.period := by
  have hle := h.earned_le
  rw [← Int.toNat_of_nonneg h.nonneg] at hle
  exact_mod_cast hle

theorem Sound.earnedAt_self (h : p.Sound vbo.balance now)
    (hlast : p.coinSecondsEarnedLastUpdate = now) :
    p.earnedAt vbo.balance.amount now = p.coinSecondsEarned := by
  rw [earnedAt, hlast, Nat.sub_self, Nat.mul_zero, Nat.add_zero]
  exact min_eq_left h.coinSeconds_le

theorem allowedAt_of_ne_zero (hstart : p.startClaim = 0) (hnow : now ≠ 0) (balance : ℤ) :
    p.allowedAt balance now = p.earnedAt balance now / p.period := by
  rw [allowedAt, if_neg]
  rw [hstart, UInt32.not_le]
  exact UInt32.pos_iff_ne_zero.2 hnow

theorem Sound.allowed_now (h : p.Sound vbo.balance now) (hp : vbo.policy = .cdd p)
    (hlast : p.coinSecondsEarnedLastUpdate = now) (hstart : p.startClaim = 0) (hnow : now ≠ 0) :
    vbo.getAllowedWithdraw now =
      .ok ⟨(p.coinSecondsEarned / p.period : ℕ), vbo.balance.assetId⟩ := by
  rw [VestingBalanceObject.getAllowedWithdraw, hp]
  dsimp only
  rw [h.allowed (vbo.context now ⟨0, 0⟩) (UInt32.le_refl now)]
  dsimp only [VestingBalanceObject.context]
  rw [allowedAt_of_ne_zero hstart hnow, h.earnedAt_self hlast]

theorem Sound.allowed_later (h : p.Sound vbo.balance now) (hp : vbo.policy = .cdd p)
    (hlast : p.coinSecondsEarnedLastUpdate = now) {later : UInt32} (hlater : now ≤ later) :
    ∃ a : ℤ, vbo.getAllowedWithdraw later = .ok ⟨a, vbo.balance.assetId⟩ ∧
      a * p.period ≤ p.coinSecondsEarned + vbo.balance.amount * (later.toNat - now.toNat) := by
  refine ⟨p.allowedAt vbo.balance.amount later, ?_, ?_⟩
  · rw [VestingBalanceObject.getAllowedWithdraw, hp]
    exact h.allowed (vbo.context later ⟨0, 0⟩) hlater
  · have hle := (p.allowedAt_mul_le vbo.balance.amount later).trans (min_le_left _ _)
    rw [hlast] at hle
    rw [← Int.toNat_of_nonneg h.nonneg, ← Nat.cast_sub (UInt32.le_iff_toNat_le.1 hlater)]
    exact_mod_cast hle

end CddVestingPolicy

/-! ## The balances that a deposit may go to -/

/-- A balance that a deposit has made, and what has become of it. -/
def VestingBalanceObject.Lazy (vbo : VestingBalanceObject) (now : UInt32) : Prop :=
  ∃ p, vbo.policy = .cdd p ∧ vbo.balance.assetId = coreAsset ∧ p.startClaim = 0 ∧
    p.Sound vbo.balance now

namespace VestingBalanceObject

open CddVestingPolicy

variable {vbo vbo' : VestingBalanceObject} {t now : UInt32} {amount : ℤ}

theorem Lazy.later (h : vbo.Lazy t) (ht : t ≤ now) : vbo.Lazy now := by
  obtain ⟨p, hp, hcore, hstart, hsound⟩ := h
  exact ⟨p, hp, hcore, hstart, hsound.later ht⟩

theorem plus_eq_ok {a b c : Asset} (h : a.plus b = .ok c) :
    FitsInt64 (a.amount + b.amount) ∧ c = ⟨a.amount + b.amount, a.assetId⟩ := by
  rw [Asset.plus] at h
  split_ifs at h
  obtain ⟨v, hv, hc⟩ := bind_eq_ok.1 h
  have hsum := orThrow_eq_ok.1 hv
  rw [shareType] at hsum
  split_ifs at hsum with hfits
  obtain rfl := Option.some.inj hsum
  exact ⟨hfits, (Except.ok.inj hc).symm⟩

theorem Lazy.deposit (h : vbo.Lazy now) (hpos : 0 ≤ amount)
    (hdeposit : vbo.deposit now ⟨amount, coreAsset⟩ = .ok vbo') : vbo'.Lazy now := by
  obtain ⟨p, hp, hcore, hstart, hsound⟩ := h
  rw [hsound.deposit_eq (UInt32.le_refl now) hp] at hdeposit
  obtain ⟨balance, hbalance, hvbo⟩ := bind_eq_ok.1 hdeposit
  obtain ⟨hfits, rfl⟩ := plus_eq_ok hbalance
  obtain rfl := Except.ok.inj hvbo
  exact ⟨_, rfl, hcore, hstart, hsound.after_deposit _ ⟨amount, coreAsset⟩ hpos hfits⟩

theorem Lazy.depositVested (h : vbo.Lazy now) (hpos : 0 ≤ amount)
    (hdeposit : vbo.depositVested now ⟨amount, coreAsset⟩ = .ok vbo') : vbo'.Lazy now := by
  obtain ⟨p, hp, hcore, hstart, hsound⟩ := h
  by_cases hproduct : FitsInt64 (amount * p.period)
  · rw [hsound.depositVested_eq (UInt32.le_refl now) hp hpos hproduct] at hdeposit
    obtain ⟨balance, hbalance, hvbo⟩ := bind_eq_ok.1 hdeposit
    obtain ⟨hfits, rfl⟩ := plus_eq_ok hbalance
    obtain rfl := Except.ok.inj hvbo
    exact ⟨_, rfl, hcore, hstart,
      hsound.after_depositVested _ ⟨amount, coreAsset⟩ hpos hfits⟩
  · cases (hsound.depositVested_of_not_fits (UInt32.le_refl now) hp hproduct).symm.trans hdeposit

theorem Lazy.withdraw {amount : Asset} (h : vbo.Lazy now) (hpos : 0 ≤ amount.amount)
    (hallowed : vbo.isWithdrawAllowed now amount = .ok true)
    (hwithdraw : vbo.withdraw now amount = .ok vbo') : vbo'.Lazy now := by
  obtain ⟨p, hp, hcore, hstart, hsound⟩ := h
  rw [isWithdrawAllowed_eq hsound (UInt32.le_refl now) hp] at hallowed
  split_ifs at hallowed with hid
  have hfree := of_decide_eq_true (Except.ok.inj hallowed)
  rw [hsound.withdraw_eq (UInt32.le_refl now) hp hid hpos hfree] at hwithdraw
  obtain rfl := Except.ok.inj hwithdraw
  exact ⟨_, rfl, hcore, hstart, hsound.after_withdraw hpos hfree⟩

theorem lazy_createLazily {owner : AccountId} {vestingSeconds : UInt32} {requireVesting : Bool}
    (hpos : 0 ≤ amount) (hfits : amount < 2 ^ 63)
    (h : createLazily owner amount vestingSeconds requireVesting now = .ok vbo) : vbo.Lazy now := by
  obtain ⟨p, rfl, -, hstart, -, -, -, hsound⟩ := sound_createLazily hpos hfits h
  exact ⟨p, rfl, rfl, hstart, hsound⟩

end VestingBalanceObject

namespace VestingDatabase

open VestingBalanceObject

variable {d d' : VestingDatabase} {t now : UInt32} {id : ℕ} {ovbid newVbid : Option ℕ} {amount : ℤ}
  {reqVestingSeconds : UInt32} {reqOwner : AccountId} {requireVesting : Bool}

/-- There is a balance that a deposit has made. -/
def LazyAt (d : VestingDatabase) (now : UInt32) (id : ℕ) : Prop :=
  id < d.nextId ∧ ∃ vbo, d.objects.lookup id = some vbo ∧ vbo.Lazy now

/-- **What holds of every database**: what is kept for cashback and for pay is there, and has been
made by a deposit. -/
structure Lazy (d : VestingDatabase) (now : UInt32) : Prop where
  /-- The time is not zero. -/
  now_ne : now ≠ 0
  /-- The balances are there. -/
  kept : ∀ id, d.Kept id → d.LazyAt now id

theorem LazyAt.insert {vbo : VestingBalanceObject} {j : ℕ} (h : d.LazyAt now id)
    (hvbo : j = id → vbo.Lazy now) :
    ({ d with objects := d.objects.insert j vbo } : VestingDatabase).LazyAt now id := by
  obtain ⟨hlt, old, hold, hlazy⟩ := h
  refine ⟨hlt, ?_⟩
  by_cases hj : j = id
  · subst hj
    exact ⟨vbo, AList.lookup_insert _, hvbo rfl⟩
  · exact ⟨old, (AList.lookup_insert_ne (Ne.symm hj)).trans hold, hlazy⟩

theorem LazyAt.create (h : d.LazyAt now id) (vbo : VestingBalanceObject) :
    (d.create vbo).LazyAt now id := by
  obtain ⟨hlt, old, hold, hlazy⟩ := h
  exact ⟨hlt.trans (Nat.lt_succ_self _), old,
    (AList.lookup_insert_ne hlt.ne).trans hold, hlazy⟩

theorem lazyAt_created {vbo : VestingBalanceObject} (h : vbo.Lazy now) :
    (d.create vbo).LazyAt now d.nextId :=
  ⟨Nat.lt_succ_self _, vbo, AList.lookup_insert _, h⟩

/-- What `deposit_lazy_vesting` finds for a balance that is kept. -/
theorem lazyBalance_eq_ok {target : Option (ℕ × VestingBalanceObject)}
    (h : d.lazyBalance ovbid reqVestingSeconds reqOwner = .ok target) :
    target = none ∨ ∃ id vbo, target = some (id, vbo) ∧ ovbid = some id ∧
      d.objects.lookup id = some vbo ∧ vbo.suits reqVestingSeconds reqOwner = true := by
  cases ovbid with
  | none => exact .inl (Except.ok.inj h).symm
  | some id =>
    obtain ⟨vbo, hvbo, htarget⟩ := bind_eq_ok.1 h
    have htarget := Except.ok.inj htarget
    split_ifs at htarget with hsuits
    · exact .inr ⟨id, vbo, htarget.symm, rfl, orThrow_eq_ok.1 hvbo, hsuits⟩
    · exact .inl htarget.symm

/-- **What a deposit keeps**: the balances that were there, and that it makes one if it says so. -/
theorem Lazy.depositLazyVesting (h : d.Lazy now) (hkept : ∀ id, ovbid = some id → d.Kept id)
    (hpos : 0 ≤ amount) (hfits : amount < 2 ^ 63)
    (hdeposit : d.depositLazyVesting ovbid amount reqVestingSeconds reqOwner requireVesting now =
      .ok (newVbid, d')) :
    d'.cashbackVb = d.cashbackVb ∧ d'.payVb = d.payVb ∧
      (∀ id, d.LazyAt now id → d'.LazyAt now id) ∧ ∀ id, newVbid = some id → d'.LazyAt now id := by
  rw [VestingDatabase.depositLazyVesting] at hdeposit
  by_cases hzero : amount = 0
  · rw [if_pos hzero] at hdeposit
    obtain ⟨rfl, rfl⟩ := Prod.mk.inj (Except.ok.inj hdeposit)
    exact ⟨rfl, rfl, fun _ hid ↦ hid, nofun⟩
  · rw [if_neg hzero] at hdeposit
    obtain ⟨target, htarget, hmade⟩ := bind_eq_ok.1 hdeposit
    rcases lazyBalance_eq_ok htarget with rfl | ⟨id, vbo, rfl, rfl, hvbo, -⟩
    · obtain ⟨vbo, hvbo, hok⟩ := bind_eq_ok.1 hmade
      obtain ⟨rfl, rfl⟩ := Prod.mk.inj (Except.ok.inj hok)
      refine ⟨rfl, rfl, fun _ hid ↦ hid.create vbo, fun id hid ↦ ?_⟩
      obtain rfl := Option.some.inj hid
      exact lazyAt_created (lazy_createLazily hpos hfits hvbo)
    · obtain ⟨-, old, hold, hlazy⟩ := h.kept id (hkept id rfl)
      obtain rfl : vbo = old := Option.some.inj (hvbo.symm.trans hold)
      have hnext : ∃ vbo', vbo'.Lazy now ∧ Except.ok (newVbid, d') =
          (Except.ok (none, { d with objects := d.objects.insert id vbo' }) :
            Except Fault (Option ℕ × VestingDatabase)) := by
        clear hdeposit
        cases requireVesting with
        | true =>
          obtain ⟨vbo', hvbo', hok⟩ := bind_eq_ok.1 hmade
          exact ⟨vbo', hlazy.deposit hpos hvbo', hok.symm⟩
        | false =>
          obtain ⟨vbo', hvbo', hok⟩ := bind_eq_ok.1 hmade
          exact ⟨vbo', hlazy.depositVested hpos hvbo', hok.symm⟩
      obtain ⟨vbo', hvbo', hok⟩ := hnext
      obtain ⟨rfl, rfl⟩ := Prod.mk.inj (Except.ok.inj hok)
      exact ⟨rfl, rfl, fun _ hid ↦ hid.insert fun _ ↦ hvbo', nofun⟩

theorem Lazy.depositCashback {acct : AccountId} (h : d.Lazy now) (hpos : 0 ≤ amount)
    (hfits : amount < 2 ^ 63)
    (hdeposit : d.depositCashback amount reqVestingSeconds requireVesting now acct = .ok d') :
    d'.Lazy now := by
  rw [VestingDatabase.depositCashback] at hdeposit
  split_ifs at hdeposit
  · obtain rfl := Except.ok.inj hdeposit
    exact h
  · obtain ⟨supply, -, hdeposit⟩ := bind_eq_ok.1 hdeposit
    obtain rfl := Except.ok.inj hdeposit
    exact ⟨h.now_ne, h.kept⟩
  · obtain ⟨⟨newVbid, d₁⟩, hlazy, hdeposit⟩ := bind_eq_ok.1 hdeposit
    obtain ⟨hcashback, hpay, hold, hnew⟩ :=
      h.depositLazyVesting (fun id hid ↦ .inl ⟨acct, hid⟩) hpos hfits hlazy
    obtain rfl := Except.ok.inj hdeposit
    refine ⟨h.now_ne, fun id hid ↦ ?_⟩
    cases newVbid with
    | none =>
      rw [Kept, hcashback, hpay] at hid
      exact hold id (h.kept id hid)
    | some new =>
      rcases hid with ⟨a, ha⟩ | ⟨wit, hwit⟩
      · dsimp only at ha
        rw [Function.update_apply] at ha
        split_ifs at ha
        · exact hnew id ha
        · exact hold id (h.kept id (.inl ⟨a, hcashback ▸ ha⟩))
      · exact hold id (h.kept id (.inr ⟨wit, hpay ▸ hwit⟩))

theorem Lazy.depositWitnessPay {wit : ℕ} {witnessAccount : AccountId} (h : d.Lazy now)
    (hpos : 0 ≤ amount) (hfits : amount < 2 ^ 63)
    (hdeposit : d.depositWitnessPay amount reqVestingSeconds now wit witnessAccount = .ok d') :
    d'.Lazy now := by
  rw [VestingDatabase.depositWitnessPay] at hdeposit
  split_ifs at hdeposit
  · obtain rfl := Except.ok.inj hdeposit
    exact h
  · obtain ⟨⟨newVbid, d₁⟩, hlazy, hdeposit⟩ := bind_eq_ok.1 hdeposit
    obtain ⟨hcashback, hpay, hold, hnew⟩ :=
      h.depositLazyVesting (fun id hid ↦ .inr ⟨wit, hid⟩) hpos hfits hlazy
    obtain rfl := Except.ok.inj hdeposit
    refine ⟨h.now_ne, fun id hid ↦ ?_⟩
    cases newVbid with
    | none =>
      rw [Kept, hcashback, hpay] at hid
      exact hold id (h.kept id hid)
    | some new =>
      rcases hid with ⟨acct, hacct⟩ | ⟨w, hw⟩
      · exact hold id (h.kept id (.inl ⟨acct, hcashback ▸ hacct⟩))
      · dsimp only at hw
        rw [Function.update_apply] at hw
        split_ifs at hw
        · exact hnew id hw
        · exact hold id (h.kept id (.inr ⟨w, hpay ▸ hw⟩))

theorem Lazy.withdraw {owner : AccountId} {amount : Asset} (h : d.Lazy now)
    (hpos : 0 < amount.amount) (hwithdraw : d.withdraw now id owner amount = .ok d') :
    d'.Lazy now := by
  obtain ⟨vbo, hvbo, hwithdraw⟩ := bind_eq_ok.1 hwithdraw
  split_ifs at hwithdraw
  obtain ⟨allowed, hallowed, hwithdraw⟩ := bind_eq_ok.1 hwithdraw
  split_ifs at hwithdraw with htrue
  subst htrue
  obtain ⟨vbo', hvbo', hwithdraw⟩ := bind_eq_ok.1 hwithdraw
  obtain rfl := Except.ok.inj hwithdraw
  refine ⟨h.now_ne, fun j hj ↦ (h.kept j hj).insert ?_⟩
  rintro rfl
  obtain ⟨-, old, hold, hlazy⟩ := h.kept id hj
  obtain rfl := Option.some.inj (hold.symm.trans (orThrow_eq_ok.1 hvbo))
  exact hlazy.withdraw hpos.le hallowed hvbo'

/-- **What is kept for cashback and for pay** has been made by a deposit, in every database. -/
theorem Reached.lazy (h : Reached d now) : d.Lazy now := by
  induction h with
  | genesis currentSupply now hnow =>
    refine ⟨hnow, ?_⟩
    rintro id (⟨acct, hacct⟩ | ⟨wit, hwit⟩)
    · cases hacct
    · cases hwit
  | @wait d t now _ ht ih =>
    refine ⟨?_, fun id hid ↦ ?_⟩
    · rintro rfl
      exact ih.now_ne (UInt32.le_zero_iff.1 ht)
    · obtain ⟨hlt, vbo, hvbo, hlazy⟩ := ih.kept id hid
      exact ⟨hlt, vbo, hvbo, hlazy.later ht⟩
  | create vbo _ ih => exact ⟨ih.now_ne, fun id hid ↦ (ih.kept id hid).create vbo⟩
  | cashback acct amount vestingSeconds requireVesting hpos hfits _ hdeposit ih =>
    exact ih.depositCashback hpos hfits hdeposit
  | witnessPay wit witnessAccount amount vestingSeconds hpos hfits _ hdeposit ih =>
    exact ih.depositWitnessPay hpos hfits hdeposit
  | withdraw id owner amount hpos _ hwithdraw ih => exact ih.withdraw hpos hwithdraw

/-! ## What a deposit does -/

theorem Lazy.lazyBalance (h : d.Lazy now) (hkept : ∀ id, ovbid = some id → d.Kept id)
    (reqVestingSeconds : UInt32) (reqOwner : AccountId) :
    (d.lazyBalance ovbid reqVestingSeconds reqOwner = .ok none) ∨
      ∃ id vbo p, d.lazyBalance ovbid reqVestingSeconds reqOwner = .ok (some (id, vbo)) ∧
        ovbid = some id ∧ vbo.policy = .cdd p ∧ p.vestingSeconds = reqVestingSeconds ∧
        vbo.balance.assetId = coreAsset ∧ p.startClaim = 0 ∧ p.Sound vbo.balance now := by
  cases hov : ovbid with
  | none => exact .inl rfl
  | some id =>
    obtain ⟨-, vbo, hvbo, p, hp, hcore, hstart, hsound⟩ := h.kept id (hkept id hov)
    rw [VestingDatabase.lazyBalance, hvbo]
    by_cases hsuits : vbo.suits reqVestingSeconds reqOwner = true
    · refine .inr ⟨id, vbo, p, ?_, rfl, hp, ?_, hcore, hstart, hsound⟩
      · exact bind_eq_ok.2 ⟨vbo, rfl, congrArg _ (if_pos hsuits)⟩
      · rw [suits, hp, Bool.and_eq_true] at hsuits
        exact eq_of_beq hsuits.2
    · exact .inl (bind_eq_ok.2 ⟨vbo, rfl, congrArg _ (if_neg hsuits)⟩)

end VestingDatabase

/-- A sum with the balance fits, or throws. -/
theorem Asset.plus_cases {a b : Asset} (h : a.assetId = b.assetId) :
    (FitsInt64 (a.amount + b.amount) ∧ a.plus b = .ok ⟨a.amount + b.amount, a.assetId⟩) ∨
      a.plus b = .error .thrown := by
  by_cases hfits : FitsInt64 (a.amount + b.amount)
  · exact .inl ⟨hfits, plus_eq h hfits⟩
  · refine .inr ?_
    rw [plus, if_pos h]
    exact bind_eq_error.2 (.inl (orThrow_eq_error.2 ⟨if_neg hfits, rfl⟩))

namespace CddVestingPolicy

open VestingDatabase

variable {p : CddVestingPolicy} {vbo : VestingBalanceObject} {now : UInt32} {amount : ℤ}

theorem Sound.freeBefore (h : p.Sound vbo.balance now) (hp : vbo.policy = .cdd p)
    (hstart : p.startClaim = 0) (hnow : now ≠ 0) (id : ℕ) :
    freeBefore now (some (id, vbo)) =
      .ok (p.earnedAt vbo.balance.amount now / p.period : ℕ) := by
  have hallowed : vbo.getAllowedWithdraw now = _ :=
    (show _ = p.getAllowedWithdraw (vbo.context now ⟨0, 0⟩) by
      rw [VestingBalanceObject.getAllowedWithdraw, hp]).trans
      (h.allowed (vbo.context now ⟨0, 0⟩) (UInt32.le_refl now))
  rw [VestingDatabase.freeBefore, hallowed]
  dsimp only [VestingBalanceObject.context]
  rw [allowedAt_of_ne_zero hstart hnow]
  rfl

theorem Sound.secondsBefore (h : p.Sound vbo.balance now) (hp : vbo.policy = .cdd p) (id : ℕ) :
    secondsBefore now (some (id, vbo)) = .ok (p.earnedAt vbo.balance.amount now) := by
  rw [VestingDatabase.secondsBefore, hp]
  exact h.compute (vbo.context now ⟨0, coreAsset⟩) (UInt32.le_refl now)

/-- What has been held before is free, and what has been deposited is not. -/
theorem Sound.heldFirst (vbo : VestingBalanceObject) (h : p.Sound vbo.balance now)
    (hp : vbo.policy = .cdd p)
    (hcore : vbo.balance.assetId = coreAsset) (hlast : p.coinSecondsEarnedLastUpdate = now)
    (hstart : p.startClaim = 0) (hnow : now ≠ 0) :
    HeldFirst now vbo p (p.coinSecondsEarned / p.period : ℕ) p.coinSecondsEarned := by
  refine ⟨?_, fun later hlater ↦ ?_⟩
  · rw [h.allowed_now hp hlast hstart hnow, hcore]
  · rw [← hcore]
    exact h.allowed_later hp hlast hlater

/-- What has been deposited with its seconds is free. -/
theorem Sound.freeAtOnce (vbo : VestingBalanceObject) (h : p.Sound vbo.balance now)
    (hp : vbo.policy = .cdd p)
    (hcore : vbo.balance.assetId = coreAsset) (hlast : p.coinSecondsEarnedLastUpdate = now)
    (hstart : p.startClaim = 0) (hnow : now ≠ 0) (hpos : 0 ≤ amount) {seconds : ℕ}
    (hseconds : p.coinSecondsEarned = seconds + amount.toNat * p.period) :
    FreeAtOnce amount now vbo (seconds / p.period : ℕ) := by
  have hquotient : p.coinSecondsEarned / p.period = seconds / p.period + amount.toNat := by
    rw [hseconds, Nat.add_mul_div_right _ _ period_pos]
  have hallowed := h.allowed_now hp hlast hstart hnow
  rw [hquotient, Nat.cast_add, Int.toNat_of_nonneg hpos, hcore] at hallowed
  refine ⟨hallowed, ?_⟩
  rw [VestingBalanceObject.isWithdrawAllowed_eq h (UInt32.le_refl now) hp, if_pos hcore.symm]
  refine congrArg _ (decide_eq_true ?_)
  rw [allowedAt_of_ne_zero hstart hnow, h.earnedAt_self hlast, hquotient, Nat.cast_add,
    Int.toNat_of_nonneg hpos]
  exact Int.le_add_of_nonneg_left (Int.natCast_nonneg _)

end CddVestingPolicy

namespace VestingDatabase

open CddVestingPolicy

variable {d : VestingDatabase} {now : UInt32} {ovbid : Option ℕ} {amount : ℤ}
  {reqVestingSeconds : UInt32} {reqOwner : AccountId} {requireVesting : Bool}

theorem depositLazyVesting_of_some {id : ℕ} {vbo : VestingBalanceObject} (hzero : amount ≠ 0)
    (hbalance : d.lazyBalance ovbid reqVestingSeconds reqOwner = .ok (some (id, vbo))) :
    d.depositLazyVesting ovbid amount reqVestingSeconds reqOwner requireVesting now =
      (if requireVesting then vbo.deposit now ⟨amount, coreAsset⟩
        else vbo.depositVested now ⟨amount, coreAsset⟩) >>= fun vbo ↦
        .ok (none, { d with objects := d.objects.insert id vbo }) := by
  rw [depositLazyVesting, if_neg hzero, hbalance]
  cases requireVesting <;> rfl

theorem depositLazyVesting_of_none (hzero : amount ≠ 0)
    (hbalance : d.lazyBalance ovbid reqVestingSeconds reqOwner = .ok none) :
    d.depositLazyVesting ovbid amount reqVestingSeconds reqOwner requireVesting now =
      VestingBalanceObject.createLazily reqOwner amount reqVestingSeconds requireVesting now >>=
        fun vbo ↦ .ok (some d.nextId, d.create vbo) := by
  rw [depositLazyVesting, if_neg hzero, hbalance]
  rfl

/-- **A deposit into a balance that there is.** -/
theorem agrees_iff_of_some {id : ℕ} {vbo : VestingBalanceObject} {p : CddVestingPolicy}
    (hzero : amount ≠ 0) (hpos : 0 ≤ amount)
    (hbalance : d.lazyBalance ovbid reqVestingSeconds reqOwner = .ok (some (id, vbo)))
    (hp : vbo.policy = .cdd p) (hcore : vbo.balance.assetId = coreAsset)
    (hstart : p.startClaim = 0) (hsound : p.Sound vbo.balance now) (hnow : now ≠ 0) :
    d.Agrees ovbid amount reqVestingSeconds reqOwner requireVesting now ↔
      requireVesting = true ∨ FitsInt64 (amount * p.period) := by
  have hfree := hsound.freeBefore hp hstart hnow id
  have hseconds := hsound.secondsBefore hp id
  have hle := UInt32.le_refl now
  have hsum := Asset.plus_cases (b := ⟨amount, coreAsset⟩) hcore
  rw [Agrees, depositLazyVesting_of_some hzero hbalance]
  cases requireVesting with
  | true =>
    refine iff_of_true ?_ (.inl rfl)
    rw [if_pos rfl, hsound.deposit_eq hle hp]
    rcases hsum with ⟨hfits, hplus⟩ | hplus
    · have hnew := hsound.after_deposit now ⟨amount, coreAsset⟩ hpos hfits
      rw [hplus]
      refine .inr
        ⟨_, id, _, _, _, _, hbalance, rfl, AList.lookup_insert _, rfl, hfree, hseconds, ?_⟩
      exact hnew.heldFirst ⟨vbo.owner, _, _⟩ rfl hcore rfl hstart hnow
    · rw [hplus]
      trivial
  | false =>
    rw [if_neg Bool.false_ne_true]
    by_cases hproduct : FitsInt64 (amount * p.period)
    · refine iff_of_true ?_ (.inr hproduct)
      rw [hsound.depositVested_eq hle hp hpos hproduct]
      rcases hsum with ⟨hfits, hplus⟩ | hplus
      · have hnew :=
          hsound.after_depositVested now ⟨amount, coreAsset⟩ hpos hfits
        rw [hplus]
        refine .inr
          ⟨_, id, _, _, _, _, hbalance, rfl, AList.lookup_insert _, rfl, hfree, hseconds, ?_⟩
        exact hnew.freeAtOnce ⟨vbo.owner, _, _⟩ rfl hcore rfl hstart hnow hpos rfl
      · rw [hplus]
        trivial
    · refine iff_of_false ?_ fun hor ↦ hor.elim nofun hproduct
      rw [hsound.depositVested_of_not_fits hle hp hproduct]
      exact not_false

/-- **A deposit that makes a balance.** -/
theorem agrees_iff_of_none (hzero : amount ≠ 0) (hpos : 0 ≤ amount) (hfits : amount < 2 ^ 63)
    (hbalance : d.lazyBalance ovbid reqVestingSeconds reqOwner = .ok none) (hnow : now ≠ 0) :
    d.Agrees ovbid amount reqVestingSeconds reqOwner requireVesting now ↔
      requireVesting = true ∨
        reqVestingSeconds ≠ 0 ∧ FitsInt64 (amount * reqVestingSeconds.toNat) := by
  rw [Agrees, depositLazyVesting_of_none hzero hbalance]
  cases requireVesting with
  | true =>
    refine iff_of_true ?_ (.inl rfl)
    obtain ⟨vbo, hmade⟩ : ∃ vbo, VestingBalanceObject.createLazily reqOwner amount
      reqVestingSeconds true now = .ok vbo := ⟨_, rfl⟩
    obtain ⟨p, rfl, -, hstart, hlast, hearned, -, hsound⟩ := sound_createLazily hpos hfits hmade
    have hheld := hsound.heldFirst _ rfl rfl hlast hstart hnow
    rw [hearned, if_pos rfl, Nat.zero_div] at hheld
    rw [hmade]
    exact .inr ⟨none, d.nextId, _, p, 0, 0, hbalance, rfl, AList.lookup_insert _, rfl, rfl, rfl,
      hheld⟩
  | false =>
    by_cases hproduct : FitsInt64 (amount * reqVestingSeconds.toNat)
    · obtain ⟨vbo, hmade⟩ : ∃ vbo, VestingBalanceObject.createLazily reqOwner amount
        reqVestingSeconds false now = .ok vbo := ⟨_, bind_eq_ok.2 ⟨_, int64_of_fits hproduct, rfl⟩⟩
      obtain ⟨p, rfl, hperiod, hstart, hlast, hearned, -, hsound⟩ :=
        sound_createLazily hpos hfits hmade
      rw [if_neg Bool.false_ne_true] at hearned
      rw [hmade]
      constructor
      · rintro (h | ⟨target, id, vbo, q, free, seconds, htarget, hid, hvbo, -, hfree, -, hagrees⟩)
        · exact absurd h hzero
        · -- nothing was free before, and nothing is if the period is zero
          obtain rfl := Except.ok.inj (hbalance.symm.trans htarget)
          obtain rfl := Except.ok.inj hfree
          obtain rfl := Option.some.inj hid
          obtain rfl := Option.some.inj ((AList.lookup_insert _).symm.trans hvbo)
          refine .inr ⟨?_, hproduct⟩
          rintro rfl
          have hnothing := hsound.allowed_now rfl hlast hstart hnow
          rw [hearned, UInt32.toNat_zero, Nat.mul_zero, Nat.zero_div] at hnothing
          have hamount := Asset.mk.inj (Except.ok.inj (hnothing.symm.trans hagrees.1))
          exact hzero (by have := hamount.1; omega)
      · rintro (h | ⟨hne, -⟩)
        · cases h
        · have hseconds : p.coinSecondsEarned = 0 + amount.toNat * p.period := by
            rw [hearned, Nat.zero_add, period_of_ne_zero (hperiod ▸ hne), hperiod]
          have hfree := hsound.freeAtOnce _ rfl rfl hlast hstart hnow hpos hseconds
          rw [Nat.zero_div] at hfree
          exact .inr ⟨none, d.nextId, _, p, 0, 0, hbalance, rfl, AList.lookup_insert _, rfl, rfl,
            rfl, hfree⟩
    · refine iff_of_false ?_ fun hor ↦ hor.elim nofun fun h ↦ hproduct h.2
      have hundefined : VestingBalanceObject.createLazily reqOwner amount reqVestingSeconds false
          now = .error .undefined := bind_eq_error.2 (.inl (int64_of_not_fits hproduct))
      rw [hundefined]
      exact not_false

end VestingDatabase

open VestingDatabase CddVestingPolicy

/-- **The deposits agree**: on every chain, a deposit for an account or for a witness does what it
is to do, into a balance that there is and into one that is made, exactly if the seconds of what is
to be free at once are kept. -/
theorem lazy_deposit_agrees_iff {d : VestingDatabase} {now : UInt32} (h : d.Reached now)
    {ovbid : Option ℕ} (hkept : ∀ id, ovbid = some id → d.Kept id) {amount : ℤ} (hpos : 0 ≤ amount)
    (hfits : amount < 2 ^ 63) (reqVestingSeconds : UInt32) (reqOwner : AccountId)
    (requireVesting : Bool) :
    d.Agrees ovbid amount reqVestingSeconds reqOwner requireVesting now ↔
      d.SecondsKept ovbid amount reqVestingSeconds reqOwner requireVesting := by
  have hlazy := h.lazy
  rw [SecondsKept]
  by_cases hzero : amount = 0
  · refine iff_of_true ?_ (.inl hzero)
    rw [VestingDatabase.Agrees, depositLazyVesting, if_pos hzero]
    exact .inl hzero
  · rw [or_iff_right hzero]
    rcases hlazy.lazyBalance hkept reqVestingSeconds reqOwner with hbalance |
      ⟨id, vbo, p, hbalance, -, hp, rfl, hcore, hstart, hsound⟩
    · rw [hbalance]
      exact agrees_iff_of_none hzero hpos hfits hbalance hlazy.now_ne
    · rw [hbalance, agrees_iff_of_some hzero hpos hbalance hp hcore hstart hsound hlazy.now_ne,
        period_eq_max]

/-- A chain without vesting balances. -/
def newChain : VestingDatabase := ⟨∅, 0, fun _ ↦ none, fun _ ↦ none, maxShareSupply⟩

theorem newChain_reached : newChain.Reached 1 := .genesis maxShareSupply 1 (by decide)

/-- Five shares that are free, with a period of ten seconds, for an account without a balance. -/
theorem lazy_deposit_agrees_five : newChain.Agrees (newChain.cashbackVb 7) 5 10 7 false 1 :=
  (lazy_deposit_agrees_iff newChain_reached (fun _ hid ↦ by cases hid) (by decide) (by decide) 10 7
    false).2
    (.inr (.inr ⟨by decide, by decide⟩))

/-- Five shares that are to be free, with a period of zero: the balance is made, and nothing of it
is free. -/
theorem free_deposit_not_free :
    (∃ vbo, newChain.depositLazyVesting (newChain.cashbackVb 7) 5 0 7 false 1 =
        .ok (some 0, newChain.create vbo) ∧
      vbo.balance = ⟨5, coreAsset⟩ ∧ vbo.getAllowedWithdraw 1 = .ok ⟨0, coreAsset⟩) ∧
      ¬newChain.Agrees (newChain.cashbackVb 7) 5 0 7 false 1 := by
  have hnone : newChain.lazyBalance (newChain.cashbackVb 7) 0 7 = .ok none := rfl
  obtain ⟨vbo, hmade⟩ : ∃ vbo, VestingBalanceObject.createLazily 7 5 0 false 1 = .ok vbo :=
    ⟨_, bind_eq_ok.2 ⟨_, int64_of_fits (by decide), rfl⟩⟩
  obtain ⟨p, rfl, -, hstart, hlast, hearned, -, hsound⟩ :=
    sound_createLazily (by decide) (by decide) hmade
  refine ⟨⟨⟨7, ⟨5, coreAsset⟩, .cdd p⟩, ?_, rfl, ?_⟩, fun hagrees ↦ ?_⟩
  · exact (depositLazyVesting_of_none (by decide) hnone).trans (bind_eq_ok.2 ⟨_, hmade, rfl⟩)
  · have hnothing := hsound.allowed_now rfl hlast hstart (by decide)
    rwa [hearned, if_neg Bool.false_ne_true, UInt32.toNat_zero, Nat.mul_zero, Nat.zero_div]
      at hnothing
  · rcases (agrees_iff_of_none (by decide) (by decide) (by decide) hnone (by decide)).1 hagrees with
      h | h
    · cases h
    · exact h.1 rfl

end Graphene
