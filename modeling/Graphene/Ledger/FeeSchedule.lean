import Graphene.Chain.Block
import Graphene.Lib.Codec
import Graphene.Lib.Transitions
import Graphene.Market.Prices
import Mathlib.Order.Bounds.Basic

/-!
# The fee that is set

The fee schedule knows what an operation costs in the core asset; a fee in another asset has to be
worth as much at the core exchange rate.  The conversion truncates, so that the fee is raised until
it converts back to enough (`calculate_fee`), and since a fee in another asset may change the packed
size of the operation, it is worked out again after it was set (`set_fee`, `fee_schedule.cpp`).

* `Operation.calculateFee` — what the operations make of their fee parameters.
* `FeeSchedule.calculateFee`, `FeeSchedule.setFee` — the two loops.
* `IsCoreRate` — the prices that may be core exchange rates.
* `isLeast_leastFee` — the least amount that converts back to enough.
* `FeeSchedule.calculateFee_eq` — `calculate_fee` returns it, unless an amount is beyond the share
  supply.
* `set_fee_least_sufficient` — and a fee that was set suffices.
-/

set_option autoImplicit false

namespace Graphene.SetFee

open Transitions

/-! ## What operations cost -/

/-- The fields of the `fee_parameters_type`s; each kind of operation has some of them. -/
structure FeeParameters where
  /-- `fee`. -/
  fee : UInt64 := 0
  /-- `price_per_kbyte`. -/
  pricePerKbyte : UInt32 := 0
  /-- `basic_fee`. -/
  basicFee : UInt64 := 0
  /-- `premium_fee`. -/
  premiumFee : UInt64 := 0
  /-- `membership_lifetime_fee`. -/
  membershipLifetimeFee : UInt64 := 0
  /-- `symbol3`. -/
  symbol3 : UInt64 := 0
  /-- `symbol4`. -/
  symbol4 : UInt64 := 0
  /-- `long_symbol`. -/
  longSymbol : UInt64 := 0
  /-- `price_per_output`. -/
  pricePerOutput : UInt32 := 0

/-- What an operation's `calculate_fee` reads of it. -/
inductive FeeRule where
  /-- `base_operation::calculate_fee`, and that of `account_balance_migrate_operation`. -/
  | flat
  /-- `asset_settle_operation`, `fill_order_operation`, `balance_claim_operation`,
  `fba_distribute_operation`. -/
  | free
  /-- `transfer_operation`, `override_transfer_operation`, `withdraw_permission_claim_operation`:
  the packed size of `memo`, if there is one. -/
  | memo (size : Option ℕ)
  /-- `asset_issue_operation`: the packed size of the optional `memo`. -/
  | assetIssue (size : ℕ)
  /-- `custom_operation`, `proposal_create_operation`, `proposal_update_operation`,
  `asset_update_operation`. -/
  | data
  /-- `account_create_operation`: `is_cheap_name( name )`. -/
  | accountCreate (cheap : Bool)
  /-- `account_update_operation`: whether there are `new_options`. -/
  | accountUpdate (newOptions : Bool)
  /-- `account_upgrade_operation`. -/
  | accountUpgrade
  /-- `asset_create_operation`: `symbol.size()`. -/
  | assetCreate (symbolSize : ℕ)
  /-- `transfer_to_blind_operation`, `blind_transfer_operation`: `outputs.size()`. -/
  | blind (outputs : UInt64)
  /-- `assert_operation`: `predicates.size()`. -/
  | assert (predicates : UInt64)

/-- An operation, as far as its fee depends on it. -/
structure Operation where
  /-- `which()`. -/
  which : ℕ
  /-- `fee`. -/
  fee : Asset
  /-- The packed size of everything but the fee. -/
  restSize : ℕ
  /-- What `calculate_fee` reads besides. -/
  rule : FeeRule

/-- The packed size of an `asset`: an `int64_t`, and the number of the asset as an
`unsigned_int`. -/
def assetPackSize (a : Asset) : ℕ := 8 + (Codec.packNat a.assetId).length

/-- `fc::raw::pack_size(*this)`. -/
def Operation.packSize (op : Operation) : ℕ := op.restSize + assetPackSize op.fee

/-- `calculate_data_fee`; throws if the fee is beyond the share supply. -/
def calculateDataFee (bytes : ℕ) (pricePerKbyte : UInt32) : Option UInt64 :=
  let result := bytes * pricePerKbyte.toNat / 1024
  if (result : ℤ) ≤ maxShareSupply then some (UInt64.ofNat result) else none

/-- A sum of two `share_type`s, given by their bits; throws if it overflows. -/
def addShares (a b : UInt64) : Option UInt64 :=
  (shareType (a.toInt64.toInt + b.toInt64.toInt)).map fun _ ↦ a + b

/-- `op.calculate_fee( params )`, by the bits of the `share_type` it returns. -/
def Operation.calculateFee (op : Operation) (k : FeeParameters) : Option UInt64 :=
  match op.rule with
  | .flat => some k.fee
  | .free => some 0
  | .memo none => some k.fee
  | .memo (some size) => do addShares k.fee (← calculateDataFee size k.pricePerKbyte)
  | .assetIssue size => do return k.fee + (← calculateDataFee size k.pricePerKbyte)
  | .data => do return k.fee + (← calculateDataFee op.packSize k.pricePerKbyte)
  | .accountCreate cheap => do
    let coreFeeRequired := if !cheap then k.premiumFee else k.basicFee
    return coreFeeRequired + (← calculateDataFee op.packSize k.pricePerKbyte)
  | .accountUpdate newOptions =>
    if newOptions then do addShares k.fee (← calculateDataFee op.packSize k.pricePerKbyte)
    else some k.fee
  | .accountUpgrade => some k.membershipLifetimeFee
  | .assetCreate symbolSize => do
    let coreFeeRequired :=
      match symbolSize with
      | 3 => k.symbol3
      | 4 => k.symbol4
      | _ => k.longSymbol
    return coreFeeRequired + (← calculateDataFee op.packSize k.pricePerKbyte)
  | .blind outputs => some (k.fee + outputs * k.pricePerOutput.toUInt64)
  | .assert predicates => some (k.fee * predicates)

/-! ## The schedule -/

/-- How a fee cannot be worked out. -/
inductive FeeError where
  /-- An exception is thrown. -/
  | thrown
  /-- The loop does not come to an end. -/
  | endless
deriving DecidableEq

/-- `price::unit_price()`. -/
def unitPrice : Price := ⟨⟨1, coreAsset⟩, ⟨1, coreAsset⟩⟩

/-- `fee_schedule`. -/
structure FeeSchedule where
  /-- `parameters`: those of each kind of operation, or the default ones where it has none. -/
  parameters : ℕ → FeeParameters
  /-- `scale`. -/
  scale : UInt32

namespace FeeSchedule

/-- `scaled`: the core fee. -/
def scaled (s : FeeSchedule) (op : Operation) : Option ℕ := do
  let baseValue ← op.calculateFee (s.parameters op.which)
  let scaled := baseValue.toNat * s.scale.toNat / hundredPercent
  if (scaled : ℤ) ≤ maxShareSupply then return scaled else none

/-- `while( result * core_exchange_rate < asset( scaled ) ) result.amount++`. -/
def adjust (coreExchangeRate : Price) (core : Asset) : ℕ → Asset → Except FeeError Asset
  | 0, _ => .error .endless
  | fuel + 1, result => do
    let back ← orThrow (result.mulPrice coreExchangeRate) .thrown
    if ← orThrow (back.less core) .thrown then
      adjust coreExchangeRate core fuel { result with amount := result.amount + 1 }
    else return result

/-- `calculate_fee`. -/
def calculateFee (s : FeeSchedule) (op : Operation) (coreExchangeRate : Price) :
    Except FeeError Asset := do
  let scaled ← orThrow (s.scaled op) .thrown
  let result ← orThrow (Asset.mulPrice ⟨scaled, coreAsset⟩ coreExchangeRate) .thrown
  let result ← adjust coreExchangeRate ⟨scaled, coreAsset⟩ (2 ^ 64) result
  if result.amount ≤ maxShareSupply then return result else .error .thrown

/-- The loop of `set_fee`, with what is left of its iterations. -/
def setFeeLoop (s : FeeSchedule) (coreExchangeRate : Price) :
    ℕ → Operation → Asset → Asset → Except FeeError (Asset × Operation)
  | 0, op, _, fMax => .ok (fMax, op)
  | n + 1, op, f, fMax => do
    let op := { op with fee := fMax }
    let f2 ← s.calculateFee op coreExchangeRate
    if f = f2 then return (fMax, op)
    else
      let less ← orThrow (fMax.less f2) .thrown
      setFeeLoop s coreExchangeRate n op f2 (if less then f2 else fMax)

/-- `set_fee`: the fee, and the operation with the fee that was set. -/
def setFee (s : FeeSchedule) (op : Operation) (coreExchangeRate : Price) :
    Except FeeError (Asset × Operation) := do
  let f ← s.calculateFee op coreExchangeRate
  s.setFeeLoop coreExchangeRate 4 op f f

/-- `calculate_fee_for_operation`: what an evaluator requires. -/
def requiredFee (s : FeeSchedule) (op : Operation) : Option ℤ :=
  match s.calculateFee op unitPrice with
  | .ok fee => some fee.amount
  | .error _ => none

end FeeSchedule

/-! ## Core exchange rates -/

/-- A price that may be the core exchange rate of the asset `id`: one of the core asset and `id`, of
amounts within the share supply, or the unit price for the core asset itself. -/
structure IsCoreRate (p : Price) (id : AssetId) : Prop where
  /-- The amounts are within the share supply. -/
  base : 0 < p.base.amount ∧ p.base.amount ≤ maxShareSupply
  /-- The amounts are within the share supply. -/
  quote : 0 < p.quote.amount ∧ p.quote.amount ≤ maxShareSupply
  /-- The sides. -/
  sides : p.base.assetId = coreAsset ∧ p.quote.assetId = id ∧ id ≠ coreAsset ∨
    p.quote.assetId = coreAsset ∧ p.base.assetId = id ∧ id ≠ coreAsset ∨
    p = unitPrice ∧ id = coreAsset

/-- The amount on the side of the core asset. -/
def coreSide (p : Price) : ℤ := if p.base.assetId = coreAsset then p.base.amount else p.quote.amount

/-- The amount on the other side. -/
def feeSide (p : Price) : ℤ := if p.base.assetId = coreAsset then p.quote.amount else p.base.amount

variable {p : Price} {id : AssetId}

namespace IsCoreRate

theorem coreSide_pos (h : IsCoreRate p id) : 0 < coreSide p := by
  rw [coreSide]
  split_ifs
  · exact h.base.1
  · exact h.quote.1

theorem feeSide_pos (h : IsCoreRate p id) : 0 < feeSide p := by
  rw [feeSide]
  split_ifs
  · exact h.quote.1
  · exact h.base.1

/-- From the core asset. -/
theorem mulPrice_core (h : IsCoreRate p id) {amount : ℤ} (hnonneg : 0 ≤ amount) :
    Asset.mulPrice ⟨amount, coreAsset⟩ p =
      if amount * feeSide p / coreSide p ≤ maxShareSupply then
        some ⟨amount * feeSide p / coreSide p, id⟩
      else none := by
  have hprod : ∀ x, 0 < x → 0 ≤ amount * x := fun x hx ↦ Int.mul_nonneg hnonneg hx.le
  have hb := h.base.1
  have hq := h.quote.1
  rcases h.sides with ⟨hbase, rfl, -⟩ | ⟨hquote, rfl, hne⟩ | ⟨rfl, rfl⟩
  · simp [Asset.mulPrice, Asset.convert, coreSide, feeSide, hbase, hb, hprod _ hq]
  · simp [Asset.mulPrice, Asset.convert, coreSide, feeSide, hquote, hne, hne.symm, hq, hprod _ hb]
  · simp [Asset.mulPrice, Asset.convert, coreSide, feeSide, unitPrice, hnonneg]

/-- To the core asset. -/
theorem mulPrice_fee (h : IsCoreRate p id) {amount : ℤ} (hnonneg : 0 ≤ amount) :
    Asset.mulPrice ⟨amount, id⟩ p =
      if amount * coreSide p / feeSide p ≤ maxShareSupply then
        some ⟨amount * coreSide p / feeSide p, coreAsset⟩
      else none := by
  have hprod : ∀ x, 0 < x → 0 ≤ amount * x := fun x hx ↦ Int.mul_nonneg hnonneg hx.le
  have hb := h.base.1
  have hq := h.quote.1
  rcases h.sides with ⟨hbase, rfl, hne⟩ | ⟨hquote, rfl, hne⟩ | ⟨rfl, rfl⟩
  · simp [Asset.mulPrice, Asset.convert, coreSide, feeSide, hbase, hne, hq, hprod _ hb]
  · simp [Asset.mulPrice, Asset.convert, coreSide, feeSide, hquote, hne, hb, hprod _ hq]
  · simp [Asset.mulPrice, Asset.convert, coreSide, feeSide, unitPrice, hnonneg]

end IsCoreRate

/-! ## The least fee -/

/-- The fee that a core fee comes to, rounded up. -/
def leastFee (p : Price) (coreFee : ℤ) : ℤ :=
  (coreFee * feeSide p + (coreSide p - 1)) / coreSide p

variable {coreFee : ℤ}

/-- An amount converts back to enough, just if it is not below the least fee. -/
theorem IsCoreRate.leastFee_le_iff (h : IsCoreRate p id) {amount : ℤ} :
    leastFee p coreFee ≤ amount ↔ coreFee ≤ amount * coreSide p / feeSide p := by
  have hc := h.coreSide_pos
  rw [Int.le_ediv_iff_mul_le h.feeSide_pos, leastFee, ← Int.lt_add_one_iff,
    Int.ediv_lt_iff_lt_mul hc, Int.add_mul, Int.one_mul]
  omega

theorem IsCoreRate.leastFee_nonneg (h : IsCoreRate p id) (hnonneg : 0 ≤ coreFee) :
    0 ≤ leastFee p coreFee := by
  have hc := h.coreSide_pos
  exact Int.ediv_nonneg (Int.add_nonneg (Int.mul_nonneg hnonneg h.feeSide_pos.le) (by omega)) hc.le

/-- **The least amount that converts back to enough.** -/
theorem isLeast_leastFee (h : IsCoreRate p id) (hnonneg : 0 ≤ coreFee) :
    IsLeast {amount : ℤ | 0 ≤ amount ∧ coreFee ≤ amount * coreSide p / feeSide p}
      (leastFee p coreFee) :=
  ⟨⟨h.leastFee_nonneg hnonneg, h.leastFee_le_iff.1 le_rfl⟩, fun _ ha ↦ h.leastFee_le_iff.2 ha.2⟩

/-- Rounding down gives the least fee, or one less. -/
theorem IsCoreRate.leastFee_cases (h : IsCoreRate p id) :
    leastFee p coreFee = coreFee * feeSide p / coreSide p ∨
      leastFee p coreFee = coreFee * feeSide p / coreSide p + 1 := by
  have hc := h.coreSide_pos
  have hlow : coreFee * feeSide p / coreSide p ≤ leastFee p coreFee :=
    Int.ediv_le_ediv hc (by omega)
  have hhigh : leastFee p coreFee ≤ coreFee * feeSide p / coreSide p + 1 := by
    rw [leastFee, ← Int.add_mul_ediv_right _ _ hc.ne', Int.one_mul]
    exact Int.ediv_le_ediv hc (by omega)
  omega

/-! ## `calculate_fee` -/

namespace FeeSchedule

variable {s : FeeSchedule} {op : Operation}

theorem less_core (a b : ℤ) : Asset.less ⟨a, coreAsset⟩ ⟨b, coreAsset⟩ = some (decide (a < b)) :=
  if_pos rfl

/-- One more round of the loop. -/
theorem adjust_succ (h : IsCoreRate p id) {amount : ℤ} (hnonneg : 0 ≤ amount) (fuel : ℕ) :
    adjust p ⟨coreFee, coreAsset⟩ (fuel + 1) ⟨amount, id⟩ =
      if amount * coreSide p / feeSide p ≤ maxShareSupply then
        if leastFee p coreFee ≤ amount then .ok ⟨amount, id⟩
        else adjust p ⟨coreFee, coreAsset⟩ fuel ⟨amount + 1, id⟩
      else .error .thrown := by
  rw [adjust, h.mulPrice_fee hnonneg]
  split_ifs with hmax hleast
  · have henough : ¬ amount * coreSide p / feeSide p < coreFee :=
      not_lt.2 (h.leastFee_le_iff.1 hleast)
    simp [bind, Except.bind, orThrow, less_core, henough, pure, Except.pure]
  · have hless : amount * coreSide p / feeSide p < coreFee :=
      not_le.1 fun hle ↦ hleast (h.leastFee_le_iff.2 hle)
    simp [bind, Except.bind, orThrow, less_core, hless]
  · rfl

/-- **The loop comes to the least fee**, in two rounds at most, unless it is worth more than the
share supply. -/
theorem adjust_eq (h : IsCoreRate p id) (hnonneg : 0 ≤ coreFee) (hmax : coreFee ≤ maxShareSupply)
    (fuel : ℕ) :
    adjust p ⟨coreFee, coreAsset⟩ (fuel + 2) ⟨coreFee * feeSide p / coreSide p, id⟩ =
      if leastFee p coreFee * coreSide p / feeSide p ≤ maxShareSupply then
        .ok ⟨leastFee p coreFee, id⟩
      else .error .thrown := by
  have hfloor : 0 ≤ coreFee * feeSide p / coreSide p :=
    Int.ediv_nonneg (Int.mul_nonneg hnonneg h.feeSide_pos.le) h.coreSide_pos.le
  rw [adjust_succ h hfloor]
  have hcases : leastFee p coreFee = _ ∨ leastFee p coreFee = _ := h.leastFee_cases
  rcases hcases with hleast | hleast
  · rw [hleast, if_pos le_rfl]
  · -- what is not enough is not worth more than the core fee
    have hback : coreFee * feeSide p / coreSide p * coreSide p / feeSide p ≤ maxShareSupply := by
      have hless : ¬ coreFee ≤ coreFee * feeSide p / coreSide p * coreSide p / feeSide p :=
        fun hle ↦ absurd (h.leastFee_le_iff.2 hle) (by omega)
      omega
    rw [if_pos hback, if_neg (by omega), ← hleast, adjust_succ h (h.leastFee_nonneg hnonneg),
      if_pos le_rfl]

theorem scaled_le {scaled : ℕ} (h : s.scaled op = some scaled) :
    (scaled : ℤ) ≤ maxShareSupply := by
  obtain ⟨baseValue, -, h⟩ := Option.bind_eq_some_iff.1 h
  dsimp only at h
  split_ifs at h with hle
  cases h
  exact hle

/-- **What `calculate_fee` returns**: the least fee, unless an amount is beyond the share supply. -/
theorem calculateFee_eq (h : IsCoreRate p id) {scaled : ℕ} (hscaled : s.scaled op = some scaled) :
    s.calculateFee op p =
      if leastFee p scaled ≤ maxShareSupply ∧
          leastFee p scaled * coreSide p / feeSide p ≤ maxShareSupply then
        .ok ⟨leastFee p scaled, id⟩
      else .error .thrown := by
  have hmax := scaled_le hscaled
  have hnonneg : (0 : ℤ) ≤ scaled := Int.natCast_nonneg scaled
  have hloop := adjust_eq h hnonneg hmax (2 ^ 64 - 2)
  have hfloor : scaled * feeSide p / coreSide p ≤ leastFee p scaled :=
    Int.ediv_le_ediv h.coreSide_pos (by have := h.coreSide_pos; omega)
  rw [calculateFee, hscaled]
  simp only [orThrow, bind, Except.bind, Option.elim_some, h.mulPrice_core hnonneg]
  by_cases hfirst : scaled * feeSide p / coreSide p ≤ maxShareSupply
  · rw [if_pos hfirst]
    simp only [Option.elim_some]
    have hloop' : adjust p ⟨scaled, coreAsset⟩ (2 ^ 64) ⟨scaled * feeSide p / coreSide p, id⟩ = _ :=
      hloop
    by_cases hback : leastFee p scaled * coreSide p / feeSide p ≤ maxShareSupply
    · rw [if_pos hback] at hloop'
      simp only [hloop', hback, and_true]
      rfl
    · rw [if_neg hback] at hloop'
      simp only [hloop', hback, and_false]
      rfl
  · rw [if_neg hfirst, if_neg fun hle ↦ hfirst (hfloor.trans hle.1)]
    rfl

/-- Without a core fee it throws. -/
theorem calculateFee_of_none (hscaled : s.scaled op = none) :
    s.calculateFee op p = .error .thrown := by
  rw [calculateFee, hscaled]
  rfl

/-- What `calculate_fee` returned is in the asset of the rate, and converts back. -/
theorem calculateFee_eq_ok (h : IsCoreRate p id) {f : Asset} (hf : s.calculateFee op p = .ok f) :
    ∃ scaled : ℕ, s.scaled op = some scaled ∧ f = ⟨leastFee p scaled, id⟩ ∧
      leastFee p scaled ≤ maxShareSupply ∧
        leastFee p scaled * coreSide p / feeSide p ≤ maxShareSupply := by
  cases hscaled : s.scaled op with
  | none =>
    rw [calculateFee_of_none hscaled] at hf
    cases hf
  | some scaled =>
    rw [calculateFee_eq h hscaled] at hf
    split_ifs at hf with hle
    exact ⟨scaled, rfl, (Except.ok.inj hf).symm, hle⟩

/-! ## `set_fee` -/

/-- A fee of the same asset takes the same space. -/
theorem scaled_congr {a b : Asset} (hid : a.assetId = b.assetId) :
    s.scaled { op with fee := a } = s.scaled { op with fee := b } := by
  have hsize : ({ op with fee := a } : Operation).packSize =
      ({ op with fee := b } : Operation).packSize := by
    rw [Operation.packSize, Operation.packSize, assetPackSize, assetPackSize, hid]
  have hfee : ∀ k, ({ op with fee := a } : Operation).calculateFee k =
      ({ op with fee := b } : Operation).calculateFee k := by
    intro k
    simp only [Operation.calculateFee, hsize]
  simp only [scaled, hfee]

theorem calculateFee_congr {a b : Asset} (hid : a.assetId = b.assetId) :
    s.calculateFee { op with fee := a } p = s.calculateFee { op with fee := b } p := by
  simp only [calculateFee, scaled_congr hid]

/-- **What `set_fee` does**: the fee is worked out for the operation as it is, and again with this
fee in it, and the larger one is taken. -/
theorem setFee_eq (h : IsCoreRate p id) : s.setFee op p = (do
    let f ← s.calculateFee op p
    let f2 ← s.calculateFee { op with fee := f } p
    let fMax := if f.amount < f2.amount then f2 else f
    return (fMax, { op with fee := fMax })) := by
  rw [setFee]
  cases hf : s.calculateFee op p with
  | error e => rfl
  | ok f =>
    obtain ⟨a, rfl⟩ : ∃ a, f = ⟨a, id⟩ := by
      obtain ⟨_, -, rfl, -⟩ := calculateFee_eq_ok h hf
      exact ⟨_, rfl⟩
    change s.setFeeLoop p 4 op ⟨a, id⟩ ⟨a, id⟩ = _
    rw [setFeeLoop]
    simp only [bind, Except.bind]
    cases hf2 : s.calculateFee { op with fee := ⟨a, id⟩ } p with
    | error e => rfl
    | ok f2 =>
      obtain ⟨b, rfl⟩ : ∃ b, f2 = ⟨b, id⟩ := by
        obtain ⟨_, -, rfl, -⟩ := calculateFee_eq_ok h hf2
        exact ⟨_, rfl⟩
      dsimp only
      by_cases hab : a = b
      · rw [if_pos (by rw [hab]), if_neg (by rw [hab]; exact lt_irrefl b)]
      · -- the second fee is the one that is worked out from now on
        have hless : orThrow (Asset.less ⟨a, id⟩ ⟨b, id⟩) FeeError.thrown =
            .ok (decide (a < b)) := by
          rw [Asset.less, if_pos rfl]
          rfl
        have hagain : s.calculateFee { op with fee := if a < b then ⟨b, id⟩ else ⟨a, id⟩ } p =
            .ok ⟨b, id⟩ := by
          rw [← hf2]
          refine calculateFee_congr ?_
          split_ifs <;> rfl
        rw [if_neg fun h ↦ hab (congrArg Asset.amount h), hless]
        dsimp only
        rw [setFeeLoop]
        simp only [decide_eq_true_eq, bind, Except.bind, hagain]
        rfl

/-! ## The check -/

theorem isCoreRate_unitPrice : IsCoreRate unitPrice coreAsset :=
  ⟨by decide, by decide, .inr (.inr ⟨rfl, rfl⟩)⟩

/-- An evaluator requires the core fee. -/
theorem requiredFee_eq : s.requiredFee op = (s.scaled op).map (Nat.cast : ℕ → ℤ) := by
  rw [requiredFee]
  cases hscaled : s.scaled op with
  | none =>
    rw [calculateFee_of_none hscaled]
    rfl
  | some scaled =>
    have hmax := scaled_le hscaled
    have hcore : coreSide unitPrice = 1 := rfl
    have hfee : feeSide unitPrice = 1 := rfl
    have hleast : leastFee unitPrice scaled = scaled := by
      rw [leastFee, hcore, hfee, Int.mul_one, Int.ediv_one]
      omega
    rw [calculateFee_eq isCoreRate_unitPrice hscaled, hleast, hcore, hfee, Int.mul_one,
      Int.ediv_one, if_pos ⟨hmax, hmax⟩]
    rfl

/-- What `prepare_fee` makes of a fee that converts. -/
theorem eq_of_prepareFee (h : IsCoreRate p id) {l : Ledger} {payer : AccountId} {fee paid : ℤ}
    (hasset : ∃ asset, l.assets id = some asset ∧ asset.coreExchangeRate = p)
    (hpaid : Asset.mulPrice ⟨fee, id⟩ p = some ⟨paid, coreAsset⟩) {coreFeePaid : ℤ}
    (hprepare : l.prepareFee payer ⟨fee, id⟩ = some coreFeePaid) : coreFeePaid = paid := by
  obtain ⟨asset, hasset, hrate⟩ := hasset
  by_cases hcore : id = coreAsset
  · obtain ⟨rfl, hnonneg, -⟩ := (Ledger.prepareFee_core hcore).1 hprepare
    obtain ⟨rfl, -⟩ : p = unitPrice ∧ id = coreAsset := by
      rcases h.sides with ⟨-, -, hne⟩ | ⟨-, -, hne⟩ | hunit
      · exact absurd hcore hne
      · exact absurd hcore hne
      · exact hunit
    rw [h.mulPrice_fee hnonneg] at hpaid
    split_ifs at hpaid
    have hamount := congrArg Asset.amount (Option.some_inj.1 hpaid)
    simpa [coreSide, feeSide, unitPrice] using hamount
  · simp only [Ledger.prepareFee, Option.bind_eq_bind, Option.bind_eq_some_iff,
      Option.guard_eq_some', exists_const, hasset, Option.some.injEq, exists_eq_left', if_neg hcore,
      hrate, hpaid] at hprepare
    obtain ⟨-, _, -, -, -, -, hprepare⟩ := hprepare
    exact (Option.some.inj hprepare).symm

end FeeSchedule

/-- **A fee that was set suffices, and is worked out as the least.**  `calculate_fee` comes to an
end with every core exchange rate, and returns the least amount that converts back to the core fee,
unless an amount is beyond the share supply; and the fee that `set_fee` leaves in the operation
passes the check of an evaluator. -/
theorem set_fee_least_sufficient (s : FeeSchedule) {p : Price} {id : AssetId}
    (h : IsCoreRate p id) (op : Operation) :
    (s.scaled op = none → s.calculateFee op p = .error .thrown) ∧
    (∀ coreFee, s.scaled op = some coreFee → ∃ least : ℤ,
      IsLeast {amount : ℤ | 0 ≤ amount ∧ coreFee ≤ amount * coreSide p / feeSide p} least ∧
        s.calculateFee op p =
          if least ≤ maxShareSupply ∧ least * coreSide p / feeSide p ≤ maxShareSupply then
            .ok ⟨least, id⟩
          else .error .thrown) ∧
    ((∃ r, s.setFee op p = .ok r) ↔ ∃ f f2, s.calculateFee op p = .ok f ∧
      s.calculateFee { op with fee := f } p = .ok f2) ∧
    ∀ f op', s.setFee op p = .ok (f, op') → op' = { op with fee := f } ∧ f.assetId = id ∧
      (op.fee.assetId = id → s.calculateFee op' p = .ok f) ∧
      ∃ required paid, s.requiredFee op' = some required ∧ required ≤ paid ∧ 0 ≤ f.amount ∧
        f.mulPrice p = some ⟨paid, coreAsset⟩ ∧
        ∀ (l : Ledger) payer coreFeePaid,
          (∃ asset, l.assets id = some asset ∧ asset.coreExchangeRate = p) →
            l.prepareFee payer f = some coreFeePaid →
              ∃ f ∈ s.requiredFee op', coreFeePaid ≥ f := by
  refine ⟨FeeSchedule.calculateFee_of_none, fun coreFee hscaled ↦ ⟨leastFee p coreFee,
    isLeast_leastFee h (Int.natCast_nonneg coreFee), FeeSchedule.calculateFee_eq h hscaled⟩,
    ?_, fun f op' hset ↦ ?_⟩
  · rw [FeeSchedule.setFee_eq h]
    simp only [bind_eq_ok]
    constructor
    · rintro ⟨_, f, hf, f2, hf2, -⟩
      exact ⟨f, f2, hf, hf2⟩
    · rintro ⟨f, f2, hf, hf2⟩
      exact ⟨_, f, hf, f2, hf2, rfl⟩
  · rw [FeeSchedule.setFee_eq h] at hset
    obtain ⟨f₁, hf₁, hset⟩ := bind_eq_ok.1 hset
    obtain ⟨f₂, hf₂, hset⟩ := bind_eq_ok.1 hset
    have hsecond := hf₂
    obtain ⟨scaled₁, -, rfl, -, hback₁⟩ := FeeSchedule.calculateFee_eq_ok h hf₁
    obtain ⟨scaled₂, hscaled₂, rfl, -, hback₂⟩ := FeeSchedule.calculateFee_eq_ok h hf₂
    have hnonneg₁ := h.leastFee_nonneg (Int.natCast_nonneg scaled₁)
    have hnonneg₂ := h.leastFee_nonneg (Int.natCast_nonneg scaled₂)
    -- the larger of the two fees
    obtain ⟨m, hm, hge, hback⟩ : ∃ m,
        (if leastFee p scaled₁ < leastFee p scaled₂ then (⟨leastFee p scaled₂, id⟩ : Asset)
          else ⟨leastFee p scaled₁, id⟩) = ⟨m, id⟩ ∧ leastFee p scaled₂ ≤ m ∧
            m * coreSide p / feeSide p ≤ maxShareSupply := by
      split_ifs with hlt
      · exact ⟨_, rfl, le_rfl, hback₂⟩
      · exact ⟨_, rfl, not_lt.1 hlt, hback₁⟩
    obtain ⟨rfl, rfl⟩ : (⟨m, id⟩ : Asset) = f ∧ { op with fee := ⟨m, id⟩ } = op' := by
      rw [← hm]
      exact Prod.mk.inj (Except.ok.inj hset)
    have hscaled : s.scaled { op with fee := ⟨m, id⟩ } = some scaled₂ :=
      (FeeSchedule.scaled_congr rfl).trans hscaled₂
    have hrequired : s.requiredFee { op with fee := ⟨m, id⟩ } = some (scaled₂ : ℤ) := by
      rw [FeeSchedule.requiredFee_eq, hscaled]
      rfl
    have hmnonneg : 0 ≤ m := hnonneg₂.trans hge
    have hpaid := h.mulPrice_fee hmnonneg
    rw [if_pos hback] at hpaid
    have henough := h.leastFee_le_iff.1 hge
    refine ⟨rfl, rfl, fun hid ↦ ?_, _, _, hrequired, henough, hmnonneg, hpaid,
      fun l payer coreFeePaid hasset hprepare ↦ ⟨_, hrequired, ?_⟩⟩
    · -- the fee was in this asset before, so that the second fee is the first
      have hfirst : s.calculateFee { op with fee := op.fee } p = .ok ⟨leastFee p scaled₁, id⟩ := hf₁
      rw [FeeSchedule.calculateFee_congr (b := ⟨leastFee p scaled₁, id⟩) hid, hsecond] at hfirst
      have heq := congrArg Asset.amount (Except.ok.inj hfirst)
      dsimp only at heq
      have hlast : s.calculateFee { op with fee := ⟨m, id⟩ } p = .ok ⟨leastFee p scaled₂, id⟩ :=
        (FeeSchedule.calculateFee_congr rfl).trans hsecond
      rw [hlast, ← hm, if_neg (by omega), heq]
    · rw [FeeSchedule.eq_of_prepareFee h hasset hpaid hprepare]
      exact henough

/-- A schedule in which a kilobyte costs seven. -/
def someSchedule : FeeSchedule where
  parameters _ := { pricePerKbyte := 7 }
  scale := 10000

/-- One of the core asset for two of the asset 200. -/
def someRate : Price := ⟨⟨1, coreAsset⟩, ⟨2, 200⟩⟩

/-- An operation that takes up less than 878 bytes, as long as its fee is in the core asset. -/
def customOperation : Operation := ⟨34, ⟨0, coreAsset⟩, 868, .data⟩

theorem isCoreRate_someRate : IsCoreRate someRate 200 :=
  ⟨by decide, by decide, .inl ⟨rfl, rfl, by decide⟩⟩

/-- The fee is 10 for the operation as it is, and 12 when this is set. -/
theorem setFee_customOperation : someSchedule.setFee customOperation someRate =
    .ok (⟨12, 200⟩, { customOperation with fee := ⟨12, 200⟩ }) := by
  have hfirst : someSchedule.scaled customOperation = some 5 := by decide +kernel
  have hsecond : someSchedule.scaled { customOperation with fee := ⟨10, 200⟩ } = some 6 := by
    decide +kernel
  have hten : leastFee someRate (5 : ℕ) = 10 := by decide
  have htwelve : leastFee someRate (6 : ℕ) = 12 := by decide
  have hf := FeeSchedule.calculateFee_eq isCoreRate_someRate hfirst
  have hf2 := FeeSchedule.calculateFee_eq isCoreRate_someRate hsecond
  rw [hten, if_pos (by decide)] at hf
  rw [htwelve, if_pos (by decide)] at hf2
  rw [FeeSchedule.setFee_eq isCoreRate_someRate, hf]
  simp only [bind, Except.bind, hf2]
  rfl

/-- The fee that was set is enough for the larger operation. -/
theorem set_fee_custom : ∃ required paid, someSchedule.requiredFee
    { customOperation with fee := ⟨12, 200⟩ } = some required ∧ required ≤ paid ∧
      Asset.mulPrice ⟨12, 200⟩ someRate = some ⟨paid, coreAsset⟩ := by
  obtain ⟨-, -, -, hpasses⟩ := set_fee_least_sufficient someSchedule isCoreRate_someRate
    customOperation
  obtain ⟨-, -, -, required, paid, hrequired, hle, -, hpaid, -⟩ :=
    hpasses _ _ setFee_customOperation
  exact ⟨required, paid, hrequired, hle, hpaid⟩

/-- A schedule that asks for seven tenths of the share supply. -/
def dearSchedule : FeeSchedule where
  parameters _ := { fee := 700000000000000 }
  scale := 10000

/-- A rate at which the other asset is worth six tenths of the share supply. -/
def dearRate : Price := ⟨⟨600000000000000, coreAsset⟩, ⟨1, 1⟩⟩

/-- **A fee that is worth more than the share supply** is not returned: two of the other asset are
the least that is enough. -/
theorem calculate_fee_throws : IsCoreRate dearRate 1 ∧
    dearSchedule.scaled ⟨0, ⟨0, coreAsset⟩, 0, .flat⟩ = some 700000000000000 ∧
    IsLeast {amount : ℤ | 0 ≤ amount ∧
      700000000000000 ≤ amount * coreSide dearRate / feeSide dearRate} 2 ∧
    dearSchedule.calculateFee ⟨0, ⟨0, coreAsset⟩, 0, .flat⟩ dearRate = .error .thrown := by
  have hrate : IsCoreRate dearRate 1 := ⟨by decide, by decide, .inl ⟨rfl, rfl, by decide⟩⟩
  have hscaled : dearSchedule.scaled ⟨0, ⟨0, coreAsset⟩, 0, .flat⟩ = some 700000000000000 := by
    decide
  have hleast : leastFee dearRate (700000000000000 : ℕ) = 2 := by decide
  refine ⟨hrate, hscaled, hleast ▸ isLeast_leastFee hrate (Int.natCast_nonneg 700000000000000), ?_⟩
  rw [FeeSchedule.calculateFee_eq hrate hscaled, hleast]
  decide

end Graphene.SetFee
