import Graphene.Ledger.Fees
import Mathlib.Algebra.Order.Ring.Int
import Mathlib.Tactic.Linarith

/-!
# The budget of a maintenance interval

At every maintenance `process_budget` decides what the witnesses are paid until the next one: a part
of the reserve, the accumulated fees and what is left of the budget before.  The supply of the core
asset changes by the difference, and every block takes its witness's pay out of the budget.

* `BudgetState`, `BudgetState.initializeBudgetRecord`, `BudgetState.processBudget` — the budget, in
  the arithmetic of the source.
* `BudgetState.payWitness`, `BudgetState.schedule`, `BudgetState.applyBlock` — a block.
* `BudgetOk` — what is to hold of a budget, in exact arithmetic.
* `budget_bounds_issuance` — along every run it does, exactly if the time of the next maintenance
  and the requested budget fit the types they are kept in.
* `budget_overflows` — a requested budget that does not.

`share_type` is `safe<int64_t>`, whose sums and differences throw when they do not fit.
-/

set_option autoImplicit false

namespace Graphene

/-! ## Arithmetic -/

/-- A `uint64_t` as an `int64_t`. -/
def asInt64 (x : ℤ) : ℤ := Int.bmod x (2 ^ 64)

theorem asInt64_eq_self {x : ℤ} : asInt64 x = x ↔ FitsInt64 x := by
  rw [asInt64, Int.bmod_def, FitsInt64]
  split <;> omega

/-- A value as a `uint128_t`. -/
def asUint128 (x : ℤ) : ℕ := (x % 2 ^ 128).toNat

/-! ## The state -/

/-- `HARDFORK_3_TIME`. -/
def hardfork3Time : ℕ := 1509454800

/-- `GRAPHENE_CORE_ASSET_CYCLE_RATE`. -/
def coreAssetCycleRate : ℕ := 1775

/-- `GRAPHENE_CORE_ASSET_CYCLE_RATE_BITS`. -/
def coreAssetCycleRateBits : ℕ := 32

/-- The core asset. -/
structure CoreAsset where
  /-- `options.max_supply`. -/
  maxSupply : ℤ
  /-- `current_supply`. -/
  currentSupply : ℤ
  /-- `accumulated_fees`. -/
  accumulatedFees : ℤ
deriving DecidableEq

/-- The chain parameters that maintenance reads. -/
structure BudgetParameters where
  /-- `block_interval`. -/
  blockInterval : ℕ
  /-- `maintenance_interval`. -/
  maintenanceInterval : ℕ
  /-- `witness_pay_per_block`. -/
  witnessPayPerBlock : ℤ
deriving DecidableEq

/-- The objects that the budget goes by. -/
structure BudgetState where
  /-- `head_block_number`. -/
  headBlockNumber : ℕ
  /-- `time` of the head block. -/
  headBlockTime : ℕ
  /-- `next_maintenance_time`. -/
  nextMaintenanceTime : ℕ
  /-- `last_budget_time`. -/
  lastBudgetTime : ℕ
  /-- `witness_budget`. -/
  witnessBudget : ℤ
  /-- `witness_pay_per_block` of the dynamic properties. -/
  witnessPayPerBlock : ℤ
  /-- The core asset. -/
  core : CoreAsset
  /-- The chain parameters. -/
  parameters : BudgetParameters
deriving DecidableEq

/-- `budget_record`. -/
structure BudgetRecord where
  /-- `time_since_last_budget`. -/
  timeSinceLastBudget : ℕ := 0
  /-- `from_initial_reserve`. -/
  fromInitialReserve : ℤ := 0
  /-- `from_accumulated_fees`. -/
  fromAccumulatedFees : ℤ := 0
  /-- `from_unused_witness_budget`. -/
  fromUnusedWitnessBudget : ℤ := 0
  /-- `requested_witness_budget`. -/
  requestedWitnessBudget : ℤ := 0
  /-- `witness_pay_per_block`. -/
  witnessPayPerBlock : ℤ := 0
  /-- `total_budget`. -/
  totalBudget : ℤ := 0
  /-- `witness_budget`. -/
  witnessBudget : ℤ := 0
  /-- `worker_budget`. -/
  workerBudget : ℤ := 0
  /-- `leftover_worker_funds`. -/
  leftoverWorkerFunds : ℤ := 0
  /-- `supply_delta`. -/
  supplyDelta : ℤ := 0

/-! ## `process_budget` -/

/-- `supply_delta`. -/
def BudgetRecord.delta (record : BudgetRecord) (witnessBudget : ℤ) : Option ℤ := do
  let delta ← shareType (witnessBudget + record.workerBudget)
  let delta ← shareType (delta - record.leftoverWorkerFunds)
  let delta ← shareType (delta - record.fromAccumulatedFees)
  shareType (delta - record.fromUnusedWitnessBudget)

namespace BudgetState

/-- `budget_u128` of `initialize_budget_record`. -/
def cycledBudget (reserve : ℤ) (dt : ℕ) : ℕ :=
  let budget := asUint128 (if reserve < 0 then 0 else reserve)
  let budget := budget * dt % 2 ^ 128
  let budget := budget * coreAssetCycleRate % 2 ^ 128
  -- round up, so that all of the reserve can be used in the end
  let budget := (budget + (2 ^ coreAssetCycleRateBits - 1)) % 2 ^ 128
  budget >>> coreAssetCycleRateBits

/-- What `initialize_budget_record` takes of the reserve; `to_uint64` throws where it does not
fit. -/
def spendable (reserve : ℤ) (dt : ℕ) : Option ℤ :=
  let budget := cycledBudget reserve dt
  if budget < asUint128 reserve then
    if budget < 2 ^ 64 then some (asInt64 budget) else none
  else some reserve

/-- `from_initial_reserve`: `reserved`, until the hard fork. -/
def fromInitialReserve (s : BudgetState) : Option ℤ := do
  let reserved ← shareType (s.core.maxSupply - s.core.currentSupply)
  return if s.headBlockTime ≥ hardfork3Time then 0 else reserved

/-- `initialize_budget_record`. -/
def initializeBudgetRecord (s : BudgetState) (now : ℕ) : Option BudgetRecord := do
  let initial ← s.fromInitialReserve
  let record : BudgetRecord :=
    { fromInitialReserve := initial
      fromAccumulatedFees := s.core.accumulatedFees
      fromUnusedWitnessBudget := s.witnessBudget }
  if s.lastBudgetTime = 0 ∨ now ≤ s.lastBudgetTime then some record
  else do
    let dt := now - s.lastBudgetTime
    let reserve ← shareType (initial + s.core.accumulatedFees)
    let reserve ← shareType (reserve + s.witnessBudget)
    let total ← spendable reserve dt
    return { record with timeSinceLastBudget := dt, totalBudget := total }

/-- `blocks_to_maint`, in `uint64_t`. -/
def blocksToMaint (s : BudgetState) (timeToMaint : ℕ) : ℕ :=
  (timeToMaint + s.parameters.blockInterval + 2 ^ 64 - 1) % 2 ^ 64 / s.parameters.blockInterval

/-- What the assertion compares it with. -/
def expectedDelta (s : BudgetState) (witnessBudget : ℤ) : Option ℤ := do
  let delta ← shareType (witnessBudget - s.core.accumulatedFees)
  shareType (delta - s.witnessBudget)

/-- `process_budget`; an assertion that fails ends it, as an exception does. -/
def processBudget (s : BudgetState) : Option (BudgetRecord × BudgetState) := do
  let now := s.headBlockTime
  let timeToMaint : ℤ := (s.nextMaintenanceTime : ℤ) - now
  guard (timeToMaint > 0)
  guard (s.parameters.blockInterval > 0)
  let blocksToMaint := s.blocksToMaint timeToMaint.toNat
  let record ← s.initializeBudgetRecord now
  let requested := asInt64 (s.parameters.witnessPayPerBlock * blocksToMaint)
  let witnessBudget := record.totalBudget
  let witnessPayPerBlock := witnessBudget.tdiv (asInt64 blocksToMaint)
  let delta ← record.delta witnessBudget
  let supply ← shareType (s.core.currentSupply + delta)
  let expected ← s.expectedDelta witnessBudget
  guard (delta = expected)
  return (
    { record with
      requestedWitnessBudget := requested
      witnessPayPerBlock := witnessPayPerBlock
      witnessBudget := witnessBudget
      supplyDelta := delta },
    { s with
      core := { s.core with currentSupply := supply, accumulatedFees := 0 }
      witnessBudget := witnessBudget
      witnessPayPerBlock := witnessPayPerBlock
      lastBudgetTime := now })

end BudgetState

/-! ## A block -/

/-- What there is in a block about the budget: its time, and what it makes of the core asset and of
the parameters. -/
structure BudgetBlock where
  /-- `timestamp`. -/
  timestamp : ℕ
  /-- The core asset after the transactions. -/
  afterTransactions : CoreAsset
  /-- The core asset after the fees of the accounts are processed, where maintenance is due. -/
  afterAccounts : CoreAsset
  /-- `pending_parameters`, where maintenance is due. -/
  pendingParameters : Option BudgetParameters

namespace BudgetState

/-- A block up to `update_signing_witness`. -/
def payWitness (s : BudgetState) (b : BudgetBlock) : Option BudgetState := do
  let witnessPay := min s.witnessPayPerBlock s.witnessBudget
  let witnessBudget ← shareType (s.witnessBudget - witnessPay)
  return { s with
    core := b.afterTransactions
    headBlockNumber := s.headBlockNumber + 1
    headBlockTime := b.timestamp
    witnessBudget := witnessBudget }

/-- The time of the next maintenance, in `uint32_t`. -/
def nextTime (s : BudgetState) (maintenanceInterval : ℕ) : ℕ :=
  if s.headBlockNumber = 1 then
    (s.headBlockTime / maintenanceInterval + 1) * maintenanceInterval % 2 ^ 32
  else
    let y := (s.headBlockTime - s.nextMaintenanceTime) / maintenanceInterval
    (s.nextMaintenanceTime + (y + 1) * maintenanceInterval % 2 ^ 32) % 2 ^ 32

/-- `perform_chain_maintenance` up to `process_budget`. -/
def schedule (s : BudgetState) (b : BudgetBlock) : BudgetState :=
  let parameters := b.pendingParameters.getD s.parameters
  { s with
    core := b.afterAccounts
    parameters := parameters
    nextMaintenanceTime := s.nextTime parameters.maintenanceInterval }

/-- `_apply_block`. -/
def applyBlock (s : BudgetState) (b : BudgetBlock) : Option BudgetState := do
  let s₁ ← s.payWitness b
  if s.nextMaintenanceTime ≤ b.timestamp then (s₁.schedule b).processBudget.map Prod.snd
  else some s₁

end BudgetState

/-! ## What the budget is to be -/

namespace BudgetState

/-- What may still be issued, until the hard fork. -/
def initialReserve (s : BudgetState) : ℤ :=
  if s.headBlockTime ≥ hardfork3Time then 0 else s.core.maxSupply - s.core.currentSupply

/-- What there is to be spent: what may still be issued, the fees, and what is left of the last
budget. -/
def reserve (s : BudgetState) : ℤ :=
  s.initialReserve + s.core.accumulatedFees + s.witnessBudget

/-- The part of the reserve that is due, rounded up. -/
def due (s : BudgetState) : ℤ :=
  if s.lastBudgetTime = 0 ∨ s.headBlockTime ≤ s.lastBudgetTime then 0
  else
    min (max 0 s.reserve)
      ((max 0 s.reserve * (s.headBlockTime - s.lastBudgetTime : ℕ) * coreAssetCycleRate +
        (2 ^ coreAssetCycleRateBits - 1)) / 2 ^ coreAssetCycleRateBits)

/-- How many blocks there are until the next maintenance, rounded up. -/
def blocks (s : BudgetState) : ℕ :=
  (s.nextMaintenanceTime - s.headBlockTime + s.parameters.blockInterval - 1) /
    s.parameters.blockInterval

/-- The supply of the core asset covers its fees and a budget. -/
structure Covers (core : CoreAsset) (budget : ℤ) : Prop where
  /-- The accumulated fees are not negative. -/
  fees_nonneg : 0 ≤ core.accumulatedFees
  /-- The supply covers both. -/
  covered : core.accumulatedFees + budget ≤ core.currentSupply
  /-- The supply is an `int64_t`. -/
  supply_lt : core.currentSupply < 2 ^ 63
  /-- The maximal supply is not negative. -/
  max_nonneg : 0 ≤ core.maxSupply
  /-- It is an `int64_t`. -/
  max_lt : core.maxSupply < 2 ^ 63

/-- The numbers that a budget starts from are of the size they are kept in, and the supply covers
the fees and the budget, which are part of it. -/
structure Backed (s : BudgetState) : Prop extends Covers s.core s.witnessBudget where
  /-- The witness budget is not negative. -/
  budget_nonneg : 0 ≤ s.witnessBudget

/-- What is to hold of a budget. -/
structure BudgetOk (s : BudgetState) (record : BudgetRecord) (s' : BudgetState) : Prop where
  /-- The next maintenance is in the future. -/
  future : s.headBlockTime < s.nextMaintenanceTime
  /-- All that is due is for the witnesses. -/
  witnessBudget_eq : s'.witnessBudget = record.totalBudget
  /-- What is due is computed exactly. -/
  totalBudget_eq : record.totalBudget = s.due
  /-- It is not negative. -/
  nonneg : 0 ≤ s'.witnessBudget
  /-- It is not more than there is. -/
  le_reserve : s'.witnessBudget ≤ max 0 s.reserve
  /-- The supply changes by the budget less the fees and what was left. -/
  supply_eq : s'.core.currentSupply = s.core.currentSupply + record.supplyDelta
  /-- The assertion on the difference. -/
  delta_eq : record.supplyDelta = s'.witnessBudget - s.core.accumulatedFees - s.witnessBudget
  /-- The supply does not grow beyond what it may be. -/
  supply_le : s'.core.currentSupply ≤ max s.core.currentSupply s.core.maxSupply
  /-- From the hard fork on it does not grow. -/
  supply_le_of_hardfork : hardfork3Time ≤ s.headBlockTime →
    s'.core.currentSupply ≤ s.core.currentSupply
  /-- The pay of a block is computed exactly. -/
  pay_eq : s'.witnessPayPerBlock = s'.witnessBudget / s.blocks
  /-- So is what the parameters ask for. -/
  requested_eq : record.requestedWitnessBudget = s.parameters.witnessPayPerBlock * s.blocks

/-! ## The arithmetic is exact -/

variable {s : BudgetState}

theorem cycledBudget_of_nonneg {r : ℤ} (hr : 0 ≤ r) (hlt : r < 2 ^ 63) {dt : ℕ}
    (hdt : dt < 2 ^ 32) : cycledBudget r dt =
      (r.toNat * dt * coreAssetCycleRate + (2 ^ coreAssetCycleRateBits - 1)) /
        2 ^ coreAssetCycleRateBits := by
  obtain ⟨n, rfl⟩ := Int.eq_ofNat_of_zero_le hr
  have hn : n < 2 ^ 63 := by exact_mod_cast hlt
  have hmul : n * dt ≤ 2 ^ 63 * 2 ^ 32 := Nat.mul_le_mul hn.le hdt.le
  have hbudget : asUint128 (if (n : ℤ) < 0 then 0 else (n : ℤ)) = n := by
    rw [if_neg (by omega), asUint128]
    omega
  have h₁ : n * dt % 2 ^ 128 = n * dt := Nat.mod_eq_of_lt (by omega)
  have h₂ : n * dt * 1775 % 2 ^ 128 = n * dt * 1775 := Nat.mod_eq_of_lt (by omega)
  have h₃ : (n * dt * 1775 + (2 ^ 32 - 1)) % 2 ^ 128 = n * dt * 1775 + (2 ^ 32 - 1) :=
    Nat.mod_eq_of_lt (by omega)
  rw [cycledBudget, hbudget, Int.toNat_natCast, coreAssetCycleRate, coreAssetCycleRateBits, h₁, h₂,
    h₃, Nat.shiftRight_eq_div_pow]

theorem cycledBudget_of_neg {r : ℤ} (hr : r < 0) (dt : ℕ) : cycledBudget r dt = 0 := by
  rw [cycledBudget, if_pos hr]
  simp [asUint128, coreAssetCycleRateBits]

theorem asUint128_of_nonneg {r : ℤ} (hr : 0 ≤ r) (hlt : r < 2 ^ 63) : asUint128 r = r.toNat := by
  rw [asUint128, Int.emod_eq_of_lt hr (by omega)]

theorem lt_asUint128_of_neg {r : ℤ} (hr : r < 0) (hle : -2 ^ 64 ≤ r) : 0 < asUint128 r := by
  rw [asUint128]
  omega

/-- Taking a part of the reserve, in exact arithmetic. -/
theorem spendable_eq {r : ℤ} (hr : FitsInt64 r) {dt : ℕ} (hdt : dt < 2 ^ 32) :
    spendable r dt = some (min (max 0 r) ((max 0 r * dt * coreAssetCycleRate +
      (2 ^ coreAssetCycleRateBits - 1)) / 2 ^ coreAssetCycleRateBits)) := by
  obtain ⟨hle, hlt⟩ := hr
  rw [spendable]
  by_cases hneg : r < 0
  · rw [cycledBudget_of_neg hneg, max_eq_left hneg.le]
    have hpos := lt_asUint128_of_neg hneg (by omega)
    simp [hpos, asInt64, coreAssetCycleRateBits]
  · have hnonneg : 0 ≤ r := by omega
    rw [cycledBudget_of_nonneg hnonneg hlt hdt, asUint128_of_nonneg hnonneg hlt,
      max_eq_right hnonneg]
    obtain ⟨n, rfl⟩ := Int.eq_ofNat_of_zero_le hnonneg
    rw [Int.toNat_natCast]
    have hcast : ((n : ℤ) * dt * coreAssetCycleRate + (2 ^ coreAssetCycleRateBits - 1)) /
        2 ^ coreAssetCycleRateBits = ((n * dt * coreAssetCycleRate +
          (2 ^ coreAssetCycleRateBits - 1)) / 2 ^ coreAssetCycleRateBits : ℕ) := by
      push_cast [coreAssetCycleRateBits]
      norm_num
    rw [hcast]
    generalize (n * dt * coreAssetCycleRate + (2 ^ coreAssetCycleRateBits - 1)) /
      2 ^ coreAssetCycleRateBits = c
    split
    · next hc =>
      rw [if_pos (by omega), asInt64_eq_self.2 ⟨by omega, by omega⟩, min_eq_right (by omega)]
    · rw [min_eq_left (by omega)]

/-- The reserve that a budget starts from is at least what the fees and the last budget take the
supply to be, and leaves room for them. -/
theorem Backed.initialReserve_bounds (hs : s.Backed) : -s.core.currentSupply ≤ s.initialReserve ∧
    s.initialReserve + s.core.accumulatedFees + s.witnessBudget ≤
      max s.core.currentSupply s.core.maxSupply := by
  have hfees := hs.fees_nonneg
  have hbudget := hs.budget_nonneg
  have hcovered := hs.covered
  have hmax := hs.max_nonneg
  rw [initialReserve]
  split <;> omega

theorem fromInitialReserve_eq (hs : s.Backed) : s.fromInitialReserve = some s.initialReserve := by
  have hfits : FitsInt64 (s.core.maxSupply - s.core.currentSupply) := by
    have hfees := hs.fees_nonneg
    have hbudget := hs.budget_nonneg
    have hcovered := hs.covered
    have hsupply := hs.supply_lt
    have hmax := hs.max_nonneg
    have hmaxlt := hs.max_lt
    exact ⟨by omega, by omega⟩
  rw [fromInitialReserve, shareType_of_fits hfits, initialReserve]
  rfl

/-- `initialize_budget_record` takes what is due. -/
theorem initializeBudgetRecord_eq (hs : s.Backed) (htime : s.headBlockTime < 2 ^ 32) :
    ∃ record, s.initializeBudgetRecord s.headBlockTime = some record ∧
      record.totalBudget = s.due ∧ record.fromAccumulatedFees = s.core.accumulatedFees ∧
      record.fromUnusedWitnessBudget = s.witnessBudget ∧ record.workerBudget = 0 ∧
      record.leftoverWorkerFunds = 0 := by
  obtain ⟨hle, hlt⟩ := hs.initialReserve_bounds
  have hfees := hs.fees_nonneg
  have hbudget := hs.budget_nonneg
  have hcovered := hs.covered
  have hsupply := hs.supply_lt
  have hmaxlt := hs.max_lt
  -- neither the reserve nor the sum on the way to it leaves its type
  have hinitial : FitsInt64 (s.initialReserve + s.core.accumulatedFees) := ⟨by omega, by omega⟩
  have hreserve : FitsInt64 s.reserve := by
    rw [FitsInt64, reserve]
    omega
  rw [initializeBudgetRecord, fromInitialReserve_eq hs]
  simp only [Option.bind_eq_bind, Option.bind_some]
  by_cases hfirst : s.lastBudgetTime = 0 ∨ s.headBlockTime ≤ s.lastBudgetTime
  · rw [if_pos hfirst, due, if_pos hfirst]
    exact ⟨_, rfl, rfl, rfl, rfl, rfl, rfl⟩
  · rw [if_neg hfirst, shareType_of_fits hinitial, Option.bind_some, ← reserve,
      shareType_of_fits hreserve, Option.bind_some, spendable_eq hreserve (by omega),
      Option.bind_some, due, if_neg hfirst]
    exact ⟨_, rfl, rfl, rfl, rfl, rfl, rfl⟩

/-- What is due is not negative and not more than there is. -/
theorem due_bounds (s : BudgetState) : 0 ≤ s.due ∧ s.due ≤ max 0 s.reserve := by
  rw [due]
  split
  · exact ⟨le_rfl, le_max_left ..⟩
  · refine ⟨le_min (le_max_left ..) (Int.ediv_nonneg (Int.add_nonneg ?_ ?_) ?_), min_le_left ..⟩
    · exact Int.mul_nonneg (Int.mul_nonneg (le_max_left ..) (Int.natCast_nonneg _))
        (Int.natCast_nonneg _)
    · norm_num [coreAssetCycleRateBits]
    · norm_num

/-- The difference of the supply, and what the assertion compares it with. -/
theorem Backed.delta_eq (hs : s.Backed) {record : BudgetRecord}
    (hfees : record.fromAccumulatedFees = s.core.accumulatedFees)
    (hunused : record.fromUnusedWitnessBudget = s.witnessBudget) (hworker : record.workerBudget = 0)
    (hleftover : record.leftoverWorkerFunds = 0) :
    record.delta s.due = some (s.due - s.core.accumulatedFees - s.witnessBudget) ∧
      s.expectedDelta s.due = some (s.due - s.core.accumulatedFees - s.witnessBudget) := by
  obtain ⟨hle, hlt⟩ := hs.initialReserve_bounds
  obtain ⟨hnonneg, hdue⟩ := s.due_bounds
  rw [reserve] at hdue
  have hf := hs.fees_nonneg
  have hb := hs.budget_nonneg
  have hcovered := hs.covered
  have hsupply := hs.supply_lt
  have hmaxlt := hs.max_lt
  have hfit₁ : FitsInt64 s.due := ⟨by omega, by omega⟩
  have hfit₂ : FitsInt64 (s.due - s.core.accumulatedFees) := ⟨by omega, by omega⟩
  have hfit₃ : FitsInt64 (s.due - s.core.accumulatedFees - s.witnessBudget) :=
    ⟨by omega, by omega⟩
  constructor
  · rw [BudgetRecord.delta, hworker, hleftover, hfees, hunused, add_zero]
    simp only [Option.bind_eq_bind]
    rw [shareType_of_fits hfit₁, Option.bind_some, sub_zero, shareType_of_fits hfit₁,
      Option.bind_some, shareType_of_fits hfit₂, Option.bind_some, shareType_of_fits hfit₃]
  · rw [expectedDelta]
    simp only [Option.bind_eq_bind]
    rw [shareType_of_fits hfit₂, Option.bind_some, shareType_of_fits hfit₃]

/-- The number of blocks until the next maintenance. -/
theorem blocksToMaint_eq (hfuture : s.headBlockTime < s.nextMaintenanceTime)
    (hnext : s.nextMaintenanceTime < 2 ^ 32) (hinterval : s.parameters.blockInterval < 2 ^ 32) :
    s.blocksToMaint (s.nextMaintenanceTime - s.headBlockTime) = s.blocks := by
  have hmod : (s.nextMaintenanceTime - s.headBlockTime + s.parameters.blockInterval + 2 ^ 64 - 1) %
      2 ^ 64 = s.nextMaintenanceTime - s.headBlockTime + s.parameters.blockInterval - 1 := by
    omega
  rw [blocksToMaint, hmod, blocks]

theorem blocks_lt (hnext : s.nextMaintenanceTime < 2 ^ 32)
    (hinterval : s.parameters.blockInterval < 2 ^ 32) : s.blocks < 2 ^ 63 := by
  rw [blocks]
  refine lt_of_le_of_lt (Nat.div_le_self ..) ?_
  omega

/-- The supply after a budget covers it, and is bounded. -/
theorem Backed.supply_bounds (hs : s.Backed) {supply : ℤ}
    (hsupply : supply = s.core.currentSupply +
      (s.due - s.core.accumulatedFees - s.witnessBudget)) :
    s.due ≤ supply ∧ supply ≤ max s.core.currentSupply s.core.maxSupply ∧
      (hardfork3Time ≤ s.headBlockTime → supply ≤ s.core.currentSupply) := by
  obtain ⟨hnonneg, hdue⟩ := s.due_bounds
  have hfees := hs.fees_nonneg
  have hbudget := hs.budget_nonneg
  have hcovered := hs.covered
  rw [reserve, initialReserve] at hdue
  split at hdue
  · exact ⟨by omega, by omega, fun _ ↦ by omega⟩
  · next hbefore => exact ⟨by omega, by omega, fun hfork ↦ absurd hfork hbefore⟩

/-- `process_budget` where the next maintenance is in the future. -/
theorem Backed.processBudget_eq (hs : s.Backed) (hfuture : s.headBlockTime < s.nextMaintenanceTime)
    (hnext : s.nextMaintenanceTime < 2 ^ 32) (hpos : 0 < s.parameters.blockInterval)
    (hinterval : s.parameters.blockInterval < 2 ^ 32) :
    ∃ record s', s.processBudget = some (record, s') ∧
      record.totalBudget = s.due ∧
      record.requestedWitnessBudget = asInt64 (s.parameters.witnessPayPerBlock * s.blocks) ∧
      record.supplyDelta = s.due - s.core.accumulatedFees - s.witnessBudget ∧
      s' = { s with
        core := { s.core with
          currentSupply := s.core.currentSupply +
            (s.due - s.core.accumulatedFees - s.witnessBudget)
          accumulatedFees := 0 }
        witnessBudget := s.due
        witnessPayPerBlock := s.due / s.blocks
        lastBudgetTime := s.headBlockTime } := by
  obtain ⟨record, hrecord, htotal, hfees, hunused, hworker, hleftover⟩ :=
    initializeBudgetRecord_eq hs (by omega)
  obtain ⟨hdelta, hexpected⟩ := hs.delta_eq hfees hunused hworker hleftover
  obtain ⟨hdueLe, hmax, -⟩ := hs.supply_bounds rfl
  have hdue := s.due_bounds.1
  have hsupplyLt := hs.supply_lt
  have hmaxLt := hs.max_lt
  have hsupply : FitsInt64 (s.core.currentSupply +
      (s.due - s.core.accumulatedFees - s.witnessBudget)) := ⟨by omega, by omega⟩
  have htime : ((s.nextMaintenanceTime : ℤ) - s.headBlockTime).toNat =
      s.nextMaintenanceTime - s.headBlockTime := by omega
  have htimePos : (s.nextMaintenanceTime : ℤ) - s.headBlockTime > 0 := by omega
  have hblocks := blocksToMaint_eq hfuture hnext hinterval
  have hblocksLt := blocks_lt (s := s) hnext hinterval
  have hasInt : asInt64 (s.blocks : ℤ) = s.blocks := asInt64_eq_self.2 ⟨by omega, by omega⟩
  have hpay : s.due.tdiv (s.blocks : ℤ) = s.due / s.blocks := Int.tdiv_eq_ediv_of_nonneg hdue
  rw [BudgetState.processBudget]
  simp only [Option.bind_eq_bind, guard, if_pos htimePos, if_pos hpos, htime, hblocks, hrecord]
  simp only [pure, Option.bind_some]
  rw [htotal, hdelta, Option.bind_some, shareType_of_fits hsupply, Option.bind_some, hexpected,
    Option.bind_some, if_pos rfl, Option.bind_some, hasInt, hpay]
  exact ⟨_, _, rfl, rfl, rfl, rfl, rfl⟩

/-- **`process_budget` with the next maintenance in the future**: all that is to hold does, but for
what the parameters ask for, which is kept in 64 bits. -/
theorem Backed.processBudget (hs : s.Backed) (hfuture : s.headBlockTime < s.nextMaintenanceTime)
    (hnext : s.nextMaintenanceTime < 2 ^ 32) (hpos : 0 < s.parameters.blockInterval)
    (hinterval : s.parameters.blockInterval < 2 ^ 32) :
    ∃ record s', s.processBudget = some (record, s') ∧ s'.Backed ∧
      (BudgetOk s record s' ↔ FitsInt64 (s.parameters.witnessPayPerBlock * s.blocks)) := by
  obtain ⟨record, s', hrun, htotal, hrequested, hdelta, rfl⟩ :=
    hs.processBudget_eq hfuture hnext hpos hinterval
  obtain ⟨hnonneg, hle⟩ := s.due_bounds
  obtain ⟨hcovers, hmax, hfork⟩ := hs.supply_bounds rfl
  refine ⟨record, _, hrun, ?_, ?_⟩
  · have hsupplyLt := hs.supply_lt
    have hmaxLt := hs.max_lt
    exact {
      fees_nonneg := le_rfl
      budget_nonneg := hnonneg
      covered := by
        show 0 + s.due ≤ s.core.currentSupply + (s.due - s.core.accumulatedFees - s.witnessBudget)
        rw [zero_add]
        exact hcovers
      supply_lt := by
        show s.core.currentSupply + (s.due - s.core.accumulatedFees - s.witnessBudget) < 2 ^ 63
        omega
      max_nonneg := hs.max_nonneg
      max_lt := hmaxLt }
  · rw [← asInt64_eq_self, ← hrequested]
    constructor
    · exact fun hok ↦ hok.requested_eq
    · intro hexact
      exact {
        future := hfuture
        witnessBudget_eq := htotal.symm
        totalBudget_eq := htotal
        nonneg := hnonneg
        le_reserve := hle
        supply_eq := by rw [hdelta]
        delta_eq := hdelta
        supply_le := hmax
        supply_le_of_hardfork := hfork
        pay_eq := rfl
        requested_eq := hexact }

end BudgetState

/-! ## Runs -/

/-- What `validate` checks of the parameters. -/
structure BudgetParameters.Valid (p : BudgetParameters) : Prop where
  /-- Blocks take time. -/
  blockInterval_pos : 0 < p.blockInterval
  /-- `GRAPHENE_MAX_BLOCK_INTERVAL`. -/
  blockInterval_le : p.blockInterval ≤ 30
  /-- There is a block between two maintenances. -/
  blockInterval_lt : p.blockInterval < p.maintenanceInterval
  /-- `maintenance_interval` is a `uint32_t`. -/
  maintenanceInterval_lt : p.maintenanceInterval < 2 ^ 32

namespace BudgetState

/-- The state that `init_genesis` leaves: maintenance is due with the first block, and there is no
budget. -/
structure Genesis (s : BudgetState) : Prop where
  /-- There is no block. -/
  headBlockNumber_eq : s.headBlockNumber = 0
  /-- Maintenance is due. -/
  nextMaintenanceTime_eq : s.nextMaintenanceTime = 0
  /-- There was no budget. -/
  lastBudgetTime_eq : s.lastBudgetTime = 0
  /-- There is none. -/
  witnessBudget_eq : s.witnessBudget = 0
  /-- Nor is there any pay. -/
  witnessPayPerBlock_eq : s.witnessPayPerBlock = 0
  /-- The parameters are valid. -/
  parameters : s.parameters.Valid

/-- What `update_signing_witness` takes out of the budget. -/
def witnessPay (s : BudgetState) : ℤ := min s.witnessPayPerBlock s.witnessBudget

/-- The parameters from the maintenance on. -/
def parametersFor (s : BudgetState) (b : BudgetBlock) : BudgetParameters :=
  b.pendingParameters.getD s.parameters

/-- A block that can come next: it is later, the supply covers fees and budget after its
transactions and, where maintenance is due, after the fees of the accounts, and new parameters are
valid. -/
structure Admits (s : BudgetState) (b : BudgetBlock) : Prop where
  /-- The block is later. -/
  later : s.headBlockTime < b.timestamp
  /-- Its time is a `uint32_t`. -/
  timestamp_lt : b.timestamp < 2 ^ 32
  /-- The supply covers the fees and the budget before the pay. -/
  afterTransactions : Covers b.afterTransactions s.witnessBudget
  /-- It covers them after. -/
  afterAccounts : Covers b.afterAccounts (s.witnessBudget - s.witnessPay)
  /-- New parameters are valid. -/
  parameters : (s.parametersFor b).Valid

/-- The states that the chain can be in. -/
inductive Reaches : BudgetState → Prop
  /-- Genesis. -/
  | genesis {s : BudgetState} : s.Genesis → Reaches s
  /-- A block. -/
  | block {s s' : BudgetState} {b : BudgetBlock} :
      Reaches s → s.Admits b → s.applyBlock b = some s' → Reaches s'

/-- The time of the next maintenance. -/
def exactNextTime (s : BudgetState) (b : BudgetBlock) : ℕ :=
  let interval := (s.parametersFor b).maintenanceInterval
  if s.headBlockNumber = 0 then (b.timestamp / interval + 1) * interval
  else s.nextMaintenanceTime +
    ((b.timestamp - s.nextMaintenanceTime) / interval + 1) * interval

/-- What the parameters ask for, until the next maintenance. -/
def exactRequest (s : BudgetState) (b : BudgetBlock) : ℤ :=
  let interval := (s.parametersFor b).blockInterval
  (s.parametersFor b).witnessPayPerBlock *
    ((s.exactNextTime b - b.timestamp + interval - 1) / interval : ℕ)

/-- Where maintenance is due, the time of the next one and what the parameters ask for are of the
size they are kept in. -/
def Fits (s : BudgetState) (b : BudgetBlock) : Prop :=
  s.nextMaintenanceTime ≤ b.timestamp →
    s.exactNextTime b < 2 ^ 32 ∧ FitsInt64 (s.exactRequest b)

/-- What is to hold of a block: it leaves a budget that is not negative and, where maintenance is
due, sets one as it should. -/
def BlockOk (s : BudgetState) (b : BudgetBlock) : Prop :=
  ∃ s₁, s.payWitness b = some s₁ ∧ 0 ≤ s₁.witnessBudget ∧
    (s.nextMaintenanceTime ≤ b.timestamp →
      ∃ record s', (s₁.schedule b).processBudget = some (record, s') ∧
        BudgetOk (s₁.schedule b) record s')

/-- What is true of every state that is reached. -/
structure Inv (s : BudgetState) : Prop where
  /-- The budget is not negative. -/
  budget_nonneg : 0 ≤ s.witnessBudget
  /-- Nor is the pay. -/
  pay_nonneg : 0 ≤ s.witnessPayPerBlock
  /-- `next_maintenance_time` is a `uint32_t`. -/
  nextMaintenanceTime_lt : s.nextMaintenanceTime < 2 ^ 32
  /-- The parameters are valid. -/
  parameters : s.parameters.Valid

variable {s : BudgetState} {b : BudgetBlock}

theorem Genesis.inv (hs : s.Genesis) : s.Inv where
  budget_nonneg := hs.witnessBudget_eq.ge
  pay_nonneg := hs.witnessPayPerBlock_eq.ge
  nextMaintenanceTime_lt := by
    rw [hs.nextMaintenanceTime_eq]
    norm_num
  parameters := hs.parameters

/-- The pay is within the budget. -/
theorem Inv.witnessPay_bounds (hs : s.Inv) : 0 ≤ s.witnessPay ∧ s.witnessPay ≤ s.witnessBudget :=
  ⟨le_min hs.pay_nonneg hs.budget_nonneg, min_le_right ..⟩

/-- A block takes the pay out of the budget. -/
theorem Inv.payWitness_eq (hs : s.Inv) (hb : s.Admits b) : s.payWitness b = some { s with
    core := b.afterTransactions
    headBlockNumber := s.headBlockNumber + 1
    headBlockTime := b.timestamp
    witnessBudget := s.witnessBudget - s.witnessPay } := by
  obtain ⟨hnonneg, hle⟩ := hs.witnessPay_bounds
  have hcovered := hb.afterTransactions.covered
  have hfees := hb.afterTransactions.fees_nonneg
  have hsupply := hb.afterTransactions.supply_lt
  have hfits : FitsInt64 (s.witnessBudget - s.witnessPay) := ⟨by omega, by omega⟩
  rw [payWitness]
  simp only [Option.bind_eq_bind]
  rw [← witnessPay, shareType_of_fits hfits]
  rfl

/-- The state that `process_budget` starts from. -/
def scheduled (s : BudgetState) (b : BudgetBlock) : BudgetState :=
  { s with
    core := b.afterAccounts
    headBlockNumber := s.headBlockNumber + 1
    headBlockTime := b.timestamp
    nextMaintenanceTime := s.exactNextTime b % 2 ^ 32
    witnessBudget := s.witnessBudget - s.witnessPay
    parameters := s.parametersFor b }

theorem schedule_eq {s₁ : BudgetState} (hs₁ : s₁ = { s with
    core := b.afterTransactions
    headBlockNumber := s.headBlockNumber + 1
    headBlockTime := b.timestamp
    witnessBudget := s.witnessBudget - s.witnessPay }) : s₁.schedule b = s.scheduled b := by
  subst hs₁
  rw [schedule, scheduled, parametersFor]
  congr 1
  rw [nextTime, exactNextTime, parametersFor]
  by_cases hfirst : s.headBlockNumber = 0
  · rw [if_pos hfirst, if_pos (by simp [hfirst])]
  · rw [if_neg hfirst, if_neg (by simp [hfirst]), Nat.add_mod_mod]

/-- The state that `process_budget` starts from is backed. -/
theorem Inv.scheduled_backed (hs : s.Inv) (hb : s.Admits b) : (s.scheduled b).Backed where
  toCovers := hb.afterAccounts
  budget_nonneg := sub_nonneg.2 hs.witnessPay_bounds.2

/-- The next maintenance is later than the block, by at most the interval. -/
theorem Admits.lt_exactNextTime (hb : s.Admits b) (hdue : s.nextMaintenanceTime ≤ b.timestamp) :
    b.timestamp < s.exactNextTime b ∧
      s.exactNextTime b ≤ b.timestamp + (s.parametersFor b).maintenanceInterval := by
  have hpos : 0 < (s.parametersFor b).maintenanceInterval :=
    hb.parameters.blockInterval_pos.trans hb.parameters.blockInterval_lt
  rw [exactNextTime]
  generalize (s.parametersFor b).maintenanceInterval = interval at hpos
  have hround (t : ℕ) : t < (t / interval + 1) * interval ∧
      (t / interval + 1) * interval ≤ t + interval := by
    have hmod := Nat.mod_lt t hpos
    have hdiv := Nat.div_add_mod' t interval
    rw [Nat.add_one_mul]
    omega
  split
  · exact hround _
  · have := hround (b.timestamp - s.nextMaintenanceTime)
    omega

/-- It is in the future just where its time fits. -/
theorem Admits.future_iff (hb : s.Admits b) (hdue : s.nextMaintenanceTime ≤ b.timestamp) :
    b.timestamp < s.exactNextTime b % 2 ^ 32 ↔ s.exactNextTime b < 2 ^ 32 := by
  obtain ⟨hlt, hle⟩ := hb.lt_exactNextTime hdue
  have htime := hb.timestamp_lt
  have hinterval := hb.parameters.maintenanceInterval_lt
  omega

/-- Where it is not, the assertion fails. -/
theorem processBudget_of_not_future (h : ¬ s.headBlockTime < s.nextMaintenanceTime) :
    s.processBudget = none := by
  have hneg : ¬ (s.nextMaintenanceTime : ℤ) - s.headBlockTime > 0 := by omega
  rw [processBudget]
  simp only [Option.bind_eq_bind, guard, if_neg hneg]
  rfl

/-- Maintenance sets a budget as it should, exactly if the time of the next one and what the
parameters ask for fit. -/
theorem Inv.maintenance_iff (hs : s.Inv) (hb : s.Admits b)
    (hdue : s.nextMaintenanceTime ≤ b.timestamp) :
    (∃ record s', (s.scheduled b).processBudget = some (record, s') ∧
      BudgetOk (s.scheduled b) record s') ↔
        s.exactNextTime b < 2 ^ 32 ∧ FitsInt64 (s.exactRequest b) := by
  have hfuture : (s.scheduled b).headBlockTime < (s.scheduled b).nextMaintenanceTime ↔
      s.exactNextTime b < 2 ^ 32 := hb.future_iff hdue
  by_cases hfits : s.exactNextTime b < 2 ^ 32
  · have hnext : (s.scheduled b).nextMaintenanceTime = s.exactNextTime b := Nat.mod_eq_of_lt hfits
    have hrequest : (s.scheduled b).parameters.witnessPayPerBlock * (s.scheduled b).blocks =
        s.exactRequest b := by
      rw [blocks, hnext]
      rfl
    have hblock := hb.parameters.blockInterval_le
    have hinterval : (s.scheduled b).parameters.blockInterval < 2 ^ 32 := by
      show (s.parametersFor b).blockInterval < _
      omega
    obtain ⟨record, s', hrun, -, hok⟩ := (hs.scheduled_backed hb).processBudget (hfuture.2 hfits)
      (by omega) hb.parameters.blockInterval_pos hinterval
    rw [hrequest] at hok
    rw [hrun]
    constructor
    · rintro ⟨record', s'', heq, hok'⟩
      obtain ⟨rfl, rfl⟩ := Prod.mk.inj (Option.some.inj heq)
      exact ⟨hfits, hok.1 hok'⟩
    · rintro ⟨-, hrequest⟩
      exact ⟨record, s', rfl, hok.2 hrequest⟩
  · rw [processBudget_of_not_future (mt hfuture.1 hfits)]
    constructor
    · rintro ⟨record, s', heq, -⟩
      exact absurd heq (by simp)
    · exact fun h ↦ absurd h.1 hfits

/-- **What is true of every state reached is true after a block.** -/
theorem Inv.applyBlock (hs : s.Inv) (hb : s.Admits b) {s' : BudgetState}
    (h : s.applyBlock b = some s') : s'.Inv := by
  obtain ⟨hnonneg, hle⟩ := hs.witnessPay_bounds
  rw [BudgetState.applyBlock, hs.payWitness_eq hb] at h
  simp only [Option.bind_eq_bind, Option.bind_some] at h
  split at h
  · next hdue =>
    rw [schedule_eq rfl] at h
    have hfuture : (s.scheduled b).headBlockTime < (s.scheduled b).nextMaintenanceTime := by
      by_contra hfuture
      rw [processBudget_of_not_future hfuture] at h
      exact absurd h (by simp)
    have hblock := hb.parameters.blockInterval_le
    have hnext : (s.scheduled b).nextMaintenanceTime < 2 ^ 32 := Nat.mod_lt _ (by norm_num)
    have hinterval : (s.scheduled b).parameters.blockInterval < 2 ^ 32 := by
      show (s.parametersFor b).blockInterval < _
      omega
    obtain ⟨record, s'', hrun, -, -, -, hs''⟩ := (hs.scheduled_backed hb).processBudget_eq hfuture
      hnext hb.parameters.blockInterval_pos hinterval
    rw [hrun, Option.map_some, Option.some_inj] at h
    subst h hs''
    have hdueNonneg := (s.scheduled b).due_bounds.1
    exact {
      budget_nonneg := hdueNonneg
      pay_nonneg := Int.ediv_nonneg hdueNonneg (Int.natCast_nonneg _)
      nextMaintenanceTime_lt := hnext
      parameters := hb.parameters }
  · obtain rfl := Option.some.inj h
    exact {
      budget_nonneg := by
        show 0 ≤ s.witnessBudget - s.witnessPay
        omega
      pay_nonneg := hs.pay_nonneg
      nextMaintenanceTime_lt := hs.nextMaintenanceTime_lt
      parameters := hs.parameters }

theorem Reaches.inv (hs : s.Reaches) : s.Inv := by
  induction hs with
  | genesis hs => exact hs.inv
  | block _ hb happly ih => exact ih.applyBlock hb happly

/-- **The budget bounds what is issued**: in every state that the chain can be in the budget is not
negative, and whatever block comes next, what is to hold of it does, exactly if the time of the next
maintenance and what the parameters ask for until then fit. -/
theorem budget_bounds_issuance (hs : s.Reaches) :
    0 ≤ s.witnessBudget ∧ ∀ b, s.Admits b → (BlockOk s b ↔ Fits s b) := by
  have hinv := hs.inv
  refine ⟨hinv.budget_nonneg, fun b hb ↦ ?_⟩
  obtain ⟨hnonneg, hle⟩ := hinv.witnessPay_bounds
  have hmaintenance := hinv.maintenance_iff hb
  constructor
  · rintro ⟨s₁, hpay, -, hok⟩ hdue
    rw [hinv.payWitness_eq hb] at hpay
    have hok := hok hdue
    rw [schedule_eq (Option.some.inj hpay).symm] at hok
    exact (hmaintenance hdue).1 hok
  · intro hfits
    refine ⟨_, hinv.payWitness_eq hb, by show 0 ≤ s.witnessBudget - s.witnessPay; omega,
      fun hdue ↦ ?_⟩
    rw [schedule_eq rfl]
    exact (hmaintenance hdue).2 (hfits hdue)

/-! ## Two runs -/

/-- A core asset with most of it in reserve. -/
def smallCore : CoreAsset := ⟨1000000000000, 600000000, 0⟩

/-- A state that `init_genesis` leaves, with these parameters. -/
def genesisState (parameters : BudgetParameters) : BudgetState :=
  ⟨0, 1400000000, 0, 0, 0, 0, smallCore, parameters⟩

/-- A block without transactions. -/
def emptyBlock (timestamp : ℕ) (core : CoreAsset) : BudgetBlock := ⟨timestamp, core, core, none⟩

/-- Blocks every three seconds, and maintenance every day. -/
def dailyParameters (witnessPayPerBlock : ℤ) : BudgetParameters := ⟨3, 86400, witnessPayPerBlock⟩

theorem dailyParameters_valid (pay : ℤ) : (dailyParameters pay).Valid := by
  constructor <;> norm_num [dailyParameters]

theorem genesisState_genesis (pay : ℤ) : (genesisState (dailyParameters pay)).Genesis :=
  ⟨rfl, rfl, rfl, rfl, rfl, dailyParameters_valid pay⟩

/-- The first block can come after genesis. -/
theorem genesisState_admits (pay : ℤ) :
    (genesisState (dailyParameters pay)).Admits (emptyBlock 1400000010 smallCore) := by
  refine ⟨by norm_num [genesisState, emptyBlock], by norm_num [emptyBlock], ?_, ?_,
    dailyParameters_valid pay⟩
  all_goals constructor <;> norm_num [genesisState, emptyBlock, smallCore, witnessPay]

/-- The second of two blocks, a day later, sets a budget of 41298512521. -/
theorem budget_bounds_issuance_two : ∃ s : BudgetState,
    s.witnessBudget = 41298512521 ∧ 0 ≤ s.witnessBudget ∧
      ∀ b, s.Admits b → (BlockOk s b ↔ Fits s b) := by
  have hgenesis := Reaches.genesis (genesisState_genesis 1000)
  have hfirst : (genesisState (dailyParameters 1000)).applyBlock (emptyBlock 1400000010 smallCore) =
      some ⟨1, 1400000010, 1400025600, 1400000010, 0, 0, smallCore, dailyParameters 1000⟩ := by
    decide +kernel
  have hsecond : BudgetState.applyBlock
      ⟨1, 1400000010, 1400025600, 1400000010, 0, 0, smallCore, dailyParameters 1000⟩
      (emptyBlock 1400100000 smallCore) =
        some ⟨2, 1400100000, 1400112000, 1400100000, 41298512521, 10324628,
          ⟨1000000000000, 41898512521, 0⟩, dailyParameters 1000⟩ := by
    decide +kernel
  have hadmits : BudgetState.Admits
      ⟨1, 1400000010, 1400025600, 1400000010, 0, 0, smallCore, dailyParameters 1000⟩
      (emptyBlock 1400100000 smallCore) := by
    refine ⟨by decide, by decide, ?_, ?_, dailyParameters_valid 1000⟩
    all_goals constructor <;> norm_num [emptyBlock, smallCore, witnessPay]
  have hreaches := (hgenesis.block (genesisState_admits 1000) hfirst).block hadmits hsecond
  exact ⟨_, rfl, budget_bounds_issuance hreaches⟩

/-- **A requested budget that overflows**: `validate` does not bound `witness_pay_per_block`, and
with the pay at 2^62 what it asks for until the second maintenance is no `int64_t`. -/
theorem budget_overflows : ∃ (s : BudgetState) (b : BudgetBlock),
    s.Reaches ∧ s.Admits b ∧ ¬ BlockOk s b := by
  have hreaches := Reaches.genesis (genesisState_genesis (2 ^ 62))
  have hadmits := genesisState_admits (2 ^ 62)
  refine ⟨_, _, hreaches, hadmits, ?_⟩
  rintro ⟨s₁, hpay, -, hok⟩
  rw [hreaches.inv.payWitness_eq hadmits] at hpay
  have hok := hok (by decide)
  rw [schedule_eq (Option.some.inj hpay).symm,
    hreaches.inv.maintenance_iff hadmits (by decide)] at hok
  exact absurd hok (by decide)

end BudgetState

end Graphene
