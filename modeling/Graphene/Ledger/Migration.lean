import Graphene.Chain.Block
import Graphene.Ledger.Fees
import Mathlib.Algebra.Ring.Int.Defs

/-!
# The migration of an account's balance

`account_balance_migrate` empties the core balance of an account, takes it off the supply and
records it together with an Ethereum address.  The fee is taken from the payer last, from a balance
that is empty by then, so that there can be none.

* `BalanceMigrate.apply` — the operation, fee included.
* `migrate_conserves` — it does what it should exactly if the fee is zero, and what has been
  recorded and what has been burned agree in every run.
* `Ledger.Backed` — the supply covers all balances; migrations keep it so.
-/

set_option autoImplicit false

namespace Graphene

/-- `HARDFORK_2_TIME`. -/
def hardfork2Time : ℕ := 1509195600

/-- `account_balance_migrate_operation`. -/
structure BalanceMigrate where
  /-- `fee`. -/
  fee : Asset
  /-- `account`, the fee payer. -/
  account : AccountId
  /-- `eth_address`. -/
  ethAddress : List Char

/-- What the fee of the operation depends on. -/
structure MigrateFees where
  /-- `fee` of the `fee_parameters_type`. -/
  fee : ℕ
  /-- `scale` of the `fee_schedule`. -/
  scale : ℕ

/-- `calculate_fee`, in the core asset. -/
def MigrateFees.calculateFee (p : MigrateFees) : Option ℤ :=
  if (p.fee * p.scale / hundredPercent : ℕ) ≤ maxShareSupply then
    some (p.fee * p.scale / hundredPercent : ℕ)
  else none

/-! ## Addresses -/

/-- A letter from `a` to `f`. -/
def isLowerHexLetter (c : Char) : Bool := 'a' ≤ c ∧ c ≤ 'f'

/-- A letter from `A` to `F`. -/
def isUpperHexLetter (c : Char) : Bool := 'A' ≤ c ∧ c ≤ 'F'

/-- `passesAddressChecksum`.  `keccak256 s i` is the half byte at `i` of the hash of `s`. -/
def passesAddressChecksum (keccak256 : List Char → ℕ → ℕ) (str : List Char) (strict : Bool) :
    Bool :=
  let s := str.drop 2
  str.take 2 = ['0', 'x'] && s.length = 40 &&
  ((!strict && (s.all (fun c ↦ c.isDigit || isUpperHexLetter c) ||
      s.all fun c ↦ c.isDigit || isLowerHexLetter c)) ||
    (List.range 40).all fun i ↦
      let c := s.getD i ' '
      let nibble := keccak256 (s.map Char.toLower) i
      if isLowerHexLetter c then decide (nibble < 8)
      else if isUpperHexLetter c then decide (nibble ≥ 8)
      else true)

/-! ## The evaluator -/

namespace BalanceMigrate

variable (keccak256 : List Char → ℕ → ℕ) (fees : MigrateFees) (flags : EvaluationFlags)
  (o : BalanceMigrate)

/-- `account_balance_migrate_evaluator::do_evaluate`. -/
def doEvaluate (l : Ledger) : Bool :=
  l.headBlockTime ≥ hardfork2Time && (l.accounts o.account).isSome &&
  l.getBalance o.account coreAsset > 0 && passesAddressChecksum keccak256 o.ethAddress false

/-- `account_balance_migrate_evaluator::do_apply`. -/
def doApply (l : Ledger) : Option Ledger := do
  let balance := l.getBalance o.account coreAsset
  let l ← l.adjustBalance o.account ⟨-balance, coreAsset⟩
  let core := l.dynamicData coreAsset
  guard (core.currentSupply ≥ balance)
  return { l with
    dynamicData := Function.update l.dynamicData coreAsset
      { core with currentSupply := core.currentSupply - balance }
    migrations := l.migrations ++ [⟨o.account, o.ethAddress, coreAsset, balance⟩] }

/-- The operation, as `apply_operation` has it evaluated. -/
def apply (l : Ledger) : Option Ledger :=
  l.startEvaluate flags fees.calculateFee o.account o.fee (o.doEvaluate keccak256) o.doApply

end BalanceMigrate

/-- `current_supply` of the core asset. -/
def Ledger.coreSupply (l : Ledger) : ℤ := (l.dynamicData coreAsset).currentSupply

/-- What has been migrated so far. -/
def Ledger.migrated (l : Ledger) : ℤ := (l.migrations.map BalanceMigrateObject.balance).sum

/-- The operations one after the other; one that throws changes nothing. -/
def Ledger.migrateAll (keccak256 : List Char → ℕ → ℕ) (fees : MigrateFees)
    (flags : EvaluationFlags) (ops : List BalanceMigrate) (l : Ledger) : Ledger :=
  ops.foldl (fun l o ↦ (o.apply keccak256 fees flags l).getD l) l

variable {keccak256 : List Char → ℕ → ℕ} {fees : MigrateFees} {flags : EvaluationFlags}
  {o : BalanceMigrate} {l l' : Ledger}

/-- The ledger after `do_apply`. -/
def Ledger.migrate (l : Ledger) (o : BalanceMigrate) : Ledger :=
  { l.setBalance o.account coreAsset 0 with
    dynamicData := Function.update l.dynamicData coreAsset
      { l.dynamicData coreAsset with
        currentSupply := l.coreSupply - l.getBalance o.account coreAsset }
    migrations := l.migrations ++
      [⟨o.account, o.ethAddress, coreAsset, l.getBalance o.account coreAsset⟩] }

/-- `do_apply`, for an account that has a balance. -/
theorem BalanceMigrate.doApply_spec (hpos : 0 < l.getBalance o.account coreAsset) :
    o.doApply l = some l' ↔
      l.getBalance o.account coreAsset ≤ l.coreSupply ∧ l' = l.migrate o := by
  rw [doApply, Ledger.adjustBalance_sufficient _ le_rfl hpos, sub_self]
  simp only [Option.bind_eq_bind, Option.bind_some, Option.bind_eq_some_iff,
    Option.guard_eq_some', exists_const]
  constructor
  · rintro ⟨hle, hl'⟩
    exact ⟨hle, (Option.some.inj hl').symm⟩
  · rintro ⟨hle, rfl⟩
    exact ⟨hle, rfl⟩

theorem Ledger.getBalance_migrate (a : AccountId) :
    (l.migrate o).getBalance a coreAsset =
      if a = o.account then 0 else l.getBalance a coreAsset := by
  show (l.setBalance o.account coreAsset 0).getBalance a coreAsset = _
  rw [Ledger.getBalance_setBalance]
  simp

@[simp]
theorem Ledger.coreSupply_migrate :
    (l.migrate o).coreSupply = l.coreSupply - l.getBalance o.account coreAsset := by
  rw [coreSupply, migrate]
  simp

/-- **All that a migration can do**, whatever its fee. -/
theorem BalanceMigrate.apply_spec :
    o.apply keccak256 fees flags l = some l' ↔
      ∃ coreFeePaid, l.prepareFee o.account o.fee = some coreFeePaid ∧
        (flags.skipFeeScheduleCheck = true ∨ ∃ f ∈ fees.calculateFee, f ≤ coreFeePaid) ∧
        o.doEvaluate keccak256 l = true ∧ l.getBalance o.account coreAsset ≤ l.coreSupply ∧
        ((l.charged flags o.account o.fee coreFeePaid).migrate o).adjustBalance o.account
          ⟨-o.fee.amount, o.fee.assetId⟩ = some l' := by
  rw [apply, Ledger.startEvaluate_spec]
  have hbalance : ∀ coreFeePaid, (l.charged flags o.account o.fee coreFeePaid).getBalance o.account
      coreAsset = l.getBalance o.account coreAsset := fun coreFeePaid ↦ by
    rw [Ledger.getBalance, Ledger.charged_balances, Ledger.getBalance]
  have hsupply : ∀ coreFeePaid, (l.charged flags o.account o.fee coreFeePaid).coreSupply =
      l.coreSupply := fun coreFeePaid ↦ Ledger.charged_currentSupply coreFeePaid coreAsset
  have hpos : o.doEvaluate keccak256 l = true → 0 < l.getBalance o.account coreAsset := by
    intro h
    simp only [doEvaluate, Bool.and_eq_true, decide_eq_true_eq] at h
    exact h.1.2
  constructor
  · rintro ⟨coreFeePaid, l₁, hfee, hschedule, heval, happly, hadjust⟩
    obtain ⟨hle, rfl⟩ := (doApply_spec (hbalance coreFeePaid ▸ hpos heval)).1 happly
    exact ⟨coreFeePaid, hfee, hschedule, heval, hbalance coreFeePaid ▸ hsupply coreFeePaid ▸ hle,
      hadjust⟩
  · rintro ⟨coreFeePaid, hfee, hschedule, heval, hle, hadjust⟩
    refine ⟨coreFeePaid, _, hfee, hschedule, heval, ?_, hadjust⟩
    rw [doApply_spec (hbalance coreFeePaid ▸ hpos heval), hbalance, hsupply]
    exact ⟨hle, rfl⟩

/-! ## What is recorded and what is burned -/

/-- The migration is recorded, and recorded amount and fee are the balance there was; the balance
is gone, and the recorded amount is off the supply. -/
def MigrateConserves (l : Ledger) (o : BalanceMigrate) (l' : Ledger) : Prop :=
  ∃ r : BalanceMigrateObject, l'.migrations = l.migrations ++ [r] ∧ r.owner = o.account ∧
    r.balance + o.fee.amount = l.getBalance o.account coreAsset ∧
    l'.getBalance o.account coreAsset = 0 ∧ l'.coreSupply = l.coreSupply - r.balance

/-- What the evaluator asks for besides the fee. -/
structure Migratable (keccak256 : List Char → ℕ → ℕ) (fees : MigrateFees)
    (flags : EvaluationFlags) (l : Ledger) (o : BalanceMigrate) : Prop where
  /-- The account may use the core asset. -/
  authorized : ∃ acct ∈ l.accounts o.account, ∃ asset ∈ l.assets coreAsset,
    isAuthorizedAsset acct coreAsset asset = true
  /-- The fee schedule asks for no more than the fee. -/
  schedule : flags.skipFeeScheduleCheck = true ∨ ∃ f ∈ fees.calculateFee, f ≤ o.fee.amount
  /-- The hardfork has passed, there is a balance, and the address is one. -/
  evaluates : o.doEvaluate keccak256 l = true
  /-- The supply covers the balance. -/
  covered : l.getBalance o.account coreAsset ≤ l.coreSupply

/-- Any fee in the core asset finds the balance empty. -/
theorem fee_eq_zero_of_apply (hcore : o.fee.assetId = coreAsset)
    (h : o.apply keccak256 fees flags l = some l') : o.fee.amount = 0 := by
  obtain ⟨coreFeePaid, hfee, -, -, -, hadjust⟩ := BalanceMigrate.apply_spec.1 h
  obtain ⟨-, hnonneg, -⟩ := (Ledger.prepareFee_core hcore).1 hfee
  by_contra hne
  have hempty : ((l.charged flags o.account o.fee coreFeePaid).migrate o).getBalance o.account
      o.fee.assetId = 0 := by
    rw [hcore, Ledger.getBalance_migrate, if_pos rfl]
  rw [Ledger.adjustBalance_insufficient _ (by omega) (by omega)] at hadjust
  cases hadjust

theorem apply_of_migratable (hcore : o.fee.assetId = coreAsset) (hzero : o.fee.amount = 0)
    (h : Migratable keccak256 fees flags l o) :
    o.apply keccak256 fees flags l = some ((l.charged flags o.account o.fee 0).migrate o) := by
  refine BalanceMigrate.apply_spec.2 ⟨0, ?_, ?_, h.evaluates, h.covered, ?_⟩
  · rw [Ledger.prepareFee_core hcore, hzero]
    exact ⟨rfl, le_rfl, h.authorized⟩
  · exact hzero ▸ h.schedule
  · rw [Ledger.adjustBalance, if_pos (by simp [hzero])]

theorem conserves_migrate (hzero : o.fee.amount = 0) (coreFeePaid : ℤ) :
    MigrateConserves l o ((l.charged flags o.account o.fee coreFeePaid).migrate o) := by
  have hbalance : (l.charged flags o.account o.fee coreFeePaid).getBalance o.account coreAsset =
      l.getBalance o.account coreAsset := by
    rw [Ledger.getBalance, Ledger.charged_balances, Ledger.getBalance]
  refine ⟨⟨o.account, o.ethAddress, coreAsset, l.getBalance o.account coreAsset⟩, ?_, rfl, ?_, ?_,
    ?_⟩
  · rw [Ledger.migrate, Ledger.charged_migrations, hbalance]
  · rw [hzero, add_zero]
  · rw [Ledger.getBalance_migrate, if_pos rfl]
  · rw [Ledger.coreSupply_migrate, hbalance, Ledger.coreSupply, Ledger.charged_currentSupply,
      Ledger.coreSupply]

theorem Ledger.migrated_migrate :
    (l.migrate o).migrated = l.migrated + l.getBalance o.account coreAsset := by
  rw [migrated, migrate, List.map_append, List.sum_append, migrated]
  simp

/-- A migration leaves the sum of what is recorded and what is in supply. -/
theorem migrated_add_coreSupply_of_apply (h : o.apply keccak256 fees flags l = some l') :
    l'.migrated + l'.coreSupply = l.migrated + l.coreSupply := by
  obtain ⟨coreFeePaid, -, -, -, -, hadjust⟩ := BalanceMigrate.apply_spec.1 h
  have hmigrated : (l.charged flags o.account o.fee coreFeePaid).migrated = l.migrated := by
    rw [Ledger.migrated, Ledger.charged_migrations, Ledger.migrated]
  have hsupply : (l.charged flags o.account o.fee coreFeePaid).coreSupply = l.coreSupply :=
    Ledger.charged_currentSupply coreFeePaid coreAsset
  have hmigrate : ((l.charged flags o.account o.fee coreFeePaid).migrate o).migrated +
      ((l.charged flags o.account o.fee coreFeePaid).migrate o).coreSupply =
        l.migrated + l.coreSupply := by
    rw [Ledger.migrated_migrate, Ledger.coreSupply_migrate, hmigrated, hsupply]
    omega
  rcases Ledger.eq_or_setBalance_of_adjustBalance _ hadjust with rfl | ⟨amount, rfl⟩
  · exact hmigrate
  · exact hmigrate

theorem migrated_add_coreSupply_run (keccak256 : List Char → ℕ → ℕ) (fees : MigrateFees)
    (flags : EvaluationFlags) (ops : List BalanceMigrate) (l : Ledger) :
    (l.migrateAll keccak256 fees flags ops).migrated +
      (l.migrateAll keccak256 fees flags ops).coreSupply = l.migrated + l.coreSupply := by
  induction ops generalizing l with
  | nil => rfl
  | cons o ops ih =>
    refine (ih _).trans ?_
    dsimp only
    cases happly : o.apply keccak256 fees flags l with
    | none => rfl
    | some l' => exact migrated_add_coreSupply_of_apply happly

/-- **A migration does what it should exactly if its fee is zero**, and in every run of migrations
what is recorded is what has been taken off the supply. -/
theorem migrate_conserves (keccak256 : List Char → ℕ → ℕ) (fees : MigrateFees)
    (flags : EvaluationFlags) :
    (∀ (l : Ledger) (o : BalanceMigrate), o.fee.assetId = coreAsset →
      ((∃ l', o.apply keccak256 fees flags l = some l' ∧ MigrateConserves l o l') ↔
        Migratable keccak256 fees flags l o ∧ o.fee.amount = 0)) ∧
    ∀ (l : Ledger) (ops : List BalanceMigrate),
      (l.migrateAll keccak256 fees flags ops).migrated - l.migrated =
        l.coreSupply - (l.migrateAll keccak256 fees flags ops).coreSupply := by
  constructor
  · intro l o hcore
    constructor
    · rintro ⟨l', happly, -⟩
      have hzero := fee_eq_zero_of_apply hcore happly
      obtain ⟨coreFeePaid, hfee, hschedule, heval, hle, -⟩ := BalanceMigrate.apply_spec.1 happly
      obtain ⟨rfl, -, hauth⟩ := (Ledger.prepareFee_core hcore).1 hfee
      exact ⟨⟨hauth, hschedule, heval, hle⟩, hzero⟩
    · rintro ⟨h, hzero⟩
      exact ⟨_, apply_of_migratable hcore hzero h, conserves_migrate hzero 0⟩
  · intro l ops
    have h := migrated_add_coreSupply_run keccak256 fees flags ops l
    omega

/-! ## The supply covers the balances -/

/-- No core balance is negative, and together they are at most the supply. -/
structure Ledger.Backed (l : Ledger) : Prop where
  /-- A balance is not negative. -/
  nonneg : ∀ a, 0 ≤ l.getBalance a coreAsset
  /-- The balances of any accounts are in the supply. -/
  covered : ∀ s : Finset AccountId, ∑ a ∈ s, l.getBalance a coreAsset ≤ l.coreSupply

/-- A backed ledger stays so when an account is migrated. -/
theorem Ledger.Backed.migrate (h : l.Backed) (o : BalanceMigrate) : (l.migrate o).Backed where
  nonneg a := by
    rw [Ledger.getBalance_migrate]
    split
    · exact le_rfl
    · exact h.nonneg a
  covered s := by
    have hsum : ∑ a ∈ s, (l.migrate o).getBalance a coreAsset =
        ∑ a ∈ s.erase o.account, l.getBalance a coreAsset := by
      simp only [Ledger.getBalance_migrate]
      rw [Finset.sum_ite, Finset.sum_const_zero, zero_add, ← Finset.filter_ne']
    have hinsert := h.covered (insert o.account (s.erase o.account))
    rw [Finset.sum_insert (Finset.notMem_erase _ _)] at hinsert
    rw [hsum, Ledger.coreSupply_migrate]
    omega

/-- Runs of migrations whose fees are in the core asset keep a ledger backed. -/
theorem Ledger.Backed.migrateAll (h : l.Backed) (ops : List BalanceMigrate)
    (hcore : ∀ o ∈ ops, o.fee.assetId = coreAsset) :
    (l.migrateAll keccak256 fees flags ops).Backed := by
  induction ops generalizing l with
  | nil => exact h
  | cons o ops ih =>
    refine ih ?_ fun o' ho' ↦ hcore o' (List.mem_cons_of_mem _ ho')
    dsimp only
    cases happly : o.apply keccak256 fees flags l with
    | none => exact h
    | some l' =>
      have hzero := fee_eq_zero_of_apply (hcore o List.mem_cons_self) happly
      obtain ⟨coreFeePaid, -, -, -, -, hadjust⟩ := BalanceMigrate.apply_spec.1 happly
      rw [Ledger.adjustBalance, if_pos (by simp [hzero])] at hadjust
      have hcharged : (l.charged flags o.account o.fee coreFeePaid).Backed := by
        refine ⟨fun a ↦ ?_, fun s ↦ ?_⟩
        · rw [Ledger.getBalance, Ledger.charged_balances]
          exact h.nonneg a
        · simp only [Ledger.getBalance, Ledger.coreSupply, Ledger.charged_balances,
            Ledger.charged_currentSupply]
          exact h.covered s
      exact Option.some.inj hadjust ▸ hcharged.migrate o

/-! ## A migration that pays a fee -/

/-- A ledger where every account has a core balance of 10, of a supply of 100. -/
def tenEach : Ledger where
  headBlockTime := hardfork2Time
  cashbackVestingThreshold := 0
  accounts _ := some ⟨none, ∅, ∅⟩
  statistics _ := ⟨0, 0⟩
  assets _ := some ⟨false, ∅, ∅, ⟨⟨1, coreAsset⟩, ⟨1, coreAsset⟩⟩⟩
  dynamicData _ := ⟨100, 0, 0⟩
  balances _ _ := some 10
  migrations := []

/-- Account 7 migrates to an address, with a fee. -/
def migrateSeven (fee : ℤ) : BalanceMigrate where
  fee := ⟨fee, coreAsset⟩
  account := 7
  ethAddress := '0' :: 'x' :: List.replicate 40 '0'

/-- A fee of 1 makes the migration of a balance of 10 fail. -/
theorem migration_with_fee_fails :
    (migrateSeven 1).doEvaluate (fun _ _ ↦ 0) tenEach = true ∧
    tenEach.getBalance 7 coreAsset = 10 ∧
    ((migrateSeven 1).apply (fun _ _ ↦ 0) ⟨0, 10000⟩ ⟨false, false⟩ tenEach).isNone = true ∧
    ((migrateSeven 0).apply (fun _ _ ↦ 0) ⟨0, 10000⟩ ⟨false, false⟩ tenEach).isSome = true := by
  decide +kernel

/-- Without a fee the migration does what it should. -/
theorem migration_without_fee :
    ∃ l', (migrateSeven 0).apply (fun _ _ ↦ 0) ⟨0, 10000⟩ ⟨false, false⟩ tenEach = some l' ∧
      MigrateConserves tenEach (migrateSeven 0) l' := by
  refine ((migrate_conserves _ _ _).1 tenEach (migrateSeven 0) rfl).2 ⟨⟨?_, ?_, ?_, ?_⟩, rfl⟩
  · exact ⟨_, rfl, _, rfl, by decide⟩
  · exact .inr ⟨0, by decide, le_rfl⟩
  · decide +kernel
  · decide

end Graphene
