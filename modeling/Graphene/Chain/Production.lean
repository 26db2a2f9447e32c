import Graphene.Chain.WitnessSchedule
import Graphene.Lib.FilledSlots
import Graphene.Lib.Transitions

/-!
# Slots that are filled and slots that are missed

The chain keeps account of its slots: how many there have been, which of the last 128 were filled,
and how often each witness missed one of its own.  This file has what a block does to the account,
and says what it comes to over a chain.

* `ProductionState`, `ProducedBlock` — the state that blocks are produced by, and their headers.
* `ProductionState.validateBlockHeader`, `ProductionState.applyBlock` — what is asked of a block and
  what it changes.
* `SlotRecord`, `ProductionState.history` — who filled a slot, and who missed those before it.
* `ProductionState.Accounts` — what the account has to be; `Accounts.applyBlock` — a block keeps it.
* `slots_accounted` — so it is right after every chain.

What the transactions and a maintenance do is left open, but for what they can change here.
-/

set_option autoImplicit false

namespace Graphene

open Transitions SlotWindow

variable {Key : Type} [DecidableEq Key]

/-! ## The state -/

/-- The id of a block: its number, and the rest of a hash. -/
structure HeadId where
  /-- `num_from_id`. -/
  num : UInt32
  /-- The rest. -/
  hash : ℕ
deriving DecidableEq

/-- `signed_block_header`, as far as it matters for whose turn it is. -/
structure ProducedBlock (Key : Type) where
  /-- `previous`. -/
  previous : HeadId
  /-- `timestamp`. -/
  timestamp : UInt32
  /-- `witness`. -/
  witness : WitnessId
  /-- The key of `witness_signature`. -/
  signee : Key
  /-- The hash of the header. -/
  hash : ℕ

namespace ProducedBlock

/-- `block_num`. -/
def blockNum (b : ProducedBlock Key) : UInt32 := b.previous.num + 1

/-- `id`. -/
def id (b : ProducedBlock Key) : HeadId := ⟨b.blockNum, b.hash⟩

end ProducedBlock

/-- The part of the state that blocks are produced by. -/
structure ProductionState (Key : Type) where
  /-- The slots, and the witness of each. -/
  schedule : ScheduleState
  /-- `head_block_id`. -/
  headBlockId : HeadId
  /-- `recent_slots_filled`. -/
  recentSlotsFilled : BitVec 128
  /-- The `total_missed` of each witness. -/
  totalMissed : WitnessId → ℕ
  /-- The `signing_key` of each witness. -/
  signingKey : WitnessId → Key

/-- What the rest of a block leaves behind. -/
structure BlockOutcome (Key : Type) where
  /-- The signing keys after its transactions. -/
  signingKey : WitnessId → Key
  /-- The witnesses and the parameters after the maintenance, if there is one. -/
  maintenance : Option (ActiveWitnesses × SlotParameters)

/-- A slot that was filled. -/
structure SlotRecord where
  /-- The witness that filled it. -/
  witness : WitnessId
  /-- How many were missed before it. -/
  missed : ℕ
  /-- The witnesses of those. -/
  passed : List WitnessId

/-- How often a witness missed a slot, when a later one was filled by another. -/
def SlotRecord.missedBy (r : SlotRecord) (w : WitnessId) : ℕ :=
  if w = r.witness then 0 else r.passed.count w

/-- A block of slot `n` misses the `n - 1` slots before. -/
theorem SlotState.toNat_missedBlocks_add_one {s : SlotState} {t : UInt32}
    (ht : 0 < s.getSlotAtTime t) : (s.missedBlocks t + 1).toNat = (s.missedBlocks t).toNat + 1 := by
  have hpos : 0 < (s.getSlotAtTime t).toNat := ht
  have hone : (1 : UInt32) ≤ s.getSlotAtTime t := UInt32.le_iff_toNat_le.2 hpos
  rw [missedBlocks, UInt32.sub_add_cancel, UInt32.toNat_sub_of_le _ _ hone, UInt32.toNat_one]
  omega

namespace ProductionState

variable (s : ProductionState Key)

/-! ## What a block does -/

/-- `witness_participation_rate`. -/
def witnessParticipationRate : ℕ := 10000 * popcount s.recentSlotsFilled / 128

/-- `validate_block_header`. -/
def validateBlockHeader (b : ProducedBlock Key) : Bool :=
  s.headBlockId = b.previous && s.schedule.slots.time < b.timestamp &&
    b.signee = s.signingKey b.witness &&
    (let slotNum := s.schedule.slots.getSlotAtTime b.timestamp
    slotNum > 0 && s.schedule.getScheduledWitness slotNum = some b.witness)

/-- The witnesses of the slots before a time. -/
def missedWitnesses (timestamp : UInt32) : List WitnessId :=
  (s.schedule.scheduledFrom 1 (s.schedule.slots.missedBlocks timestamp).toNat).reduceOption

/-- The loop of `update_global_dynamic_data`. -/
def countMissed (b : ProducedBlock Key) : WitnessId → ℕ :=
  (s.missedWitnesses b.timestamp).foldl
    (fun missed w ↦ if w ≠ b.witness then Function.update missed w (missed w + 1) else missed)
    s.totalMissed

/-- `update_global_dynamic_data`. -/
def updateGlobalDynamicData (b : ProducedBlock Key) : ProductionState Key :=
  { s with
    schedule := { s.schedule with
      slots := s.schedule.slots.updateGlobalDynamicData b.blockNum b.timestamp }
    headBlockId := b.id
    recentSlotsFilled :=
      shift s.recentSlotsFilled (s.schedule.slots.missedBlocks b.timestamp).toNat
    totalMissed := s.countMissed b }

/-- `perform_chain_maintenance`. -/
def performChainMaintenance : Option (ActiveWitnesses × SlotParameters) → ProductionState Key
  | none => s
  | some (active, parameters) =>
    { s with
      schedule := { s.schedule with
        activeWitnesses := active
        slots := { s.schedule.slots with parameters := parameters } } }

/-- `_apply_block`. -/
def applyBlock (e : ProducedBlock Key × BlockOutcome Key) : Option (ProductionState Key) :=
  if s.validateBlockHeader e.1 then
    let s := { s with signingKey := e.2.signingKey }
    let s := s.updateGlobalDynamicData e.1
    let s := s.performChainMaintenance e.2.maintenance
    let slots := s.schedule.slots.updateMaintenanceFlag e.2.maintenance.isSome
    ({ s.schedule with slots := slots }.updateWitnessSchedule).map fun schedule ↦
      { s with schedule := schedule }
  else none

/-! ## A step -/

variable {s} {s' : ProductionState Key} {e : ProducedBlock Key × BlockOutcome Key}

theorem validateBlockHeader_iff {b : ProducedBlock Key} : s.validateBlockHeader b = true ↔
    s.headBlockId = b.previous ∧ s.schedule.slots.time < b.timestamp ∧
      b.signee = s.signingKey b.witness ∧ 0 < s.schedule.slots.getSlotAtTime b.timestamp ∧
      s.schedule.getScheduledWitness (s.schedule.slots.getSlotAtTime b.timestamp) =
        some b.witness := by
  simp [validateBlockHeader, and_assoc]

/-- **What a block changes**: it has been validated; the account moves on from its slot. -/
theorem applyBlock_spec (h : s.applyBlock e = some s') :
    s.validateBlockHeader e.1 = true ∧
      s'.headBlockId = e.1.id ∧ s'.schedule.slots.headBlockNumber = e.1.blockNum ∧
      s'.schedule.slots.time = e.1.timestamp ∧
      s'.schedule.slots.currentAslot = s.schedule.slots.currentAslot +
        (s.schedule.slots.missedBlocks e.1.timestamp + 1).toUInt64 ∧
      s'.recentSlotsFilled =
        shift s.recentSlotsFilled (s.schedule.slots.missedBlocks e.1.timestamp).toNat ∧
      s'.totalMissed = s.countMissed e.1 ∧ s'.signingKey = e.2.signingKey := by
  rw [applyBlock] at h
  split_ifs at h with hvalid
  obtain ⟨schedule, hschedule, rfl⟩ := Option.map_eq_some_iff.1 h
  obtain ⟨t, ht, hslots, -⟩ := ScheduleState.updateWitnessSchedule_spec (s := _)
  obtain rfl := Option.some.inj (hschedule.symm.trans ht)
  obtain ⟨b, signingKey, maintenance⟩ := e
  refine ⟨hvalid, ?_⟩
  simp only [hslots]
  cases maintenance <;> exact ⟨rfl, rfl, rfl, rfl, rfl, rfl, rfl⟩

/-- A block that is validated is applied. -/
theorem applyBlock_isSome (h : s.validateBlockHeader e.1 = true) : (s.applyBlock e).isSome := by
  rw [applyBlock, if_pos h]
  obtain ⟨t, ht, -⟩ := ScheduleState.updateWitnessSchedule_spec (s := _)
  rw [Option.isSome_map, ht]
  rfl

/-! ## The account -/

/-- The slot that a block fills. -/
def record (s : ProductionState Key) (b : ProducedBlock Key) : SlotRecord where
  witness := b.witness
  missed := (s.schedule.slots.missedBlocks b.timestamp).toNat
  passed := s.missedWitnesses b.timestamp

/-- The slots that a chain fills, newest first. -/
def history (s : ProductionState Key) :
    List (ProducedBlock Key × BlockOutcome Key) → List SlotRecord
  | [] => []
  | e :: es =>
    match s.applyBlock e with
    | none => []
    | some s' => history s' es ++ [s.record e.1]

/-- The account of the slots that have been filled. -/
structure Accounts (h : List SlotRecord) (s : ProductionState Key) : Prop where
  /-- There has been a block for each. -/
  number : s.schedule.slots.headBlockNumber = h.length.toUInt32
  /-- The head block is the last one. -/
  head : s.headBlockId.num = h.length.toUInt32
  /-- The slots are those, and those that were missed. -/
  aslot : s.schedule.slots.currentAslot = (elapsed (h.map SlotRecord.missed)).toUInt64
  /-- The bits stand for the last ones. -/
  window : s.recentSlotsFilled = window 128 (h.map SlotRecord.missed)
  /-- Every slot that was missed counts for its witness, unless it filled the next one. -/
  missed : ∀ w, s.totalMissed w = (h.map fun r ↦ r.missedBy w).sum

variable {h : List SlotRecord}

omit [DecidableEq Key] in
theorem countMissed_apply (b : ProducedBlock Key) (w : WitnessId) :
    s.countMissed b w = s.totalMissed w + (s.record b).missedBy w := by
  rw [countMissed, SlotRecord.missedBy, record]
  dsimp only
  generalize s.missedWitnesses b.timestamp = ws
  generalize s.totalMissed = t
  induction ws generalizing t with
  | nil => simp
  | cons v ws ih =>
    rw [List.foldl_cons, ih]
    by_cases hv : v = b.witness
    · rw [if_neg (not_not.2 hv)]
      split_ifs with hw
      · rfl
      · rw [List.count_cons_of_ne (fun heq ↦ hw (heq.symm.trans hv))]
    · rw [if_pos hv]
      split_ifs with hw
      · rw [Function.update_of_ne fun heq ↦ hv (heq.symm.trans hw)]
      · rcases eq_or_ne w v with rfl | hne
        · rw [Function.update_self, List.count_cons_self]
          omega
        · rw [Function.update_of_ne hne, List.count_cons_of_ne hne.symm]

/-- **A block keeps the account.** -/
theorem Accounts.applyBlock (hs : Accounts h s) (happly : s.applyBlock e = some s') :
    Accounts (s.record e.1 :: h) s' := by
  obtain ⟨hvalid, hid, hnumber, -, haslot, hwindow, hmissed, -⟩ := applyBlock_spec happly
  obtain ⟨hprevious, -, -, hslot, -⟩ := validateBlockHeader_iff.1 hvalid
  have hnum : e.1.blockNum = (s.record e.1 :: h).length.toUInt32 := by
    rw [ProducedBlock.blockNum, ← hprevious, hs.head, List.length_cons]
    simp
  refine ⟨hnumber.trans hnum, ?_, ?_, ?_, fun w ↦ ?_⟩
  · rw [hid]
    exact hnum
  · rw [haslot, hs.aslot, List.map_cons, elapsed, ← UInt64.toNat_inj]
    rw [UInt64.toNat_add, UInt32.toNat_toUInt64, SlotState.toNat_missedBlocks_add_one hslot]
    simp [record, Nat.add_assoc]
  · rw [hwindow, hs.window, List.map_cons, SlotWindow.window]
    rfl
  · rw [hmissed, countMissed_apply, hs.missed, List.map_cons, List.sum_cons, Nat.add_comm]

theorem Accounts.run {es : List (ProducedBlock Key × BlockOutcome Key)} (hs : Accounts h s)
    (happlied : applied ProductionState.applyBlock s es = some s') :
    Accounts (s.history es ++ h) s' := by
  induction es generalizing s h with
  | nil =>
    obtain rfl := Option.some.inj happlied
    exact hs
  | cons e es ih =>
    obtain ⟨s₁, hstep, hrest⟩ := applied_cons.1 happlied
    have hstep' : s.applyBlock e = some s₁ := hstep
    rw [history, hstep', List.append_assoc]
    exact ih (hs.applyBlock hstep') hrest

theorem length_history {es : List (ProducedBlock Key × BlockOutcome Key)}
    (happlied : applied applyBlock s es = some s') : (s.history es).length = es.length := by
  induction es generalizing s with
  | nil => rfl
  | cons e es ih =>
    obtain ⟨s₁, hstep, hrest⟩ := applied_cons.1 happlied
    have hstep' : s.applyBlock e = some s₁ := hstep
    rw [history, hstep', List.length_append, ih hrest]
    rfl

end ProductionState

/-- **The slots are accounted for.**  After every chain there have been as many slots as blocks and
missed slots together.  Bit `k` of the recent slots says whether the slot `k + 1` before that of the
head block was filled, so that the participation is that of the 128 slots before it; and a witness
has missed the slots that were its own and not filled, save those right before a block of its own.
-/
theorem slots_accounted (s₀ s : ProductionState Key)
    (es : List (ProducedBlock Key × BlockOutcome Key)) (hs₀ : ProductionState.Accounts [] s₀)
    (h : applied ProductionState.applyBlock s₀ es = some s) :
    let missed := (s₀.history es).map SlotRecord.missed
    (s₀.history es).length = es.length ∧
    s.schedule.slots.headBlockNumber = es.length.toUInt32 ∧
    s.schedule.slots.currentAslot = (missed.sum + es.length).toUInt64 ∧
    (∀ k < 128, s.recentSlotsFilled.getLsbD k = true ↔
      elapsed missed ≤ k ∨ ∃ n ∈ filled missed, n + k + 1 = elapsed missed) ∧
    s.witnessParticipationRate = 10000 * ((Finset.range 128).filter fun k ↦
      elapsed missed ≤ k ∨ ∃ n ∈ filled missed, n + k + 1 = elapsed missed).card / 128 ∧
    ∀ w, s.totalMissed w = ((s₀.history es).map fun r ↦ r.missedBy w).sum := by
  intro missed
  have hs := hs₀.run h
  rw [List.append_nil] at hs
  have hlength := ProductionState.length_history h
  have hbits : ∀ k < 128, s.recentSlotsFilled.getLsbD k = true ↔
      elapsed missed ≤ k ∨ ∃ n ∈ filled missed, n + k + 1 = elapsed missed := fun k hk ↦ by
    rw [hs.window]
    exact getLsbD_window hk missed
  refine ⟨hlength, hlength ▸ hs.number, ?_, hbits, ?_, hs.missed⟩
  · rw [hs.aslot, elapsed_eq, List.length_map, hlength]
  · rw [ProductionState.witnessParticipationRate, popcount]
    congr 3
    exact Finset.filter_congr fun k hk ↦ hbits k (Finset.mem_range.1 hk)

/-! ## Two blocks of three witnesses -/

/-- Before the first block. -/
def atGenesis : ProductionState ℕ where
  schedule := threeSchedule 0 0 #[9, 4, 5]
  headBlockId := ⟨0, 0⟩
  recentSlotsFilled := BitVec.allOnes 128
  totalMissed := fun _ ↦ 0
  signingKey := fun w ↦ w + 100

/-- A witness fills two slots of its own, and the two between them are missed. -/
def twoBlocks : List (ProducedBlock ℕ × BlockOutcome ℕ) :=
  [(⟨⟨0, 0⟩, 1500000003, 4, 104, 77⟩, ⟨fun w ↦ w + 100, none⟩),
    (⟨⟨1, 77⟩, 1500000012, 4, 104, 78⟩, ⟨fun w ↦ w + 100, none⟩)]

theorem slots_accounted_twoBlocks :
    ∃ s, applied ProductionState.applyBlock atGenesis twoBlocks = some s ∧
      s.schedule.slots.currentAslot = 4 ∧
      s.totalMissed 9 = ((atGenesis.history twoBlocks).map fun r ↦ r.missedBy 9).sum := by
  have hsome : (applied ProductionState.applyBlock atGenesis twoBlocks).isSome := by
    decide +kernel
  obtain ⟨s, hs⟩ := Option.isSome_iff_exists.1 hsome
  have hstart : ProductionState.Accounts [] atGenesis := ⟨rfl, rfl, rfl, rfl, fun _ ↦ rfl⟩
  obtain ⟨-, -, haslot, -, -, hmissed⟩ := slots_accounted atGenesis s twoBlocks hstart hs
  refine ⟨s, hs, haslot.trans ?_, hmissed 9⟩
  decide +kernel

end Graphene
