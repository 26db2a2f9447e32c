import Mathlib.Data.Nat.Init
import Mathlib.Order.Bounds.Basic
import Mathlib.Tactic.Ring
import Mathlib.Tactic.Common

/-!
# Slots

A block is produced in a slot, and slots are numbered from the head block on: slot 1 is the first
that is still to come, some slots later after a maintenance block.

* `SlotState.getSlotTime`, `getSlotAtTime` — the time of a slot and the slot at a time, in 32 bits.
* `SlotState.updateGlobalDynamicData` — what a block makes of them.
* `SlotState.InEpoch` — the time of a slot can be written in 32 bits.
* `SlotState.slots_inverse` — within the epoch the two are inverse.
* `SlotState.updateGlobalDynamicData_getSlotTime` — what a block in a slot misses, and where it
  leaves the absolute slot.
-/

set_option autoImplicit false

namespace Graphene

/-- What there is in `chain_parameters` about slots. -/
structure SlotParameters where
  /-- `block_interval`. -/
  blockInterval : UInt8
  /-- `chain_parameters::validate` asks for it. -/
  blockInterval_pos : 0 < blockInterval
  /-- `maintenance_skip_slots`. -/
  maintenanceSkipSlots : UInt8

/-- The properties that slots go by. -/
structure SlotState where
  /-- `head_block_number`. -/
  headBlockNumber : UInt32
  /-- `time`: that of the head block, or of genesis. -/
  time : UInt32
  /-- `current_aslot`. -/
  currentAslot : UInt64
  /-- The `maintenance_flag` of `dynamic_flags`. -/
  maintenanceFlag : Bool
  /-- The parameters in force. -/
  parameters : SlotParameters

namespace SlotState

variable (s : SlotState)

/-- `block_interval`. -/
def blockInterval : UInt32 := s.parameters.blockInterval.toUInt32

/-- `get_slot_time`. -/
def getSlotTime (slotNum : UInt32) : UInt32 :=
  if slotNum = 0 then 0
  else
    let interval := s.blockInterval
    if s.headBlockNumber = 0 then
      -- the first block is at the time of genesis plus one block interval
      s.time + slotNum * interval
    else
      let headBlockAbsSlot := s.time / interval
      let headSlotTime := headBlockAbsSlot * interval
      let slotNum :=
        if s.maintenanceFlag then slotNum + s.parameters.maintenanceSkipSlots.toUInt32 else slotNum
      headSlotTime + slotNum * interval

/-- `get_slot_at_time`. -/
def getSlotAtTime (when : UInt32) : UInt32 :=
  let firstSlotTime := s.getSlotTime 1
  if when < firstSlotTime then 0 else (when - firstSlotTime) / s.blockInterval + 1

/-- `missed_blocks` of `update_global_dynamic_data`. -/
def missedBlocks (timestamp : UInt32) : UInt32 := s.getSlotAtTime timestamp - 1

/-- `update_global_dynamic_data`, for the block with the given number and time. -/
def updateGlobalDynamicData (blockNum timestamp : UInt32) : SlotState :=
  { s with
    headBlockNumber := blockNum
    time := timestamp
    currentAslot := s.currentAslot + (s.missedBlocks timestamp + 1).toUInt64 }

/-- `update_maintenance_flag`. -/
def updateMaintenanceFlag (newMaintenanceFlag : Bool) : SlotState :=
  { s with maintenanceFlag := newMaintenanceFlag }

/-! ## In exact arithmetic -/

/-- The time that slots are counted from: that of genesis, or the beginning of the slot that the
head block is in. -/
def base : ℕ :=
  if s.headBlockNumber = 0 then s.time.toNat
  else s.time.toNat / s.blockInterval.toNat * s.blockInterval.toNat

/-- How many slots are passed over. -/
def skipped : ℕ :=
  if s.headBlockNumber ≠ 0 ∧ s.maintenanceFlag then s.parameters.maintenanceSkipSlots.toNat else 0

/-- The time of a slot. -/
def slotTime (n : ℕ) : ℕ := if n = 0 then 0 else s.base + (n + s.skipped) * s.blockInterval.toNat

/-- The time of a slot can be written in 32 bits. -/
def InEpoch (n : UInt32) : Prop := s.slotTime n.toNat < 2 ^ 32

variable {s}

theorem blockInterval_pos : 0 < s.blockInterval.toNat :=
  UInt8.lt_iff_toNat_lt.1 s.parameters.blockInterval_pos

theorem slotTime_of_pos {n : ℕ} (hn : 0 < n) :
    s.slotTime n = s.base + (n + s.skipped) * s.blockInterval.toNat :=
  if_neg (Nat.ne_of_gt hn)

theorem slotTime_eq_add {n : ℕ} (hn : 0 < n) :
    s.slotTime n = s.slotTime 1 + (n - 1) * s.blockInterval.toNat := by
  obtain ⟨n, rfl⟩ := Nat.exists_eq_succ_of_ne_zero (Nat.ne_of_gt hn)
  rw [slotTime_of_pos hn, slotTime_of_pos Nat.one_pos, Nat.succ_sub_one, Nat.succ_eq_add_one]
  ring

/-- Later slots are later. -/
theorem slotTime_lt {m n : ℕ} (hm : 0 < m) (hmn : m < n) : s.slotTime m < s.slotTime n := by
  rw [slotTime_of_pos hm, slotTime_of_pos (hm.trans hmn)]
  exact Nat.add_lt_add_left
    (Nat.mul_lt_mul_of_pos_right (Nat.add_lt_add_right hmn _) blockInterval_pos) _

theorem slotTime_mono {m n : ℕ} (hm : 0 < m) (hmn : m ≤ n) : s.slotTime m ≤ s.slotTime n := by
  rcases Nat.eq_or_lt_of_le hmn with rfl | hlt
  · exact Nat.le_refl _
  · exact (slotTime_lt hm hlt).le

/-- The head block is before the first slot. -/
theorem time_lt_slotTime (hhead : s.headBlockNumber ≠ 0) : s.time.toNat < s.slotTime 1 := by
  rw [slotTime_of_pos Nat.one_pos, base, if_neg hhead]
  have hdiv := Nat.div_add_mod s.time.toNat s.blockInterval.toNat
  have hmod := Nat.mod_lt s.time.toNat (blockInterval_pos (s := s))
  calc s.time.toNat
      < s.time.toNat / s.blockInterval.toNat * s.blockInterval.toNat + s.blockInterval.toNat := by
        rw [Nat.mul_comm]
        omega
    _ ≤ s.time.toNat / s.blockInterval.toNat * s.blockInterval.toNat +
          (1 + s.skipped) * s.blockInterval.toNat :=
        Nat.add_le_add_left (Nat.le_mul_of_pos_left _ (by omega)) _

/-! ## In 32 bits -/

theorem toNat_toUInt32 (x : UInt8) : x.toUInt32.toNat = x.toNat := rfl

/-- **Within the epoch** the time of a slot is computed exactly. -/
theorem toNat_getSlotTime {n : UInt32} (h : s.InEpoch n) :
    (s.getSlotTime n).toNat = s.slotTime n.toNat := by
  by_cases hn : n = 0
  · rw [getSlotTime, if_pos hn, hn]
    rfl
  have hpos : 0 < n.toNat := Nat.pos_of_ne_zero fun hzero ↦ hn (UInt32.toNat_inj.1 hzero)
  have hlt : s.base + (n.toNat + s.skipped) * s.blockInterval.toNat < 2 ^ 32 :=
    (slotTime_of_pos hpos).symm.trans_lt h
  have hle : n.toNat + s.skipped ≤ (n.toNat + s.skipped) * s.blockInterval.toNat :=
    Nat.le_mul_of_pos_right _ blockInterval_pos
  rw [getSlotTime, if_neg hn, slotTime_of_pos hpos]
  by_cases hhead : s.headBlockNumber = 0
  · have hskipped : s.skipped = 0 := if_neg fun hboth ↦ hboth.1 hhead
    rw [hskipped, Nat.add_zero] at hlt ⊢
    rw [base, if_pos hhead] at hlt ⊢
    simp only [if_pos hhead, UInt32.toNat_add, UInt32.toNat_mul]
    rw [Nat.mod_eq_of_lt (show n.toNat * s.blockInterval.toNat < 2 ^ 32 by omega),
      Nat.mod_eq_of_lt hlt]
  · have hslot : (if s.maintenanceFlag then n + s.parameters.maintenanceSkipSlots.toUInt32
        else n).toNat = n.toNat + s.skipped := by
      by_cases hflag : s.maintenanceFlag
      · have hskipped : s.skipped = s.parameters.maintenanceSkipSlots.toNat :=
          if_pos ⟨hhead, hflag⟩
        rw [if_pos hflag, UInt32.toNat_add, toNat_toUInt32, ← hskipped]
        exact Nat.mod_eq_of_lt (by show n.toNat + s.skipped < 2 ^ 32; omega)
      · have hskipped : s.skipped = 0 := if_neg fun hboth ↦ hflag hboth.2
        rw [if_neg hflag, hskipped, Nat.add_zero]
    rw [base, if_neg hhead] at hlt ⊢
    simp only [if_neg hhead, UInt32.toNat_add, UInt32.toNat_mul, UInt32.toNat_div, hslot]
    rw [Nat.mod_eq_of_lt (show s.time.toNat / s.blockInterval.toNat * s.blockInterval.toNat <
        2 ^ 32 by omega),
      Nat.mod_eq_of_lt (show (n.toNat + s.skipped) * s.blockInterval.toNat < 2 ^ 32 by omega),
      Nat.mod_eq_of_lt hlt]

/-- **The slot at a time** is computed exactly, if the first slot is within the epoch. -/
theorem toNat_getSlotAtTime (h : s.InEpoch 1) (when : UInt32) :
    (s.getSlotAtTime when).toNat =
      if when.toNat < s.slotTime 1 then 0
      else (when.toNat - s.slotTime 1) / s.blockInterval.toNat + 1 := by
  have hfirst : (s.getSlotTime 1).toNat = s.slotTime 1 := toNat_getSlotTime h
  have hpos : 0 < s.slotTime 1 := by
    rw [slotTime_of_pos Nat.one_pos]
    exact Nat.add_pos_right _ (Nat.mul_pos (by omega) blockInterval_pos)
  have hwhen := when.toNat_lt
  have hdiv := Nat.div_le_self (when.toNat - s.slotTime 1) s.blockInterval.toNat
  simp only [getSlotAtTime, UInt32.lt_iff_toNat_lt, hfirst]
  split_ifs with hbefore
  · rfl
  · have hle : s.getSlotTime 1 ≤ when :=
      UInt32.le_iff_toNat_le.2 (hfirst ▸ Nat.not_lt.1 hbefore)
    rw [UInt32.toNat_add, UInt32.toNat_div, UInt32.toNat_sub_of_le _ _ hle, hfirst,
      UInt32.toNat_one]
    exact Nat.mod_eq_of_lt (by omega)

theorem inEpoch_one {n : UInt32} (hn : 1 ≤ n) (h : s.InEpoch n) : s.InEpoch 1 :=
  (slotTime_mono Nat.one_pos (UInt32.le_iff_toNat_le.1 hn)).trans_lt h

/-- The slot at the time of a slot is that slot. -/
theorem getSlotAtTime_getSlotTime {n : UInt32} (hn : 1 ≤ n) (h : s.InEpoch n) :
    s.getSlotAtTime (s.getSlotTime n) = n := by
  have hn' : 1 ≤ n.toNat := UInt32.le_iff_toNat_le.1 hn
  have hle : s.slotTime 1 ≤ s.slotTime n.toNat := slotTime_mono Nat.one_pos hn'
  rw [← UInt32.toNat_inj, toNat_getSlotAtTime (inEpoch_one hn h), toNat_getSlotTime h,
    if_neg (Nat.not_lt.2 hle), slotTime_eq_add hn', Nat.add_sub_cancel_left,
    Nat.mul_div_cancel _ blockInterval_pos]
  omega

/-- The slot at a time is the last one that is not later. -/
theorem isGreatest_getSlotAtTime (h : s.InEpoch 1) (when : UInt32) :
    IsGreatest {n | s.InEpoch n ∧ s.getSlotTime n ≤ when} (s.getSlotAtTime when) := by
  have hslot := toNat_getSlotAtTime h when
  by_cases hbefore : when.toNat < s.slotTime 1
  · rw [if_pos hbefore] at hslot
    have hzero : s.getSlotAtTime when = 0 := UInt32.toNat_inj.1 hslot
    rw [hzero]
    refine ⟨⟨Nat.two_pow_pos 32, UInt32.zero_le⟩, ?_⟩
    rintro n ⟨hepoch, hle⟩
    rw [UInt32.le_iff_toNat_le, toNat_getSlotTime hepoch] at hle
    rw [UInt32.le_iff_toNat_le]
    by_contra hn
    have hmono : s.slotTime 1 ≤ s.slotTime n.toNat := slotTime_mono Nat.one_pos (Nat.not_le.1 hn)
    omega
  · rw [if_neg hbefore] at hslot
    have hdiv := Nat.div_mul_le_self (when.toNat - s.slotTime 1) s.blockInterval.toNat
    have htime : s.slotTime (s.getSlotAtTime when).toNat ≤ when.toNat := by
      rw [hslot, slotTime_eq_add (Nat.succ_pos _), Nat.succ_sub_one]
      omega
    have hepoch : s.InEpoch (s.getSlotAtTime when) := htime.trans_lt when.toNat_lt
    constructor
    · exact ⟨hepoch, UInt32.le_iff_toNat_le.2 ((toNat_getSlotTime hepoch).trans_le htime)⟩
    · rintro n ⟨hepoch', hle⟩
      rw [UInt32.le_iff_toNat_le, toNat_getSlotTime hepoch'] at hle
      rw [UInt32.le_iff_toNat_le, hslot]
      rcases Nat.eq_zero_or_pos n.toNat with hzero | hpos
      · omega
      · rw [slotTime_eq_add hpos] at hle
        have hquot : n.toNat - 1 ≤ (when.toNat - s.slotTime 1) / s.blockInterval.toNat :=
          (Nat.le_div_iff_mul_le blockInterval_pos).2 (by omega)
        omega

/-- **Slot times and slot numbers are inverse.**  As far as the times can be written in 32 bits,
later slots are later; the first is after the head block, once there is one; the slot at the time of
a slot is that slot; and the slot at a time is the last one that is not later. -/
theorem slots_inverse (s : SlotState) :
    (∀ m n, 1 ≤ m → m < n → s.InEpoch n → s.getSlotTime m < s.getSlotTime n) ∧
    (s.headBlockNumber ≠ 0 → s.InEpoch 1 → s.time < s.getSlotTime 1) ∧
    (∀ n, 1 ≤ n → s.InEpoch n → s.getSlotAtTime (s.getSlotTime n) = n) ∧
    (s.InEpoch 1 → ∀ when,
      IsGreatest {n | s.InEpoch n ∧ s.getSlotTime n ≤ when} (s.getSlotAtTime when)) := by
  refine ⟨fun m n hm hmn hepoch ↦ ?_, fun hhead hepoch ↦ ?_,
    fun n hn hepoch ↦ getSlotAtTime_getSlotTime hn hepoch, isGreatest_getSlotAtTime⟩
  · have hlt := slotTime_lt (s := s) (UInt32.le_iff_toNat_le.1 hm) (UInt32.lt_iff_toNat_lt.1 hmn)
    have hepoch' : s.InEpoch m := hlt.trans hepoch
    rw [UInt32.lt_iff_toNat_lt, toNat_getSlotTime hepoch', toNat_getSlotTime hepoch]
    exact hlt
  · rw [UInt32.lt_iff_toNat_lt, toNat_getSlotTime hepoch]
    exact time_lt_slotTime hhead

/-- A maintenance block in the middle of a slot, after which three slots are skipped. -/
def afterMaintenance : SlotState where
  headBlockNumber := 1
  time := 17
  currentAslot := 1
  maintenanceFlag := true
  parameters := { blockInterval := 5, blockInterval_pos := by decide, maintenanceSkipSlots := 3 }

instance (s : SlotState) (n : UInt32) : Decidable (s.InEpoch n) :=
  inferInstanceAs (Decidable (_ < _))

theorem slots_inverse_afterMaintenance :
    afterMaintenance.getSlotTime 1 = 35 ∧ afterMaintenance.time < afterMaintenance.getSlotTime 1 ∧
    afterMaintenance.getSlotTime 2 < afterMaintenance.getSlotTime 7 ∧
    afterMaintenance.getSlotAtTime (afterMaintenance.getSlotTime 7) = 7 ∧
    IsGreatest {n | afterMaintenance.InEpoch n ∧ afterMaintenance.getSlotTime n ≤ 42} 2 := by
  obtain ⟨hmono, hhead, hinverse, hgreatest⟩ := slots_inverse afterMaintenance
  exact ⟨by decide, hhead (by decide) (by decide), hmono 2 7 (by decide) (by decide) (by decide),
    hinverse 7 (by decide) (by decide), hgreatest (by decide) 42⟩

/-- A block in a slot misses the slots before it, and the absolute slot moves by its number. -/
theorem updateGlobalDynamicData_getSlotTime {n : UInt32} (hn : 1 ≤ n) (h : s.InEpoch n)
    (blockNum : UInt32) :
    s.missedBlocks (s.getSlotTime n) = n - 1 ∧
      (s.updateGlobalDynamicData blockNum (s.getSlotTime n)).currentAslot =
        s.currentAslot + n.toUInt64 := by
  have hmissed : s.missedBlocks (s.getSlotTime n) = n - 1 := by
    rw [missedBlocks, getSlotAtTime_getSlotTime hn h]
  refine ⟨hmissed, ?_⟩
  show s.currentAslot + (s.missedBlocks (s.getSlotTime n) + 1).toUInt64 = _
  rw [hmissed, UInt32.sub_add_cancel]

end SlotState

end Graphene
