import Graphene.Chain.Irreversible
import Graphene.Chain.SlotTime
import Mathlib.Data.Finset.Sort
import Mathlib.Order.Interval.Finset.Nat

/-!
# The order of the witnesses

The active witnesses produce blocks in an order that is drawn anew every so many blocks as there are
of them.  A slot belongs to the witness at its number in that order, counted around.

* `shuffleFrom` — the loop that draws the order, and the array accesses that it makes.
* `ScheduleState.updateWitnessSchedule`, `ScheduleState.getScheduledWitness`.
* `shuffleFrom_perm` — the loop loses no witness and doubles none.
* `scheduled_perm` — every witness has one of as many consecutive slots as there are witnesses.
-/

set_option autoImplicit false

namespace Graphene

/-! ## The shuffle -/

/-- The random number for the position `i`. -/
def random (nowHi : UInt64) (i : ℕ) : UInt64 :=
  let k := nowHi + i.toUInt64 * 2685821657736338717
  let k := k ^^^ (k >>> 12)
  let k := k ^^^ (k <<< 25)
  let k := k ^^^ (k >>> 27)
  k * 2685821657736338717

/-- `count` iterations of the loop from position `i` on: nothing, if a position is outside the
array, or a division by zero. -/
def shuffleFrom (nowHi : UInt64) : ℕ → ℕ → Array WitnessId → Option (Array WitnessId)
  | 0, _, ws => some ws
  | count + 1, i, ws =>
    let jmax := (ws.size - i).toUInt32
    let j := (i.toUInt64 + random nowHi i % jmax.toUInt64).toUInt32.toNat
    if h : jmax ≠ 0 ∧ i < ws.size ∧ j < ws.size then
      shuffleFrom nowHi count (i + 1) (ws.swap i j h.2.1 h.2.2)
    else none

/-- A position is drawn from those that are left. -/
theorem jump_lt {size i : ℕ} (hsize : size < 2 ^ 32) (hi : i < size) (k : UInt64) :
    (size - i).toUInt32 ≠ 0 ∧
      (i.toUInt64 + k % (size - i).toUInt32.toUInt64).toUInt32.toNat < size := by
  have hjmax : (size - i).toUInt32.toNat = size - i := by
    exact UInt32.toNat_ofNat_of_lt' (by show size - i < 2 ^ 32; omega)
  have hi' : i.toUInt64.toNat = i := by
    exact UInt64.toNat_ofNat_of_lt' (by show i < 2 ^ 64; omega)
  have hmod : k.toNat % (size - i) < size - i := Nat.mod_lt _ (by omega)
  constructor
  · intro hzero
    rw [hzero] at hjmax
    simp at hjmax
    omega
  · rw [UInt64.toNat_toUInt32, UInt64.toNat_add, UInt64.toNat_mod, UInt32.toNat_toUInt64, hjmax,
      hi']
    omega

/-- **The shuffle** stays inside the array, loses no witness and doubles none. -/
theorem shuffleFrom_perm (nowHi : UInt64) {count i : ℕ} {ws : Array WitnessId}
    (hsize : ws.size < 2 ^ 32) (hcount : i + count ≤ ws.size) :
    ∃ ws', shuffleFrom nowHi count i ws = some ws' ∧ ws'.Perm ws := by
  induction count generalizing i ws with
  | zero => exact ⟨ws, rfl, .refl ws⟩
  | succ count ih =>
    have hi : i < ws.size := by omega
    obtain ⟨hjmax, hj⟩ := jump_lt hsize hi (random nowHi i)
    have hsize' : (ws.swap i _ hi hj).size = ws.size := Array.size_swap ..
    obtain ⟨ws', hws', hperm⟩ := @ih (i + 1) (ws.swap i _ hi hj) (by omega) (by omega)
    refine ⟨ws', ?_, hperm.trans (Array.swap_perm hi hj)⟩
    rw [shuffleFrom]
    exact (dif_pos ⟨hjmax, hi, hj⟩).trans hws'

/-! ## The schedule -/

/-- The `active_witnesses`. -/
structure ActiveWitnesses where
  /-- The set. -/
  ids : Finset WitnessId
  /-- There is one. -/
  nonempty : ids.Nonempty
  /-- Their number is one of 32 bits; no more are elected than a number of 16 bits. -/
  card_lt : ids.card < 2 ^ 32

/-- What the order of the witnesses is drawn from, and the order. -/
structure ScheduleState where
  /-- The head block, and the slot it is in. -/
  slots : SlotState
  /-- `active_witnesses`. -/
  activeWitnesses : ActiveWitnesses
  /-- `current_shuffled_witnesses`. -/
  currentShuffledWitnesses : Array WitnessId

namespace ActiveWitnesses

variable (active : ActiveWitnesses)

/-- The witnesses in the order of the set. -/
def toArray : Array WitnessId := (active.ids.sort (· ≤ ·)).toArray

/-- The number of witnesses. -/
def size : ℕ := active.ids.card

theorem size_toArray : active.toArray.size = active.size := by
  rw [toArray, List.size_toArray, Finset.length_sort, size]

end ActiveWitnesses

namespace ScheduleState

variable (s : ScheduleState)

/-- `update_witness_schedule`. -/
def updateWitnessSchedule : Option ScheduleState :=
  if s.slots.headBlockNumber.toNat % s.activeWitnesses.size = 0 then do
    let nowHi := s.slots.time.toUInt64 <<< 32
    let ws := s.activeWitnesses.toArray
    let ws ← shuffleFrom nowHi ws.size 0 ws
    return { s with currentShuffledWitnesses := ws }
  else return s

/-- `get_scheduled_witness`: nothing, if there are no witnesses. -/
def getScheduledWitness (slotNum : UInt32) : Option WitnessId :=
  let currentAslot := s.slots.currentAslot + slotNum.toUInt64
  s.currentShuffledWitnesses[currentAslot.toNat % s.currentShuffledWitnesses.size]?

/-- The witnesses of `count` slots from `first` on. -/
def scheduledFrom (first : UInt32) (count : ℕ) : List (Option WitnessId) :=
  (List.range count).map fun i ↦ s.getScheduledWitness (first + i.toUInt32)

/-- The order is one of the active witnesses. -/
def Scheduled (ws : Array WitnessId) (active : ActiveWitnesses) : Prop := ws.Perm active.toArray

variable {s}

/-- **A new order** is one of the active witnesses, and drawn at every multiple of their number. -/
theorem updateWitnessSchedule_spec :
    ∃ s', s.updateWitnessSchedule = some s' ∧ s'.slots = s.slots ∧
      s'.activeWitnesses = s.activeWitnesses ∧
      (s.slots.headBlockNumber.toNat % s.activeWitnesses.size = 0 →
        Scheduled s'.currentShuffledWitnesses s.activeWitnesses) ∧
      (s.slots.headBlockNumber.toNat % s.activeWitnesses.size ≠ 0 → s' = s) := by
  by_cases hmult : s.slots.headBlockNumber.toNat % s.activeWitnesses.size = 0
  · have hsize : s.activeWitnesses.toArray.size < 2 ^ 32 := by
      rw [ActiveWitnesses.size_toArray]
      exact s.activeWitnesses.card_lt
    obtain ⟨ws, hws, hperm⟩ := shuffleFrom_perm (s.slots.time.toUInt64 <<< 32) hsize
      (Nat.zero_add _).le
    refine ⟨{ s with currentShuffledWitnesses := ws }, ?_, rfl, rfl, fun _ ↦ hperm,
      fun hnot ↦ absurd hmult hnot⟩
    rw [updateWitnessSchedule, if_pos hmult]
    exact Option.bind_eq_some_iff.2 ⟨ws, hws, rfl⟩
  · exact ⟨s, if_neg hmult, rfl, rfl, fun h ↦ absurd h hmult, fun _ ↦ rfl⟩

/-! ## As many slots as witnesses -/

/-- Consecutive numbers, counted around, are all the numbers below. -/
theorem range_map_mod_perm (n a : ℕ) :
    ((List.range n).map fun i ↦ (a + i) % n).Perm (List.range n) := by
  have hrange : ((List.range n).map fun i ↦ (a + i) % n) = (List.range' a n).map (· % n) := by
    rw [List.range'_eq_map_range, List.map_map]
    rfl
  have hinterval : Multiset.Ico a (a + n) = (List.range' a n : Multiset ℕ) := by
    show ((List.range' a (a + n - a) : List ℕ) : Multiset ℕ) = _
    rw [Nat.add_sub_cancel_left]
  rw [hrange]
  refine Multiset.coe_eq_coe.1 ?_
  rw [← Multiset.map_coe, ← hinterval]
  exact Nat.multiset_Ico_map_mod a n

/-- The slot at `first + i` has the number it should have, within 64 bits. -/
theorem getScheduledWitness_add {first : UInt32} {i : ℕ} (hslot : first.toNat + i < 2 ^ 32)
    (haslot : s.slots.currentAslot.toNat + first.toNat + i < 2 ^ 64) :
    s.getScheduledWitness (first + i.toUInt32) =
      s.currentShuffledWitnesses[(s.slots.currentAslot.toNat + first.toNat + i) %
        s.currentShuffledWitnesses.size]? := by
  have hi : i.toUInt32.toNat = i := UInt32.toNat_ofNat_of_lt' (by show i < 2 ^ 32; omega)
  have hsum : (s.slots.currentAslot + (first + i.toUInt32).toUInt64).toNat =
      s.slots.currentAslot.toNat + first.toNat + i := by
    rw [UInt64.toNat_add, UInt32.toNat_toUInt64, UInt32.toNat_add, hi]
    omega
  rw [getScheduledWitness, hsum]

/-- **Every witness has one of as many consecutive slots as there are witnesses.** -/
theorem scheduledFrom_perm {first : UInt32} {n : ℕ} (hn : s.currentShuffledWitnesses.size = n)
    (hslot : first.toNat + n ≤ 2 ^ 32)
    (haslot : s.slots.currentAslot.toNat + first.toNat + n ≤ 2 ^ 64) :
    (s.scheduledFrom first n).Perm (s.currentShuffledWitnesses.toList.map some) := by
  let start := s.slots.currentAslot.toNat + first.toNat
  have hscheduled : s.scheduledFrom first n =
      ((List.range n).map fun i ↦ (start + i) % n).map (s.currentShuffledWitnesses[·]?) := by
    rw [scheduledFrom, List.map_map]
    refine List.map_congr_left fun i hi ↦ ?_
    have hi := List.mem_range.1 hi
    rw [getScheduledWitness_add (by omega) (by omega), hn]
    rfl
  have hall : (List.range n).map (s.currentShuffledWitnesses[·]?) =
      s.currentShuffledWitnesses.toList.map some := by
    refine List.ext_getElem ?_ fun i hi _ ↦ ?_
    · rw [List.length_map, List.length_map, List.length_range, Array.length_toList, hn]
    · rw [List.length_map, List.length_range] at hi
      rw [List.getElem_map, List.getElem_map, List.getElem_range, Array.getElem_toList,
        Array.getElem?_eq_getElem (by omega)]
  rw [hscheduled, ← hall]
  exact (range_map_mod_perm n start).map _

end ScheduleState

/-- **The schedule is fair.**  At a block whose number is a multiple of the number of active
witnesses, the order becomes one of the active witnesses, at other blocks it stays; and whenever the
order is one of the active witnesses, as many consecutive slots as there are of them have each of
them once, as long as slots have numbers of 64 bits. -/
theorem witness_schedule_fair :
    (∀ s : ScheduleState, ∃ s', s.updateWitnessSchedule = some s' ∧
      s'.slots = s.slots ∧ s'.activeWitnesses = s.activeWitnesses ∧
      (s.slots.headBlockNumber.toNat % s.activeWitnesses.size = 0 →
        ScheduleState.Scheduled s'.currentShuffledWitnesses s.activeWitnesses) ∧
      (s.slots.headBlockNumber.toNat % s.activeWitnesses.size ≠ 0 → s' = s)) ∧
    ∀ (s : ScheduleState) (active : ActiveWitnesses) (first : UInt32),
      ScheduleState.Scheduled s.currentShuffledWitnesses active →
      first.toNat + active.size ≤ 2 ^ 32 →
      s.slots.currentAslot.toNat + first.toNat + active.size ≤ 2 ^ 64 →
      (s.scheduledFrom first active.size).Perm (active.toArray.toList.map some) := by
  refine ⟨fun s ↦ s.updateWitnessSchedule_spec, fun s active first hscheduled hslot haslot ↦ ?_⟩
  have hsize : s.currentShuffledWitnesses.size = active.size :=
    hscheduled.size_eq.trans active.size_toArray
  exact (ScheduleState.scheduledFrom_perm hsize hslot haslot).trans (hscheduled.toList.map some)

/-! ## Three witnesses -/

/-- Three active witnesses. -/
def threeWitnesses : ActiveWitnesses := ⟨{4, 5, 9}, ⟨4, by decide⟩, by decide⟩

/-- A state with them, at a block and a slot. -/
def threeSchedule (headBlockNumber : UInt32) (currentAslot : UInt64) (ws : Array WitnessId) :
    ScheduleState where
  slots := ⟨headBlockNumber, 1500000000, currentAslot, false, ⟨3, by decide, 0⟩⟩
  activeWitnesses := threeWitnesses
  currentShuffledWitnesses := ws

theorem threeWitnesses_toArray : threeWitnesses.toArray = #[4, 5, 9] := by
  have hsort : ([4, 5, 9] : List ℕ).toFinset.sort (· ≤ ·) = [4, 5, 9] :=
    (List.toFinset_sort _ (by decide)).2 (by decide)
  exact congrArg List.toArray hsort

/-- From slot 8 on each of the three has one of three slots. -/
theorem witness_schedule_fair_three :
    ((threeSchedule 6 7 #[9, 4, 5]).scheduledFrom 1 threeWitnesses.size).Perm
      [some 4, some 5, some 9] := by
  have hscheduled : ScheduleState.Scheduled #[9, 4, 5] threeWitnesses := by
    rw [ScheduleState.Scheduled, threeWitnesses_toArray, Array.perm_iff_toList_perm]
    decide
  have h := witness_schedule_fair.2 (threeSchedule 6 7 #[9, 4, 5]) threeWitnesses 1 hscheduled
    (by decide) (by decide)
  rw [threeWitnesses_toArray] at h
  exact h

/-- At block 7 the order of three witnesses stays what it was, and the slot after the last one that
has a number of 64 bits is the first again. -/
theorem schedule_stays_and_wraps :
    (threeSchedule 7 0 #[8]).updateWitnessSchedule = some (threeSchedule 7 0 #[8]) ∧
      ¬ ScheduleState.Scheduled (threeSchedule 7 0 #[8]).currentShuffledWitnesses threeWitnesses ∧
      ScheduleState.Scheduled #[9, 4, 5] threeWitnesses ∧
      (threeSchedule 6 18446744073709551615 #[9, 4, 5]).scheduledFrom 0 3 =
        [some 9, some 9, some 4] := by
  have hthree := threeWitnesses_toArray
  refine ⟨rfl, ?_, ?_, by decide +kernel⟩
  · rw [ScheduleState.Scheduled, hthree, Array.perm_iff_toList_perm]
    decide
  · rw [ScheduleState.Scheduled, hthree, Array.perm_iff_toList_perm]
    decide

end Graphene
