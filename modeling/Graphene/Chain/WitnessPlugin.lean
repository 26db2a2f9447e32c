import Mathlib.Data.List.ReduceOption
import Graphene.Chain.Production

/-!
# Nodes that produce blocks

Once in a second the witness plugin of a node looks whether a slot has come that belongs to one of
its witnesses, and produces a block if so.  This file has its decision, and what becomes of it in
a node and among nodes.

The plugin reads the signing key of the witness in the state *with* the pending transactions, as
does the check in `_generate_block`; but the block is then pushed like any other, and there its
signature is held against the key in the state of the head block.  So a witness update that is
still pending can make a node sign a block that it refuses itself, or keep it from signing at all.
Such a block never leaves the node.  What the pending transactions say, the hash of the block and
what becomes of its transactions are an `Attempt`, of which nothing is assumed.

* `WitnessPlugin.maybeProduceBlock` — the decision, at a time of the clock.
* `WitnessPlugin.produced_iff` — when a block is produced, that is, signed and accepted.
* `ProducerNode`, `ProducerNode.never_produces_twice` — a node whose chain gets blocks from itself
  and from others produces no two blocks for one slot, whatever its clock says.
* `WitnessPlugin.Ready.producedBy`, `every_slot_filled` — nodes that hold the keys of all witnesses
  and have the same chain fill every slot.
-/

set_option autoImplicit false

namespace Graphene

open Transitions SlotWindow

variable {Key : Type} [DecidableEq Key]

/-! ## The plugin -/

/-- `witness_plugin`. -/
structure WitnessPlugin (Key : Type) where
  /-- `_witnesses`. -/
  witnesses : List WitnessId
  /-- The public keys that `_private_keys` has private ones for. -/
  privateKeys : List Key
  /-- `_production_enabled`. -/
  productionEnabled : Bool := false
  /-- `_required_witness_participation`. -/
  requiredWitnessParticipation : ℕ := 3300

/-- What a node brings to an attempt to produce a block. -/
structure Attempt (Key : Type) where
  /-- The `signing_key` of each witness, in the state with the pending transactions. -/
  pendingKey : WitnessId → Key
  /-- The hash of the block. -/
  hash : ℕ
  /-- What its transactions and the rest do: nothing, if the block is too large or they throw. -/
  outcome : Option (BlockOutcome Key)

/-- `block_production_condition_enum`, as far as it is returned. -/
inductive ProductionCondition (Key : Type) where
  /-- `produced`: the block, which is to be broadcast, and the chain with it. -/
  | produced (b : ProducedBlock Key) (chain : ProductionState Key)
  /-- `not_synced`. -/
  | notSynced
  /-- `not_my_turn`. -/
  | notMyTurn
  /-- `not_time_yet`. -/
  | notTimeYet
  /-- `no_private_key`. -/
  | noPrivateKey
  /-- `low_participation`. -/
  | lowParticipation
  /-- `lag`. -/
  | lag
  /-- `exception_producing_block`. -/
  | exceptionProducingBlock

/-- What was produced. -/
def ProductionCondition.block? :
    ProductionCondition Key → Option (ProducedBlock Key × ProductionState Key)
  | .produced b chain => some (b, chain)
  | _ => none

omit [DecidableEq Key] in
theorem ProductionCondition.block?_eq_some {c : ProductionCondition Key} {b : ProducedBlock Key}
    {chain : ProductionState Key} : c.block? = some (b, chain) ↔ c = .produced b chain := by
  cases c <;> simp [block?]

namespace ProductionState

variable (s : ProductionState Key) (a : Attempt Key)

/-- `_generate_block`: the block, and what pushing it makes of the chain. -/
def generateBlock (when : UInt32) (witness : WitnessId) (key : Key) :
    Option (ProducedBlock Key × ProductionState Key) :=
  let slotNum := s.schedule.slots.getSlotAtTime when
  if slotNum > 0 ∧ s.schedule.getScheduledWitness slotNum = some witness ∧
      a.pendingKey witness = key then
    let b : ProducedBlock Key := ⟨s.headBlockId, when, witness, key, a.hash⟩
    a.outcome.bind fun outcome ↦ (s.applyBlock (b, outcome)).map fun chain ↦ (b, chain)
  else none

variable {s a} {when : UInt32} {witness : WitnessId} {key : Key} {b : ProducedBlock Key}
  {chain : ProductionState Key}

theorem generateBlock_eq_some : s.generateBlock a when witness key = some (b, chain) ↔
    0 < s.schedule.slots.getSlotAtTime when ∧
      s.schedule.getScheduledWitness (s.schedule.slots.getSlotAtTime when) = some witness ∧
      a.pendingKey witness = key ∧ b = ⟨s.headBlockId, when, witness, key, a.hash⟩ ∧
      ∃ outcome ∈ a.outcome, s.applyBlock (b, outcome) = some chain := by
  simp only [generateBlock]
  split_ifs with h
  · simp only [Option.bind_eq_some_iff, Option.map_eq_some_iff, Prod.mk.injEq, Option.mem_def]
    constructor
    · rintro ⟨outcome, houtcome, chain', hchain, rfl, rfl⟩
      exact ⟨h.1, h.2.1, h.2.2, rfl, outcome, houtcome, hchain⟩
    · rintro ⟨-, -, -, rfl, outcome, houtcome, hchain⟩
      exact ⟨outcome, houtcome, chain, hchain, rfl, rfl⟩
  · simp only [false_iff]
    rintro ⟨hslot, hwitness, hkey, -⟩
    exact h ⟨hslot, hwitness, hkey⟩

end ProductionState

namespace WitnessPlugin

variable (p : WitnessPlugin Key) (s : ProductionState Key) (a : Attempt Key)

/-- The second that a time in microseconds is next to. -/
def nearestSecond (nowFine : ℕ) : UInt32 := ((nowFine + 500000) / 1000000).toUInt32

/-- `maybe_produce_block`. -/
def maybeProduceBlock (nowFine : ℕ) : WitnessPlugin Key × ProductionCondition Key :=
  let now := nearestSecond nowFine
  if !p.productionEnabled && s.schedule.slots.getSlotTime 1 < now then (p, .notSynced)
  else
    let p := { p with productionEnabled := true }
    let slot := s.schedule.slots.getSlotAtTime now
    if slot = 0 then (p, .notTimeYet)
    else
      match s.schedule.getScheduledWitness slot with
      | none => (p, .exceptionProducingBlock)
      | some scheduledWitness =>
        if scheduledWitness ∉ p.witnesses then (p, .notMyTurn)
        else
          let scheduledTime := s.schedule.slots.getSlotTime slot
          let scheduledKey := a.pendingKey scheduledWitness
          if scheduledKey ∉ p.privateKeys then (p, .noPrivateKey)
          else if s.witnessParticipationRate < p.requiredWitnessParticipation then
            (p, .lowParticipation)
          else if (((scheduledTime.toNat : ℤ) - now.toNat) * 1000000).natAbs > 500000 then (p, .lag)
          else
            match s.generateBlock a scheduledTime scheduledWitness scheduledKey with
            | some (b, chain) => (p, .produced b chain)
            | none => (p, .exceptionProducingBlock)

theorem one_le_of_ne_zero {n : UInt32} (hn : n ≠ 0) : 1 ≤ n :=
  UInt32.le_iff_toNat_le.2 (Nat.pos_of_ne_zero fun hzero ↦ hn (UInt32.toNat_inj.1 hzero))

theorem not_lag_iff {t now : UInt32} :
    ¬ (((t.toNat : ℤ) - now.toNat) * 1000000).natAbs > 500000 ↔ t = now := by
  rw [← UInt32.toNat_inj]
  omega

end WitnessPlugin

/-- The head block is before the first slot, also when there is none yet. -/
theorem SlotState.time_lt_getSlotTime {s : SlotState} (h : s.InEpoch 1) :
    s.time < s.getSlotTime 1 := by
  rw [UInt32.lt_iff_toNat_lt, toNat_getSlotTime h]
  by_cases hhead : s.headBlockNumber = 0
  · have := blockInterval_pos (s := s)
    simp [slotTime, base, skipped, hhead, this]
  · exact time_lt_slotTime hhead

namespace WitnessPlugin

variable {p p' : WitnessPlugin Key} {s : ProductionState Key} {a : Attempt Key} {nowFine : ℕ}
  {b : ProducedBlock Key} {chain : ProductionState Key}

/-- **When a block is produced**: a slot has come, to the second, that belongs to a witness of the
node, whose key it has, as the pending transactions leave it; there is enough participation; there
is no sign that the chain is behind; and the chain accepts the block. -/
theorem produced_iff (hepoch : s.schedule.slots.InEpoch 1) :
    (p.maybeProduceBlock s a nowFine).2 = .produced b chain ↔
      (p.productionEnabled = true ∨ nearestSecond nowFine ≤ s.schedule.slots.getSlotTime 1) ∧
      ∃ slot ≥ 1, s.schedule.slots.InEpoch slot ∧
        s.schedule.slots.getSlotTime slot = nearestSecond nowFine ∧
        ∃ w ∈ p.witnesses, s.schedule.getScheduledWitness slot = some w ∧
          a.pendingKey w ∈ p.privateKeys ∧
          p.requiredWitnessParticipation ≤ s.witnessParticipationRate ∧
          b = ⟨s.headBlockId, nearestSecond nowFine, w, a.pendingKey w, a.hash⟩ ∧
          ∃ outcome ∈ a.outcome, s.applyBlock (b, outcome) = some chain := by
  constructor
  · intro h
    simp only [maybeProduceBlock] at h
    split at h
    case isTrue => cases h
    case isFalse hsynced =>
      split at h
      case isTrue => cases h
      case isFalse hslot =>
        split at h
        case h_1 => cases h
        case h_2 w hw =>
          split_ifs at h with hmine hkey hrate hlag
          rw [not_lag_iff] at hlag
          split at h
          case h_2 => cases h
          case h_1 b' chain' hb' =>
            obtain ⟨rfl, rfl⟩ := ProductionCondition.produced.inj h
            obtain ⟨-, -, -, hblock, happlied⟩ := ProductionState.generateBlock_eq_some.1 hb'
            rw [hlag] at hblock
            refine ⟨?_, _, one_le_of_ne_zero hslot, ?_, hlag, w, hmine, hw, hkey,
              not_lt.1 hrate, hblock, happlied⟩
            · simpa [or_iff_not_imp_left] using hsynced
            · exact (SlotState.isGreatest_getSlotAtTime hepoch _).1.1
  · rintro ⟨hsynced, slot, hslot, hslotEpoch, htime, w, hmine, hw, hkey, hrate, hblock, happlied⟩
    have hat : s.schedule.slots.getSlotAtTime (nearestSecond nowFine) = slot := by
      rw [← htime]
      exact SlotState.getSlotAtTime_getSlotTime hslot hslotEpoch
    have hne : slot ≠ 0 := fun hzero ↦ absurd hslot (by simp [hzero])
    have hpos : 0 < slot := UInt32.pos_iff_ne_zero.2 hne
    have hgenerate : s.generateBlock a (nearestSecond nowFine) w (a.pendingKey w) =
        some (b, chain) :=
      ProductionState.generateBlock_eq_some.2
        ⟨hat ▸ hpos, hat ▸ hw, rfl, hblock, happlied⟩
    have hnotBehind : ¬ (!p.productionEnabled &&
        s.schedule.slots.getSlotTime 1 < nearestSecond nowFine) = true := by
      simpa [or_iff_not_imp_left] using hsynced
    simp only [maybeProduceBlock]
    rw [if_neg hnotBehind, hat, if_neg hne, hw]
    dsimp only
    rw [if_neg (not_not.2 hmine), if_neg (not_not.2 hkey), if_neg (not_lt.2 hrate),
      if_neg (not_lag_iff.2 htime), htime, hgenerate]

/-- The first slot is the earliest. -/
theorem getSlotTime_one_le {slots : SlotState} {slot : UInt32} (hslot : 1 ≤ slot)
    (h : slots.InEpoch slot) : slots.getSlotTime 1 ≤ slots.getSlotTime slot := by
  rw [UInt32.le_iff_toNat_le, SlotState.toNat_getSlotTime (SlotState.inEpoch_one hslot h),
    SlotState.toNat_getSlotTime h]
  exact SlotState.slotTime_mono Nat.one_pos (UInt32.le_iff_toNat_le.1 hslot)

/-- **What is produced is on the chain**: it has been validated like any other block, its time is
that of the clock and after that of the head block before, and it is signed with a key of the
node. -/
theorem produced_spec (hepoch : s.schedule.slots.InEpoch 1)
    (h : (p.maybeProduceBlock s a nowFine).2 = .produced b chain) :
    (∃ outcome ∈ a.outcome, s.applyBlock (b, outcome) = some chain) ∧
      s.schedule.slots.time < b.timestamp ∧ b.timestamp = nearestSecond nowFine ∧
      b.witness ∈ p.witnesses ∧ b.signee ∈ p.privateKeys := by
  obtain ⟨-, slot, hslot, hslotEpoch, htime, w, hmine, hw, hkey, -, rfl, happlied⟩ :=
    (produced_iff hepoch).1 h
  have hlate : s.schedule.slots.time < nearestSecond nowFine := by
    rw [← htime]
    exact UInt32.lt_of_lt_of_le (SlotState.time_lt_getSlotTime hepoch)
      (getSlotTime_one_le hslot hslotEpoch)
  exact ⟨happlied, hlate, rfl, hmine, hkey⟩

end WitnessPlugin

/-! ## A node -/

/-- A node that produces blocks. -/
structure ProducerNode (Key : Type) where
  /-- Its plugin. -/
  plugin : WitnessPlugin Key
  /-- The state of its chain. -/
  chain : ProductionState Key
  /-- The blocks of its chain, newest first. -/
  blocks : List (ProducedBlock Key) := []
  /-- The blocks it has produced, and so broadcast, newest first, and when. -/
  produced : List (ℕ × ProducedBlock Key) := []

/-- What happens to it. -/
inductive ProducerEvent (Key : Type) where
  /-- A block comes from the network, and its transactions throw or not. -/
  | pushBlock (b : ProducedBlock Key) (outcome : Option (BlockOutcome Key))
  /-- The production loop comes round, at a time of the clock. -/
  | blockProductionLoop (nowFine : ℕ) (a : Attempt Key)

namespace ProducerNode

/-- A block is put on the chain, unless it is refused. -/
def pushBlock (n : ProducerNode Key) (b : ProducedBlock Key)
    (outcome : Option (BlockOutcome Key)) : ProducerNode Key :=
  match outcome.bind fun o ↦ n.chain.applyBlock (b, o) with
  | some chain => { n with chain := chain, blocks := b :: n.blocks }
  | none => n

/-- All that can happen; forks are left out. -/
def step (n : ProducerNode Key) : ProducerEvent Key → Option (ProducerNode Key)
  | .pushBlock b outcome => some (n.pushBlock b outcome)
  | .blockProductionLoop nowFine a =>
    let (plugin, condition) := n.plugin.maybeProduceBlock n.chain a nowFine
    let n := { n with plugin := plugin }
    match condition with
    | .produced b chain =>
      some { n with
        chain := chain
        blocks := b :: n.blocks
        produced := (nowFine, b) :: n.produced }
    | _ => some n

/-- What a node has produced is on its chain, where times go up. -/
structure Orderly (n : ProducerNode Key) : Prop where
  /-- Times go up. -/
  ordered : (n.blocks.map ProducedBlock.timestamp).Pairwise (· > ·)
  /-- None is after the head block. -/
  bounded : ∀ b ∈ n.blocks, b.timestamp ≤ n.chain.schedule.slots.time
  /-- What has been produced is there. -/
  sublist : (n.produced.map Prod.snd).Sublist n.blocks
  /-- It is for the second at which it was produced. -/
  prompt : ∀ e ∈ n.produced, e.2.timestamp = WitnessPlugin.nearestSecond e.1
  /-- It is for a witness of the node. -/
  mine : ∀ e ∈ n.produced, e.2.witness ∈ n.plugin.witnesses

variable {n n' : ProducerNode Key} {b : ProducedBlock Key}

/-- The chain with one more block. -/
theorem Orderly.extend (hn : n.Orderly) {outcome : BlockOutcome Key} {chain : ProductionState Key}
    (h : n.chain.applyBlock (b, outcome) = some chain) :
    ((b :: n.blocks).map ProducedBlock.timestamp).Pairwise (· > ·) ∧
      ∀ c ∈ b :: n.blocks, c.timestamp ≤ chain.schedule.slots.time := by
  obtain ⟨hvalid, -, -, htime, -⟩ := ProductionState.applyBlock_spec h
  obtain ⟨-, hlate, -⟩ := ProductionState.validateBlockHeader_iff.1 hvalid
  have hbefore : ∀ c ∈ n.blocks, c.timestamp < b.timestamp := fun c hc ↦
    UInt32.lt_of_le_of_lt (hn.bounded c hc) hlate
  constructor
  · rw [List.map_cons, List.pairwise_cons]
    refine ⟨fun t ht ↦ ?_, hn.ordered⟩
    obtain ⟨c, hc, rfl⟩ := List.mem_map.1 ht
    exact hbefore c hc
  · intro c hc
    rw [htime]
    rcases List.mem_cons.1 hc with rfl | hc
    · exact UInt32.le_refl _
    · exact UInt32.le_of_lt (hbefore c hc)

theorem Orderly.pushBlock (hn : n.Orderly) {outcome : Option (BlockOutcome Key)} :
    (n.pushBlock b outcome).Orderly := by
  rw [ProducerNode.pushBlock]
  split
  case h_1 chain hchain =>
    obtain ⟨o, -, hchain⟩ := Option.bind_eq_some_iff.1 hchain
    obtain ⟨hordered, hbounded⟩ := hn.extend hchain
    exact ⟨hordered, hbounded, hn.sublist.cons b, hn.prompt, hn.mine⟩
  case h_2 => exact hn

/-- The witnesses of a node stay. -/
theorem maybeProduceBlock_witnesses (p : WitnessPlugin Key) (s : ProductionState Key)
    (a : Attempt Key) (nowFine : ℕ) :
    (p.maybeProduceBlock s a nowFine).1.witnesses = p.witnesses := by
  simp only [WitnessPlugin.maybeProduceBlock]
  repeat' split
  all_goals rfl

/-- **Whatever happens** keeps it. -/
theorem Orderly.step (hn : n.Orderly) (hepoch : n.chain.schedule.slots.InEpoch 1)
    {e : ProducerEvent Key} (h : n.step e = some n') : n'.Orderly := by
  cases e with
  | pushBlock b outcome =>
    obtain rfl := Option.some.inj h
    exact hn.pushBlock
  | blockProductionLoop nowFine a =>
    rw [ProducerNode.step] at h
    have hwitnesses := maybeProduceBlock_witnesses n.plugin n.chain a nowFine
    have hspec : ∀ b chain,
        (n.plugin.maybeProduceBlock n.chain a nowFine).2 = .produced b chain →
          (∃ outcome, n.chain.applyBlock (b, outcome) = some chain) ∧
            b.timestamp = WitnessPlugin.nearestSecond nowFine ∧ b.witness ∈ n.plugin.witnesses := by
      intro b chain hb
      obtain ⟨⟨outcome, -, hchain⟩, -, htime, hmine, -⟩ := WitnessPlugin.produced_spec hepoch hb
      exact ⟨⟨outcome, hchain⟩, htime, hmine⟩
    generalize n.plugin.maybeProduceBlock n.chain a nowFine = result at h hwitnesses hspec
    obtain ⟨plugin, condition⟩ := result
    have hkept : ∀ e ∈ n.produced, e.2.witness ∈ plugin.witnesses := fun e he ↦ by
      rw [hwitnesses]
      exact hn.mine e he
    cases condition with
    | produced b chain =>
      obtain ⟨⟨outcome, hchain⟩, htime, hmine⟩ := hspec b chain rfl
      obtain rfl := Option.some.inj h
      obtain ⟨hordered, hbounded⟩ := hn.extend hchain
      refine ⟨hordered, hbounded, hn.sublist.cons_cons b, fun e he ↦ ?_, fun e he ↦ ?_⟩
      · rcases List.mem_cons.1 he with rfl | he
        · exact htime
        · exact hn.prompt e he
      · rcases List.mem_cons.1 he with rfl | he
        · exact hwitnesses.symm ▸ hmine
        · exact hkept e he
    | notSynced | notMyTurn | notTimeYet | noPrivateKey | lowParticipation | lag
    | exceptionProducingBlock =>
      obtain rfl := Option.some.inj h
      exact ⟨hn.ordered, hn.bounded, hn.sublist, hn.prompt, hkept⟩

/-- **No slot is produced for twice**: whatever the clock of a node says, whatever is pending and
whatever blocks come from others, the blocks it produces are all on its own chain, each for the
second nearest to the clock and for a witness of its own, and no two of them have the same time; as
long as the next slot has a time of 32 bits and no block is taken off the chain. -/
theorem never_produces_twice (n₀ n : ProducerNode Key) (es : List (ProducerEvent Key))
    (hblocks : n₀.blocks = []) (hproduced : n₀.produced = [])
    (hepoch : Throughout step (fun n _ ↦ n.chain.schedule.slots.InEpoch 1) n₀ es)
    (h : applied step n₀ es = some n) :
    (n.produced.map Prod.snd).Sublist n.blocks ∧
      (n.blocks.map ProducedBlock.timestamp).Pairwise (· > ·) ∧
      (n.produced.map fun e ↦ e.2.timestamp).Pairwise (· > ·) ∧
      ∀ e ∈ n.produced, e.2.timestamp = WitnessPlugin.nearestSecond e.1 ∧
        e.2.witness ∈ n.plugin.witnesses := by
  have hstart : n₀.Orderly := by
    refine ⟨?_, ?_, ?_, ?_, ?_⟩ <;> simp [hblocks, hproduced]
  have hn : n.Orderly := hepoch.inv (P := fun _ ↦ True) (fun _ _ ↦ trivial)
    (fun _ _ _ hn _ hq hstep ↦ hn.step hq hstep) hstart h
  have htimes := hn.ordered.sublist (hn.sublist.map ProducedBlock.timestamp)
  rw [List.map_map] at htimes
  exact ⟨hn.sublist, hn.ordered, htimes, fun e he ↦ ⟨hn.prompt e he, hn.mine e he⟩⟩

/-- A node that has two keys, and one of the three witnesses. -/
def oneOfThree : ProducerNode ℕ where
  plugin := { witnesses := [4], privateKeys := [104, 204] }
  chain := atGenesis

/-- The rest of a block, which changes nothing. -/
def sameKeys : BlockOutcome ℕ := ⟨fun w ↦ w + 100, none⟩

/-- The clock stands still, and then goes back; in the first attempt a change of keys is pending,
and the block is refused. -/
def badClock : List (ProducerEvent ℕ) :=
  [.blockProductionLoop 1500000003400000 ⟨fun w ↦ w + 200, 76, some sameKeys⟩,
    .blockProductionLoop 1500000003400000 ⟨fun w ↦ w + 100, 77, some sameKeys⟩,
    .blockProductionLoop 1500000003400000 ⟨fun w ↦ w + 100, 78, some sameKeys⟩,
    .blockProductionLoop 1500000002600000 ⟨fun w ↦ w + 100, 79, some sameKeys⟩,
    .blockProductionLoop 1500000012000000 ⟨fun w ↦ w + 100, 80, some sameKeys⟩]

theorem never_produces_twice_badClock :
    ∃ n, applied step oneOfThree badClock = some n ∧ n.produced.length = 2 ∧
      (n.produced.map fun e ↦ e.2.timestamp).Pairwise (· > ·) := by
  have hsome : (applied step oneOfThree badClock).isSome := by decide +kernel
  have hlength : ((applied step oneOfThree badClock).map fun n ↦ n.produced.length) = some 2 := by
    decide +kernel
  obtain ⟨n, hn⟩ := Option.isSome_iff_exists.1 hsome
  obtain ⟨-, -, htimes, -⟩ := never_produces_twice oneOfThree n badClock rfl rfl
    (by decide +kernel) hn
  rw [hn] at hlength
  exact ⟨n, hn, Option.some.inj hlength, htimes⟩

end ProducerNode

/-! ## Nodes that fill every slot -/

namespace WitnessPlugin

/-- A slot that comes. -/
structure SlotEvent (Key : Type) where
  /-- The times at which the production loops of the nodes come round, each by its own clock. -/
  nowFine : ℕ → ℕ
  /-- What each node brings to it. -/
  attempt : ℕ → Attempt Key

/-- What one of the nodes produces. -/
def producedAt (s : ProductionState Key) (e : SlotEvent Key) (node : WitnessPlugin Key × ℕ) :
    Option (ProducedBlock Key × ProductionState Key) :=
  (node.1.maybeProduceBlock s (e.attempt node.2) (e.nowFine node.2)).2.block?

/-- The nodes, which all have the same chain, try to fill a slot; the first block produced is the
one that the others get. -/
def fillSlot (nodes : List (WitnessPlugin Key)) (s : ProductionState Key) (e : SlotEvent Key) :
    Option (ProductionState Key) :=
  (nodes.zipIdx.findSome? (producedAt s e)).map Prod.snd

/-- A node can produce the block of a witness: it has the witness, nothing is pending that changes
its key, it has the key, and its block is neither too large nor refused. -/
def Holds (s : ProductionState Key) (e : SlotEvent Key) (w : WitnessId)
    (node : WitnessPlugin Key × ℕ) : Prop :=
  w ∈ node.1.witnesses ∧ (e.attempt node.2).pendingKey w = s.signingKey w ∧
    s.signingKey w ∈ node.1.privateKeys ∧ (e.attempt node.2).outcome.isSome

/-- Nothing is in the way of the next slot. -/
structure Ready (nodes : List (WitnessPlugin Key)) (s : ProductionState Key) (e : SlotEvent Key) :
    Prop where
  /-- It has a time of 32 bits. -/
  epoch : s.schedule.slots.InEpoch 1
  /-- It is that time, by every clock. -/
  punctual : ∀ node ∈ nodes.zipIdx,
    nearestSecond (e.nowFine node.2) = s.schedule.slots.getSlotTime 1
  /-- There is a witness. -/
  nonempty : 0 < s.schedule.currentShuffledWitnesses.size
  /-- Every witness has a node that can produce its block. -/
  covered : ∀ w ∈ s.schedule.currentShuffledWitnesses, ∃ node ∈ nodes.zipIdx, Holds s e w node

variable {nodes : List (WitnessPlugin Key)} {s s' : ProductionState Key} {e : SlotEvent Key}

/-- A block that is produced for a slot whose time it is belongs to that slot. -/
theorem Ready.producedAt_spec (h : Ready nodes s e) {node : WitnessPlugin Key × ℕ}
    (hnode : node ∈ nodes.zipIdx) {b : ProducedBlock Key} {chain : ProductionState Key}
    (hb : producedAt s e node = some (b, chain)) :
    b.timestamp = s.schedule.slots.getSlotTime 1 ∧
      s.schedule.getScheduledWitness 1 = some b.witness ∧
      ∃ outcome, s.applyBlock (b, outcome) = some chain := by
  obtain ⟨-, slot, hslot, hslotEpoch, htime, w, -, hw, -, -, rfl, outcome, -, happlied⟩ :=
    (produced_iff h.epoch).1 (ProductionCondition.block?_eq_some.1 hb)
  have hone : slot = 1 := by
    rw [← SlotState.getSlotAtTime_getSlotTime hslot hslotEpoch, htime, h.punctual node hnode,
      SlotState.getSlotAtTime_getSlotTime (UInt32.le_refl 1) h.epoch]
  exact ⟨h.punctual node hnode, hone ▸ hw, outcome, happlied⟩

/-- A node that can produce the block of the witness of the slot does so. -/
theorem Ready.isSome_producedAt (h : Ready nodes s e) {w : WitnessId}
    (hw : s.schedule.getScheduledWitness 1 = some w) {node : WitnessPlugin Key × ℕ}
    (hnode : node ∈ nodes.zipIdx) (hholds : Holds s e w node)
    (hrate : node.1.requiredWitnessParticipation ≤ s.witnessParticipationRate) :
    (producedAt s e node).isSome := by
  obtain ⟨hmine, hpending, hkey, houtcome⟩ := hholds
  obtain ⟨outcome, houtcome⟩ := Option.isSome_iff_exists.1 houtcome
  have htime := h.punctual node hnode
  have hat : s.schedule.slots.getSlotAtTime (nearestSecond (e.nowFine node.2)) = 1 := by
    rw [htime, SlotState.getSlotAtTime_getSlotTime (UInt32.le_refl 1) h.epoch]
  let b : ProducedBlock Key := ⟨s.headBlockId, nearestSecond (e.nowFine node.2), w,
    (e.attempt node.2).pendingKey w, (e.attempt node.2).hash⟩
  have hvalid : s.validateBlockHeader b = true := by
    rw [ProductionState.validateBlockHeader_iff]
    refine ⟨rfl, ?_, hpending, ?_, ?_⟩
    · simpa [b, htime] using SlotState.time_lt_getSlotTime h.epoch
    · simp [b, hat]
    · simpa [b, hat] using hw
  obtain ⟨chain, hchain⟩ := Option.isSome_iff_exists.1
    (ProductionState.applyBlock_isSome (e := (b, outcome)) hvalid)
  have hproduced := (produced_iff h.epoch).2
    ⟨.inr (htime ▸ UInt32.le_refl _), 1, UInt32.le_refl 1, h.epoch, htime.symm, w, hmine, hw,
      hpending ▸ hkey, hrate, (rfl : b = _), outcome, houtcome, hchain⟩
  rw [producedAt, ProductionCondition.block?_eq_some.2 hproduced]
  rfl

/-- **The slot is filled**, and none is missed. -/
theorem Ready.fillSlot (h : Ready nodes s e)
    (hrate : ∀ p ∈ nodes, p.requiredWitnessParticipation ≤ s.witnessParticipationRate) :
    ∃ s', fillSlot nodes s e = some s' ∧ s'.totalMissed = s.totalMissed ∧
      s'.schedule.slots.currentAslot = s.schedule.slots.currentAslot + 1 ∧
      s'.recentSlotsFilled = shift s.recentSlotsFilled 0 := by
  obtain ⟨w, hw⟩ : ∃ w, s.schedule.getScheduledWitness 1 = some w := by
    rw [ScheduleState.getScheduledWitness]
    exact ⟨_, Array.getElem?_eq_getElem (Nat.mod_lt _ h.nonempty)⟩
  obtain ⟨node, hnode, hholds⟩ := h.covered w (Array.mem_of_getElem? hw)
  have hmem : node.1 ∈ nodes := List.fst_mem_of_mem_zipIdx hnode
  have hsome : (nodes.zipIdx.findSome? (producedAt s e)).isSome :=
    List.findSome?_isSome_iff.2 ⟨node, hnode, h.isSome_producedAt hw hnode hholds (hrate _ hmem)⟩
  obtain ⟨⟨b, s'⟩, hb⟩ := Option.isSome_iff_exists.1 hsome
  obtain ⟨first, hfirst, hproduced⟩ := List.exists_of_findSome?_eq_some hb
  obtain ⟨htime, -, outcome, hs'⟩ := h.producedAt_spec hfirst hproduced
  obtain ⟨-, -, -, -, haslot, hrecent, hmissed, -⟩ := ProductionState.applyBlock_spec hs'
  have hnone : s.schedule.slots.missedBlocks b.timestamp = 0 := by
    rw [SlotState.missedBlocks, htime,
      SlotState.getSlotAtTime_getSlotTime (UInt32.le_refl 1) h.epoch]
    rfl
  refine ⟨s', ?_, ?_, ?_, ?_⟩
  · simp [WitnessPlugin.fillSlot, hb]
  · simp [hmissed, ProductionState.countMissed, ProductionState.missedWitnesses, hnone,
      ScheduleState.scheduledFrom, List.reduceOption_nil]
  · simp [haslot, hnone]
  · simp [hrecent, hnone]

end WitnessPlugin

/-- **Every slot is filled**: if at the time of every slot its witness has a node that can produce
its block, and there is as much participation as the nodes ask for to begin with, then the nodes
fill one slot after the other.  No witness misses any, participation never falls, and is full after
128. -/
theorem every_slot_filled (nodes : List (WitnessPlugin Key)) (s : ProductionState Key)
    (es : List (WitnessPlugin.SlotEvent Key))
    (hready : Throughout (WitnessPlugin.fillSlot nodes) (WitnessPlugin.Ready nodes) s es)
    (hrate : ∀ p ∈ nodes, p.requiredWitnessParticipation ≤ s.witnessParticipationRate) :
    ∃ s', applied (WitnessPlugin.fillSlot nodes) s es = some s' ∧
      s'.totalMissed = s.totalMissed ∧
      s'.schedule.slots.currentAslot = s.schedule.slots.currentAslot + es.length.toUInt64 ∧
      s.witnessParticipationRate ≤ s'.witnessParticipationRate ∧
      (128 ≤ es.length → s'.witnessParticipationRate = 10000) := by
  have hrun : ∃ s', applied (WitnessPlugin.fillSlot nodes) s es = some s' ∧
      s'.totalMissed = s.totalMissed ∧
      s'.schedule.slots.currentAslot = s.schedule.slots.currentAslot + es.length.toUInt64 ∧
      s'.recentSlotsFilled = (shift · 0)^[es.length] s.recentSlotsFilled := by
    induction es generalizing s with
    | nil => exact ⟨s, rfl, rfl, by simp, rfl⟩
    | cons e es ih =>
      obtain ⟨s₁, hs₁, hmissed, haslot, hrecent⟩ := hready.1.fillSlot hrate
      have hgrows : s.witnessParticipationRate ≤ s₁.witnessParticipationRate := by
        rw [ProductionState.witnessParticipationRate, ProductionState.witnessParticipationRate,
          hrecent]
        exact Nat.div_le_div_right (Nat.mul_le_mul_left _ (popcount_le_shift _))
      obtain ⟨s', hs', hmissed', haslot', hrecent'⟩ := ih s₁ (hready.2 s₁ hs₁)
        fun p hp ↦ (hrate p hp).trans hgrows
      refine ⟨s', applied_cons.2 ⟨s₁, hs₁, hs'⟩, hmissed'.trans hmissed, ?_, ?_⟩
      · rw [haslot', haslot, List.length_cons, UInt64.add_assoc, UInt64.add_comm 1]
        simp
      · rw [hrecent', hrecent, List.length_cons, Function.iterate_succ_apply]
  obtain ⟨s', hs', hmissed, haslot, hrecent⟩ := hrun
  refine ⟨s', hs', hmissed, haslot, ?_, fun hlong ↦ ?_⟩
  · rw [ProductionState.witnessParticipationRate, ProductionState.witnessParticipationRate, hrecent]
    exact Nat.div_le_div_right (Nat.mul_le_mul_left _ (popcount_le_iterate_shift _ _))
  · rw [ProductionState.witnessParticipationRate, hrecent, iterate_shift_eq_allOnes hlong,
      popcount_allOnes]

/-! ## Two slots -/

namespace WitnessPlugin

instance (s : ProductionState Key) (e : SlotEvent Key) (w : WitnessId)
    (node : WitnessPlugin Key × ℕ) : Decidable (Holds s e w node) :=
  inferInstanceAs (Decidable (_ ∧ _ ∧ _ ∧ _))

instance (nodes : List (WitnessPlugin Key)) (s : ProductionState Key) (e : SlotEvent Key) :
    Decidable (Ready nodes s e) :=
  decidable_of_iff
    (s.schedule.slots.InEpoch 1 ∧
      (∀ node ∈ nodes.zipIdx,
        nearestSecond (e.nowFine node.2) = s.schedule.slots.getSlotTime 1) ∧
      0 < s.schedule.currentShuffledWitnesses.size ∧
      ∀ w ∈ s.schedule.currentShuffledWitnesses, ∃ node ∈ nodes.zipIdx, Holds s e w node)
    ⟨fun ⟨h₁, h₂, h₃, h₄⟩ ↦ ⟨h₁, h₂, h₃, h₄⟩, fun ⟨h₁, h₂, h₃, h₄⟩ ↦ ⟨h₁, h₂, h₃, h₄⟩⟩

end WitnessPlugin

/-- Two nodes with the keys of the three witnesses. -/
def twoNodes : List (WitnessPlugin ℕ) :=
  [{ witnesses := [4, 9], privateKeys := [104, 109] }, { witnesses := [5], privateKeys := [105] }]

/-- Two slots, with clocks that are off by less than half a second, each its own way; the two nodes
would make different blocks. -/
def twoSlots : List (WitnessPlugin.SlotEvent ℕ) :=
  [⟨fun node ↦ 1500000003400000 - 100000 * node,
      fun node ↦ ⟨fun w ↦ w + 100, 77 + node, some ProducerNode.sameKeys⟩⟩,
    ⟨fun node ↦ 1500000005600000 + 100000 * node,
      fun node ↦ ⟨fun w ↦ w + 100, 87 + node, some ProducerNode.sameKeys⟩⟩]

theorem every_slot_filled_twoSlots :
    ∃ s, applied (WitnessPlugin.fillSlot twoNodes) atGenesis twoSlots = some s ∧
      s.totalMissed = atGenesis.totalMissed ∧ s.schedule.slots.currentAslot = 2 := by
  obtain ⟨s, hs, hmissed, haslot, -⟩ :=
    every_slot_filled twoNodes atGenesis twoSlots (by decide +kernel) (by decide +kernel)
  exact ⟨s, hs, hmissed, haslot⟩

end Graphene
