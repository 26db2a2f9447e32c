import Graphene.Chain.BlockMap

/-!
# Replaying the block log

`reindex` starts from the genesis state and applies the blocks of the log, one height after the
other, until there is none at a height; what the log has above that is removed from it.  `open` has
started the fork database by then, with the last block that the log had at the time.

* `Database.reindex` — `database::reindex`, with the parts of `wipe` and `open` that it comes to.
* `dropAfter_spec` — the loop that removes blocks ends, and the log is cut off.
* `reindex_run` — what `reindex` does, whatever the log has.
* `Reindexed` — what is asked of it.
* `reindex_exact_iff` — it is what it does exactly when there is no gap in the log.

`P` has the checks that are left with what `reindex` skips.
-/

set_option autoImplicit false

namespace Graphene

open Throwing

variable {C : ChainTypes}

/-- `fork_database::reset`. -/
def ForkDatabase.reset (f : ForkDatabase C) : ForkDatabase C := { f with index := [], head := none }

/-- What `object_database::open` and `init_genesis` make of an empty directory. -/
structure Genesis (C : ChainTypes) where
  /-- The objects. -/
  objects : ObjectDatabase (ChainObject C)
  /-- There is no block yet. -/
  headBlockNum_eq : objects.indexes.headBlockNum = 0

namespace Database

variable (P : Protocol C) (G : Genesis C)

/-- `_undo_db.disable()` and `_undo_db.enable()`. -/
def setDisabled (d : Database C) (disabled : Bool) : Database C :=
  { d with objects := { d.objects with undoDb := { d.objects.undoDb with disabled } } }

/-- `wipe`, without the blocks, of a database that is not open: `close` finds no objects that would
tell it how far to rewind. -/
def wipe : DatabaseM C Unit :=
  modify fun d ↦ { d with forkDb := d.forkDb.reset, pendingTx := [], pendingTxSession := none }

/-- `open`, of a directory without objects. -/
def openWiped : DatabaseM C Unit := do
  modify fun d ↦ { d with objects := G.objects }
  let d ← get
  match d.blockIdToBlock.last with
  | none => return ()
  | some lastBlock =>
    modify fun d ↦ { d with forkDb := d.forkDb.startBlock lastBlock }
    if P.blockId lastBlock ≠ d.state.headBlockId ∧ d.state.headBlockNum ≠ 0 then throw ()

/-- The loop over the blocks after the gap at `i`, which are removed from the end of the log on. -/
def dropAfter (i : ℕ) : ℕ → DatabaseM C Unit
  | 0 => throw ()
  | fuel + 1 => do
    let d ← get
    match d.blockIdToBlock.lastId with
    | none => return ()
    | some lastId =>
      if lastId.num ≤ i then return ()
      else
        onLog (·.remove lastId)
        dropAfter i fuel

/-- The loop over the blocks, with `n` more rounds to go from the number `i` on. -/
def replayBlocks (fuel : ℕ) : ℕ → ℕ → DatabaseM C Unit
  | 0, _ => return ()
  | n + 1, i => do
    let d ← get
    match d.blockIdToBlock.fetchByNumber P i with
    | none => dropAfter i fuel
    | some b =>
      applyBlock P b
      replayBlocks fuel n (i + 1)

/-- `reindex`.  The loop that removes blocks has `fuel` rounds at most. -/
def reindex (fuel : ℕ) : DatabaseM C Unit := do
  wipe
  openWiped P G
  let d ← get
  match d.blockIdToBlock.last with
  | none => return ()
  | some lastBlock =>
    modify (·.setDisabled true)
    replayBlocks P fuel lastBlock.blockNum 1
    modify (·.setDisabled false)

/-- The node when `open` has returned. -/
def opened (d : Database C) : Database C :=
  let d := { d with
    forkDb := d.forkDb.reset, pendingTx := [], pendingTxSession := none, objects := G.objects }
  match d.blockIdToBlock.last with
  | none => d
  | some lastBlock => { d with forkDb := d.forkDb.startBlock lastBlock }

end Database

open Database

/-! ## The end of the log -/

section Log

variable {P : Protocol C} {ops : List (BlockOp C)} {m : BlockMap C} {log : BlockDatabase C}

theorem BlockMap.exists_of_greatest {e : BlockId C × SignedBlock C} (h : m.greatest = some e) :
    ∃ n, IsGreatest {k | k ∈ m} n ∧ m.lookup n = some e := by
  rw [greatest] at h
  split_ifs at h with hne
  exact ⟨_, ⟨Finmap.mem_keys.1 (m.keys.max'_mem hne),
    fun k hk ↦ m.keys.le_max' k (Finmap.mem_keys.2 hk)⟩, h⟩

theorem BlockMap.notMem_of_greatest (h : m.greatest = none) (n : ℕ) : n ∉ m := by
  intro hn
  have hne : m.keys.Nonempty := ⟨n, Finmap.mem_keys.2 hn⟩
  rw [greatest, dif_pos hne] at h
  exact Finmap.lookup_eq_none.1 h (Finmap.mem_keys.1 (m.keys.max'_mem hne))

/-- The last block of the log, by its number. -/
theorem LogOf.last_cases (h : LogOf P ops m log) :
    (log.last = none ∧ log.lastId = none ∧ ∀ n, n ∉ m) ∨
      ∃ b, IsGreatest {k | k ∈ m} b.blockNum ∧ m.lookup b.blockNum = some (P.blockId b, b) ∧
        log.last = some b ∧ log.lastId = some (P.blockId b) := by
  obtain ⟨hlast, hlastId⟩ := h.last_eq
  cases hgreatest : m.greatest with
  | none =>
    rw [hgreatest] at hlast hlastId
    exact .inl ⟨hlast, hlastId, BlockMap.notMem_of_greatest hgreatest⟩
  | some e =>
    rw [hgreatest] at hlast hlastId
    obtain ⟨n, hn, he⟩ := BlockMap.exists_of_greatest hgreatest
    obtain ⟨hid, hnum, -, -⟩ := h.lookup n e he
    subst hnum
    refine .inr ⟨e.2, hn, ?_, hlast, ?_⟩
    · rw [he, ← hid]
    · rw [hlastId, Option.map_some, hid]

/-- Removing a block that is there erases its number. -/
theorem LogOf.remove_of_lookup (h : LogOf P ops m log) {b : SignedBlock C}
    (hb : m.lookup b.blockNum = some (P.blockId b, b)) :
    ∃ log', log.remove (P.blockId b) = some log' ∧
      LogOf P (ops ++ [.remove (P.blockId b)]) (m.erase b.blockNum) log' := by
  obtain ⟨-, -, hentry, hlt⟩ := h.lookup _ _ hb
  have hnum : (P.blockId b).num = b.blockNum := rfl
  have hremove : log.remove (P.blockId b) = some { log with
      entries := Function.update log.entries b.blockNum ⟨none, P.blockId b⟩ } := by
    rw [BlockDatabase.remove, hnum, if_neg (Nat.not_le.2 hlt), if_pos hentry]
  have hlog := h.remove (P.blockId b)
  rw [BlockOp.onLog, hremove, BlockOp.onMap, hnum, hb, Option.any_some,
    if_pos (decide_eq_true rfl)] at hlog
  exact ⟨_, hremove, hlog⟩

/-- The log is cut off above the number `i`. -/
def CutOff (P : Protocol C) (i : ℕ) (m : BlockMap C) (log' : BlockDatabase C) : Prop :=
  ∃ ops' m', LogOf P ops' m' log' ∧ ∀ n, m'.lookup n = if n ≤ i then m.lookup n else none

/-- **The loop that removes blocks** ends, when it may go on for as many rounds as there are blocks,
and cuts the log off. -/
theorem dropAfter_spec {i : ℕ} (fuel : ℕ) : ∀ {ops : List (BlockOp C)} {m : BlockMap C}
    {d : Database C}, LogOf P ops m d.blockIdToBlock → m.keys.card < fuel →
      ∃ log', dropAfter i fuel d = .ok () { d with blockIdToBlock := log' } ∧
        CutOff P i m log' := by
  induction fuel with
  | zero => exact fun _ hfuel ↦ absurd hfuel (Nat.not_lt_zero _)
  | succ fuel ih =>
    intro ops m d h hfuel
    rw [dropAfter, bind_ok (get_apply d)]
    rcases h.last_cases with ⟨-, hnone, hempty⟩ | ⟨b, hgreatest, hb, -, hsome⟩
    · rw [hnone]
      refine ⟨d.blockIdToBlock, rfl, ops, m, h, fun n ↦ ?_⟩
      rw [Finmap.lookup_eq_none.2 (hempty n), ite_self]
    rw [hsome]
    dsimp only
    split_ifs with hle
    · refine ⟨d.blockIdToBlock, rfl, ops, m, h, fun n ↦ ?_⟩
      split_ifs with hn
      · rfl
      · exact Finmap.lookup_eq_none.2 fun hmem ↦ hn ((hgreatest.2 hmem).trans hle)
    · obtain ⟨log₁, hremove, h₁⟩ := h.remove_of_lookup hb
      have hmem : b.blockNum ∈ m := Finmap.mem_iff.2 ⟨_, hb⟩
      have hcard : (m.erase b.blockNum).keys.card < fuel := by
        rw [Finmap.keys_erase, Finset.card_erase_of_mem (Finmap.mem_keys.2 hmem)]
        have hpos : 0 < m.keys.card := Finset.card_pos.2 ⟨_, Finmap.mem_keys.2 hmem⟩
        omega
      have hstep : onLog (·.remove (P.blockId b)) d = .ok () { d with blockIdToBlock := log₁ } := by
        rw [onLog, hremove]
      obtain ⟨log', hdrop, ops', m', h', hlookup⟩ :=
        @ih _ _ { d with blockIdToBlock := log₁ } h₁ hcard
      rw [bind_ok hstep]
      refine ⟨log', hdrop, ops', m', h', fun n ↦ ?_⟩
      rw [hlookup]
      split_ifs with hn
      · have hne : n ≠ b.blockNum := fun heq ↦ hle (show b.blockNum ≤ i from heq ▸ hn)
        exact Finmap.lookup_erase_ne hne
      · rfl

end Log

/-! ## Applying the blocks -/

section Replay

variable {P : Protocol C}

/-- What applying a block leaves alone: the log, and a fork database with one block. -/
structure Database.StartedAt (log : BlockDatabase C) (item : ForkItem C) (d : Database C) :
    Prop where
  /-- The log. -/
  log_eq : d.blockIdToBlock = log
  /-- The head of the fork database. -/
  head_eq : d.forkDb.head = some item
  /-- Its blocks. -/
  index_eq : d.forkDb.index = [item]

variable {log : BlockDatabase C} {item : ForkItem C}

theorem run_startedAt (f : ChainState C → Script (ChainObject C)) :
    Preserves (StartedAt log item) (run f) := by
  intro d hd
  rw [run]
  split <;> exact ⟨hd.log_eq, hd.head_eq, hd.index_eq⟩

/-- The head block is never too old. -/
theorem Database.StartedAt.setMaxSize {d : Database C} (hd : d.StartedAt log item) (s : ℕ) :
    (d.setMaxSize s).StartedAt log item := by
  refine ⟨hd.log_eq, ?_, ?_⟩
  · show (d.forkDb.setMaxSize s).head = some item
    simp only [ForkDatabase.setMaxSize, hd.head_eq, ForkDatabase.prune]
  · show (d.forkDb.setMaxSize s).index = [item]
    rw [ForkDatabase.setMaxSize, hd.head_eq]
    show d.forkDb.index.filter _ = [item]
    rw [hd.index_eq, List.filter_singleton, decide_eq_true (Nat.sub_le _ _), cond_true]

theorem applyBlock_startedAt (b : SignedBlock C) :
    Preserves (StartedAt log item) (applyBlock P b) := by
  refine .bind (.get_bind fun d hd ↦ ?_) fun _ ↦ .get_bind fun d hd ↦ ?_
  · split_ifs
    · exact Preserves.bind (.forM fun tx _ ↦ run_startedAt _)
        (fun _ ↦ .bind (run_startedAt _) fun _ ↦ run_startedAt _) d hd
    · exact hd
  · split_ifs
    · exact Preserves.bind (.modify fun d hd ↦ hd.setMaxSize _)
        (fun _ ↦ .bind (run_startedAt _) fun _ ↦ .bind (run_startedAt _) fun _ ↦
          run_startedAt _) d hd
    · exact hd

/-- **The loop over the blocks** applies those that are there, one after the other. -/
theorem replayBlocks_run {ops : List (BlockOp C)} {m : BlockMap C} (hlog : LogOf P ops m log)
    (fuel : ℕ) {blocks : List (SignedBlock C)} : ∀ {n i : ℕ} {d d' : Database C},
      d.StartedAt log item → blocks.length ≤ n →
      (∀ j (h : j < blocks.length), (m.lookup (i + j)).map Prod.snd = some blocks[j]) →
      blocks.forM (applyBlock P) d = .ok () d' →
      d'.StartedAt log item ∧ replayBlocks P fuel n i d =
        replayBlocks P fuel (n - blocks.length) (i + blocks.length) d' := by
  induction blocks with
  | nil =>
    rintro n i d d' hd - - happly
    obtain rfl : d = d' := by cases happly; rfl
    exact ⟨hd, rfl⟩
  | cons b blocks ih =>
    intro n i d d' hd hle hblocks happly
    obtain ⟨n, rfl⟩ : ∃ k, n = k + 1 := ⟨n - 1, by simp at hle; omega⟩
    have hfetch : d.blockIdToBlock.fetchByNumber P i = some b := by
      rw [hd.log_eq, hlog.fetchByNumber_eq]
      exact hblocks 0 (by simp)
    change (applyBlock P b >>= fun _ ↦ blocks.forM (applyBlock P)) d = _ at happly
    rw [replayBlocks, bind_ok (get_apply d), hfetch]
    dsimp only
    cases hb : applyBlock P b d with
    | error e d₁ =>
      rw [bind_error hb] at happly
      cases happly
    | ok _ d₁ =>
      rw [bind_ok hb] at happly ⊢
      have hd₁ : d₁.StartedAt log item := by
        have hkeeps := applyBlock_startedAt (P := P) b d hd
        rwa [hb] at hkeeps
      obtain ⟨hd', heq⟩ := @ih n (i + 1) d₁ d' hd₁ (by simpa using hle) (fun j hj ↦ by
        have hget := hblocks (j + 1) (by simpa using hj)
        rw [List.getElem_cons_succ] at hget
        rwa [Nat.add_assoc, Nat.add_comm 1 j]) happly
      refine ⟨hd', heq.trans ?_⟩
      rw [List.length_cons, Nat.add_sub_add_right, Nat.add_assoc, Nat.add_comm 1]

end Replay

/-! ## The whole of it -/

section

variable {P : Protocol C} {G : Genesis C}

/-- The blocks that the log has from the first height on, up to a height at which it has none. -/
structure UpToGap (P : Protocol C) (m : BlockMap C) (blocks : List (SignedBlock C)) : Prop where
  /-- They are there. -/
  lookup : ∀ i (h : i < blocks.length), m.lookup (i + 1) = some (P.blockId blocks[i], blocks[i])
  /-- The next one is not. -/
  gap : m.lookup (blocks.length + 1) = none

/-- The id that the block after these builds on. -/
def tipOf (P : Protocol C) (blocks : List (SignedBlock C)) : BlockId C :=
  (blocks.getLast?.map P.blockId).getD (BlockId.zero C)

/-- **What is asked of `reindex`**: the objects are those that `applied` has, the log has the blocks
and nothing else, and the fork database goes on from the last one of them. -/
structure Reindexed (P : Protocol C) (blocks : List (SignedBlock C)) (applied d : Database C) :
    Prop where
  /-- The objects. -/
  state_eq : d.state = applied.state
  /-- The blocks of the log, by their numbers. -/
  fetchByNumber : ∀ n, d.blockIdToBlock.fetchByNumber P n = if n = 0 then none else blocks[n - 1]?
  /-- And by their ids. -/
  contains : ∀ id, d.blockIdToBlock.contains id = true ↔ ∃ b ∈ blocks, P.blockId b = id
  /-- The head of the fork database. -/
  head : d.forkDb.head.map ForkItem.data = blocks.getLast?
  /-- A block that builds on the last one becomes the head, and if it applies it is pushed. -/
  next : ∀ b, b.previous = tipOf P blocks →
    ∃ f, d.forkDb.pushBlock P b = some f ∧ f.head.map ForkItem.data = some b ∧
      ∀ d', applyAndStore P (P.blockId b) b { d with forkDb := f } = .ok () d' →
        _pushBlock P b d = .ok false d'

/-- What `open` comes to. -/
theorem openWiped_eq (d : Database C) :
    openWiped P G { d with
      forkDb := d.forkDb.reset, pendingTx := [], pendingTxSession := none } =
        .ok () (opened G d) := by
  rw [openWiped, bind_ok (modify_apply _ _), bind_ok (get_apply _), opened]
  cases hlast : d.blockIdToBlock.last with
  | none => rfl
  | some lastBlock =>
    dsimp only
    rw [bind_ok (modify_apply _ _), if_neg]
    · rfl
    · exact fun h ↦ h.2 G.headBlockNum_eq

theorem opened_log (d : Database C) : (opened G d).blockIdToBlock = d.blockIdToBlock := by
  rw [opened]
  dsimp only
  split <;> rfl

theorem opened_startedAt {d : Database C} {lastBlock : SignedBlock C}
    (h : d.blockIdToBlock.last = some lastBlock) :
    ((opened G d).setDisabled true).StartedAt d.blockIdToBlock
      { addr := d.forkDb.nextAddr, data := lastBlock } := by
  rw [opened]
  dsimp only
  rw [h]
  exact ⟨rfl, rfl, rfl⟩

/-- `reindex` of an empty log. -/
theorem reindex_empty (fuel : ℕ) {d : Database C} (h : d.blockIdToBlock.last = none) :
    reindex P G fuel d = .ok () (opened G d) := by
  rw [reindex, wipe, bind_ok (modify_apply _ _), bind_ok (openWiped_eq d), bind_ok (get_apply _),
    opened_log, h]
  rfl

/-- **What `reindex` does**: the blocks up to the first gap are applied, the rest of the log is cut
off, and the fork database has the block that was the last one of the log before. -/
theorem reindex_run {ops : List (BlockOp C)} {m : BlockMap C} {d applied : Database C}
    (hlog : LogOf P ops m d.blockIdToBlock) {blocks : List (SignedBlock C)}
    (hblocks : UpToGap P m blocks)
    (happly : blocks.forM (applyBlock P) ((opened G d).setDisabled true) = .ok () applied)
    {lastBlock : SignedBlock C} (hlast : d.blockIdToBlock.last = some lastBlock) {fuel : ℕ}
    (hfuel : m.keys.card < fuel) :
    ∃ log', reindex P G fuel d =
        .ok () ({ applied with blockIdToBlock := log' }.setDisabled false) ∧
      CutOff P (blocks.length + 1) m log' ∧
      applied.StartedAt d.blockIdToBlock { addr := d.forkDb.nextAddr, data := lastBlock } := by
  have hgreatest : IsGreatest {k | k ∈ m} lastBlock.blockNum := by
    rcases hlog.last_cases with ⟨hnone, -, -⟩ | ⟨b, hgreatest, -, hsome, -⟩
    · rw [hnone] at hlast
      cases hlast
    · rw [hsome] at hlast
      rwa [← Option.some.inj hlast]
  have hle : blocks.length ≤ lastBlock.blockNum := by
    rcases Nat.eq_zero_or_pos blocks.length with hzero | hpos
    · omega
    · have hmem := hblocks.lookup (blocks.length - 1) (by omega)
      rw [Nat.sub_add_cancel hpos] at hmem
      exact hgreatest.2 (Finmap.mem_iff.2 ⟨_, hmem⟩)
  obtain ⟨hstarted, hreplay⟩ := replayBlocks_run hlog fuel (opened_startedAt hlast) hle
    (fun j hj ↦ by rw [Nat.add_comm, hblocks.lookup j hj, Option.map_some]) happly
  have hlog' : LogOf P ops m applied.blockIdToBlock := hstarted.log_eq ▸ hlog
  have hrest : ∃ log', replayBlocks P fuel (lastBlock.blockNum - blocks.length)
      (1 + blocks.length) applied = .ok () { applied with blockIdToBlock := log' } ∧
        CutOff P (blocks.length + 1) m log' := by
    cases hn : lastBlock.blockNum - blocks.length with
    | zero =>
      refine ⟨applied.blockIdToBlock, rfl, ops, m, hlog', fun n ↦ ?_⟩
      split_ifs with hn'
      · rfl
      · refine Finmap.lookup_eq_none.2 fun hmem ↦ ?_
        have := hgreatest.2 hmem
        omega
    | succ n =>
      rw [replayBlocks, bind_ok (get_apply _), hlog'.fetchByNumber_eq, Nat.add_comm 1, hblocks.gap]
      exact dropAfter_spec fuel hlog' hfuel
  obtain ⟨log', hrest, hcut⟩ := hrest
  refine ⟨log', ?_, hcut, hstarted⟩
  rw [reindex, wipe, bind_ok (modify_apply _ _), bind_ok (openWiped_eq d), bind_ok (get_apply _),
    opened_log, hlast]
  dsimp only
  rw [bind_ok (modify_apply _ _), bind_ok (hreplay.trans hrest)]
  rfl

/-- What the log has when it is cut off at the first gap. -/
theorem UpToGap.lookup_cutOff {ops : List (BlockOp C)} {m : BlockMap C} {log : BlockDatabase C}
    (hlog : LogOf P ops m log) {blocks : List (SignedBlock C)} (h : UpToGap P m blocks) (n : ℕ) :
    (if n ≤ blocks.length + 1 then m.lookup n else none) =
      if n = 0 then none else blocks[n - 1]?.map fun b ↦ (P.blockId b, b) := by
  cases n with
  | zero =>
    rw [if_pos (Nat.zero_le _), if_pos rfl, Option.eq_none_iff_forall_ne_some]
    intro e he
    exact absurd (hlog.lookup 0 e he).2.1 (Nat.succ_ne_zero _)
  | succ n =>
    rw [if_neg (Nat.succ_ne_zero n), Nat.add_sub_cancel]
    rcases Nat.lt_trichotomy n blocks.length with hlt | rfl | hgt
    · rw [if_pos (by omega), h.lookup n hlt, List.getElem?_eq_getElem hlt, Option.map_some]
    · rw [if_pos le_rfl, h.gap, List.getElem?_eq_none le_rfl, Option.map_none]
    · rw [if_neg (by omega), List.getElem?_eq_none hgt.le, Option.map_none]

/-- **The log** that is cut off at the first gap has the blocks before it, and nothing else. -/
theorem CutOff.answers {ops : List (BlockOp C)} {m : BlockMap C} {log log' : BlockDatabase C}
    (hlog : LogOf P ops m log) {blocks : List (SignedBlock C)} (hblocks : UpToGap P m blocks)
    (h : CutOff P (blocks.length + 1) m log') :
    (∀ n, log'.fetchByNumber P n = if n = 0 then none else blocks[n - 1]?) ∧
      ∀ id, log'.contains id = true ↔ ∃ b ∈ blocks, P.blockId b = id := by
  obtain ⟨ops', m', hlog', hlookup⟩ := h
  have hm' (n : ℕ) : m'.lookup n =
      if n = 0 then none else blocks[n - 1]?.map fun b ↦ (P.blockId b, b) :=
    (hlookup n).trans (hblocks.lookup_cutOff hlog n)
  refine ⟨fun n ↦ ?_, fun id ↦ ?_⟩
  · rw [hlog'.fetchByNumber_eq, hm']
    split_ifs
    · rfl
    · rw [Option.map_map]
      exact congrFun Option.map_id _
  · rw [hlog'.contains_iff]
    constructor
    · rintro ⟨b, hb⟩
      rw [hm'] at hb
      split_ifs at hb
      obtain ⟨b', hget, heq⟩ := Option.map_eq_some_iff.1 hb
      exact ⟨b', List.mem_of_getElem? hget, (Prod.mk.inj heq).1⟩
    · rintro ⟨b, hb, rfl⟩
      obtain ⟨i, hi, rfl⟩ := List.getElem_of_mem hb
      obtain ⟨-, hnum, -, -⟩ := hlog.lookup _ _ (hblocks.lookup i hi)
      refine ⟨blocks[i], ?_⟩
      rw [show (P.blockId blocks[i]).num = i + 1 from hnum, hm', if_neg (Nat.succ_ne_zero i),
        Nat.add_sub_cancel, List.getElem?_eq_getElem hi, Option.map_some]

/-- The last of the blocks has the number of blocks that there are. -/
theorem UpToGap.blockNum_of_getLast {ops : List (BlockOp C)} {m : BlockMap C}
    {log : BlockDatabase C} (hlog : LogOf P ops m log) {blocks : List (SignedBlock C)}
    (h : UpToGap P m blocks) {b : SignedBlock C} (hb : blocks.getLast? = some b) :
    b.blockNum = blocks.length := by
  rw [List.getLast?_eq_getElem?] at hb
  obtain ⟨hlt, rfl⟩ := List.getElem?_eq_some_iff.1 hb
  obtain ⟨-, hnum, -, -⟩ := hlog.lookup _ _ (h.lookup _ hlt)
  exact hnum.trans (by omega)

/-! ## The next block -/

/-- A block that applies has passed the checks. -/
theorem checks_of_applyAndStore {id : BlockId C} {b : SignedBlock C} {d d' : Database C}
    (h : applyAndStore P id b d = .ok () d') : P.Checks d.state b := by
  by_contra hnot
  obtain ⟨d₁, s, hstart, hstate⟩ : ∃ d₁ s, startUndoSession d = .ok s d₁ ∧ d₁.state = d.state := by
    refine ⟨_, _, rfl, ?_⟩
    show d.objects.startUndoSession.1.indexes = d.objects.indexes
    rw [ObjectDatabase.startUndoSession]
    split <;> rfl
  have hbody : applyBlock P b d₁ = .error () d₁ := by
    rw [Database.applyBlock, applyUntilHead]
    refine bind_error ?_
    rw [bind_ok (get_apply _), if_neg (hstate ▸ hnot)]
    rfl
  rw [applyAndStore, inSession, bind_ok hstart, tryCatch_error (bind_error (bind_error hbody))] at h
  cases hdestroy : onObjects s.destroy d₁ with
  | ok _ d₂ =>
    rw [bind_ok hdestroy] at h
    cases h
  | error e d₂ =>
    rw [bind_error hdestroy] at h
    cases h

/-- A block that the fork database has made its head is pushed if it applies. -/
theorem pushBlock_of_head {d d' : Database C} {b : SignedBlock C} {f : ForkDatabase C}
    (hf : d.forkDb.pushBlock P b = some f) (hhead : f.head.map ForkItem.data = some b)
    (h : applyAndStore P (P.blockId b) b { d with forkDb := f } = .ok () d') :
    _pushBlock P b d = .ok false d' := by
  obtain ⟨newHead, hnew, hdata⟩ := Option.map_eq_some_iff.1 hhead
  have hpush : onForkDb (·.pushBlock P b) d = .ok () { d with forkDb := f } := by
    rw [onForkDb, hf]
  obtain ⟨-, hprevious, -⟩ := checks_of_applyAndStore h
  have hbuilds : ¬newHead.previousId ≠ Indexes.headBlockId (state { d with forkDb := f }) := by
    rw [not_not, ForkItem.previousId, hdata]
    exact hprevious.symm
  rw [_pushBlock, bind_ok hpush, bind_ok (get_apply _)]
  dsimp only
  rw [hnew]
  dsimp only
  rw [if_neg hbuilds, bind_ok (tryCatch_ok h)]
  rfl

/-- A block on top of the only block of the fork database becomes its head. -/
theorem Database.StartedAt.pushBlock {log : BlockDatabase C} {item : ForkItem C} {d : Database C}
    (h : d.StartedAt log item) (hvalid : item.invalid = false) {b : SignedBlock C}
    (hb : b.previous = P.itemId item) :
    ∃ f, d.forkDb.pushBlock P b = some f ∧ f.head.map ForkItem.data = some b := by
  have hnum : b.blockNum = item.num + 1 := by
    rw [SignedBlock.blockNum, hb]
    rfl
  have hfetch : d.forkDb.fetchBlock P (P.itemId item) = some item := by
    rw [ForkDatabase.fetchBlock, h.index_eq]
    exact List.find?_cons_of_pos (decide_eq_true rfl)
  have hne : P.itemId item ≠ BlockId.zero C := blockId_ne_zero item.data
  -- the item that it comes with, before it is linked
  have hnew : (⟨d.forkDb.nextAddr, none, false, b⟩ : ForkItem C).num >
      item.num - d.forkDb.maxSize := by
    show b.blockNum > _
    omega
  have hprevious :
      (⟨d.forkDb.nextAddr, none, false, b⟩ : ForkItem C).previousId = P.itemId item := hb
  have hlink : d.forkDb.link P b = some ⟨d.forkDb.nextAddr, some item.addr, false, b⟩ := by
    rw [ForkDatabase.link, h.head_eq]
    dsimp only
    rw [if_pos hnew, hprevious, if_pos hne, hfetch]
    dsimp only
    rw [hvalid]
    rfl
  have hhigher : (⟨d.forkDb.nextAddr, some item.addr, false, b⟩ : ForkItem C).num > item.num := by
    show b.blockNum > _
    omega
  rw [ForkDatabase.pushBlock, hlink, Option.map_some]
  refine ⟨_, rfl, ?_⟩
  rw [ForkDatabase.advance, ForkDatabase.insert]
  dsimp only
  rw [h.head_eq]
  dsimp only
  rw [if_pos hhigher]
  rfl

/-- The first block becomes the head of an empty fork database. -/
theorem ForkDatabase.pushBlock_of_head_none {f : ForkDatabase C} (h : f.head = none)
    (b : SignedBlock C) :
    ∃ f', f.pushBlock P b = some f' ∧ f'.head.map ForkItem.data = some b := by
  have hlink : f.link P b = some { addr := f.nextAddr, data := b } := by
    rw [ForkDatabase.link, h]
  rw [ForkDatabase.pushBlock, hlink, Option.map_some]
  refine ⟨_, rfl, ?_⟩
  rw [ForkDatabase.advance, ForkDatabase.insert]
  dsimp only
  rw [h]
  rfl

end

/-- **`reindex` handles a block log** exactly if it has no gap: if the blocks up to the first height
without one are all that it has. -/
theorem reindex_exact_iff (P : Protocol C) (G : Genesis C) (ops : List (BlockOp C))
    {d applied : Database C} (hlog : d.blockIdToBlock = logAfter P ops)
    {blocks : List (SignedBlock C)} (hblocks : UpToGap P (mapAfter P ops) blocks)
    (happly : blocks.forM (applyBlock P) ((opened G d).setDisabled true) = .ok () applied)
    {fuel : ℕ} (hfuel : (mapAfter P ops).keys.card < fuel) :
    (∃ d', reindex P G fuel d = .ok () d' ∧ Reindexed P blocks applied d') ↔
      ∀ n ∈ mapAfter P ops, n ≤ blocks.length := by
  have hof : LogOf P ops (mapAfter P ops) d.blockIdToBlock := hlog ▸ logOf_logAfter ops
  rcases hof.last_cases with ⟨hlast, -, hempty⟩ | ⟨b, hgreatest, hb, hlast, -⟩
  · -- nothing is there
    obtain rfl : blocks = [] := by
      refine List.eq_nil_iff_length_eq_zero.2 (Nat.eq_zero_of_not_pos fun hpos ↦ ?_)
      exact hempty 1 (Finmap.mem_iff.2 ⟨_, hblocks.lookup 0 hpos⟩)
    obtain rfl : (opened G d).setDisabled true = applied := by cases happly; rfl
    have hcut : CutOff P 1 (mapAfter P ops) (opened G d).blockIdToBlock := by
      rw [opened_log]
      refine ⟨ops, _, hof, fun n ↦ ?_⟩
      rw [Finmap.lookup_eq_none.2 (hempty n), ite_self]
    obtain ⟨hfetch, hcontains⟩ := CutOff.answers hof hblocks hcut
    have hhead : (opened G d).forkDb.head = none := by
      rw [opened]
      dsimp only
      rw [hlast]
      rfl
    refine iff_of_true ⟨opened G d, reindex_empty fuel hlast, rfl, hfetch, hcontains, ?_, ?_⟩
      fun n hn ↦ absurd hn (hempty n)
    · rw [hhead]
      rfl
    · intro b' _
      obtain ⟨f, hf, hnext⟩ := ForkDatabase.pushBlock_of_head_none hhead b'
      exact ⟨f, hf, hnext, fun d' ↦ pushBlock_of_head hf hnext⟩
  · obtain ⟨log', hrun, hcut, hstarted⟩ := reindex_run hof hblocks happly hlast hfuel
    obtain ⟨hfetch, hcontains⟩ := hcut.answers hof hblocks
    constructor
    · rintro ⟨d', hd', hreindexed⟩ n hn
      rw [hrun] at hd'
      cases hd'
      have hhead : applied.forkDb.head.map ForkItem.data = blocks.getLast? := hreindexed.head
      rw [hstarted.head_eq] at hhead
      rw [← hblocks.blockNum_of_getLast hof hhead.symm]
      exact hgreatest.2 hn
    · intro hgap
      have hlastBlock : blocks.getLast? = some b := by
        have hle := hgap _ hgreatest.1
        have hpos : 0 < blocks.length := (Nat.succ_pos _).trans_le hle
        have hlookup := hblocks.lookup (blocks.length - 1) (by omega)
        rw [Nat.sub_add_cancel hpos] at hlookup
        have heq : b.blockNum = blocks.length :=
          le_antisymm hle (hgreatest.2 (Finmap.mem_iff.2 ⟨_, hlookup⟩))
        rw [heq, hlookup] at hb
        rw [List.getLast?_eq_getElem?, List.getElem?_eq_getElem (by omega)]
        exact congrArg some (Prod.mk.inj (Option.some.inj hb)).2
      refine ⟨_, hrun, rfl, hfetch, hcontains, ?_, ?_⟩
      · show applied.forkDb.head.map ForkItem.data = blocks.getLast?
        rw [hstarted.head_eq, hlastBlock]
        rfl
      · intro b' hb'
        rw [tipOf, hlastBlock] at hb'
        obtain ⟨f, hf, hnext⟩ := hstarted.pushBlock rfl hb'
        exact ⟨f, hf, hnext, fun d' ↦ pushBlock_of_head hf hnext⟩

namespace Testnet

/-- What a new node of the small chain starts from. -/
def start : Genesis types := ⟨node.objects, rfl⟩

/-- A third block. -/
def a3 : SignedBlock types := block (protocol.blockId a2) 0 []

/-- The node before it has been opened, with what has been stored in and removed from its log. -/
def withLog (ops : List (BlockOp types)) : Database types :=
  { objects := start.objects, blockIdToBlock := logAfter protocol ops }

/-- The log of two blocks is replayed. -/
theorem reindex_two_blocks : ∃ applied, [a1, a2].forM (applyBlock protocol)
      ((opened start (withLog [.store a1, .store a2])).setDisabled true) = .ok () applied ∧
    ∃ d', reindex protocol start 3 (withLog [.store a1, .store a2]) = .ok () d' ∧
      Reindexed protocol [a1, a2] applied d' := by
  have hreturned : returned ([a1, a2].forM (applyBlock protocol)
      ((opened start (withLog [.store a1, .store a2])).setDisabled true)) = true := by
    decide +kernel
  have hblocks : UpToGap protocol (mapAfter protocol [.store a1, .store a2]) [a1, a2] := by
    refine ⟨fun i hi ↦ ?_, rfl⟩
    match i, hi with
    | 0, _ => rfl
    | 1, _ => rfl
  have hkeys : ∀ n ∈ (mapAfter protocol [.store a1, .store a2]).keys, n ≤ 2 := by decide
  refine ⟨_, eq_ok_of_returned hreturned, (reindex_exact_iff protocol start
    [.store a1, .store a2] rfl hblocks (eq_ok_of_returned hreturned) (by decide)).2 ?_⟩
  exact fun n hn ↦ hkeys n (Finmap.mem_keys.2 hn)

/-- The second of three blocks has been removed from the log.  The first one is applied and left in
the log, but the head of the fork database is the third one, and the second one does not link. -/
theorem reindex_gap : ∃ applied d', [a1].forM (applyBlock protocol)
      ((opened start (withLog [.store a1, .store a2, .store a3,
        .remove (protocol.blockId a2)])).setDisabled true) = .ok () applied ∧
    reindex protocol start 3 (withLog [.store a1, .store a2, .store a3,
        .remove (protocol.blockId a2)]) = .ok () d' ∧
    d'.forkDb.head.map ForkItem.data = some a3 ∧ d'.forkDb.pushBlock protocol a2 = none ∧
    ¬Reindexed protocol [a1] applied d' := by
  have happly : returned ([a1].forM (applyBlock protocol) ((opened start (withLog [.store a1,
      .store a2, .store a3, .remove (protocol.blockId a2)])).setDisabled true)) = true := by
    decide +kernel
  have hreindex : returned (reindex protocol start 3 (withLog [.store a1, .store a2, .store a3,
      .remove (protocol.blockId a2)])) = true := by
    decide +kernel
  have hhead : (exit (reindex protocol start 3 (withLog [.store a1, .store a2, .store a3,
      .remove (protocol.blockId a2)]))).forkDb.head.map ForkItem.data = some a3 := by
    decide +kernel
  have hlink : ((exit (reindex protocol start 3 (withLog [.store a1, .store a2, .store a3,
      .remove (protocol.blockId a2)]))).forkDb.pushBlock protocol a2).isNone = true := by
    decide +kernel
  refine ⟨_, _, eq_ok_of_returned happly, eq_ok_of_returned hreindex, hhead,
    Option.isNone_iff_eq_none.1 hlink, fun h ↦ ?_⟩
  exact absurd (hhead.symm.trans h.head) (by decide)

end Testnet

end Graphene
