import Graphene.Chain.BlockIds
import Graphene.Chain.ForkPoint
import Graphene.Chain.NonUndoable
import Graphene.Lib.Halving

/-!
# A synopsis of the chain

To find out where a peer's chain and its own part, a node sends a synopsis of the chain it believes
the peer to be on: the whole preferred chain, the preferred chain up to a reference point, or the
fork the reference point is on (`get_blockchain_synopsis`, `application.cpp`).

* `Database.getBlockIdsOnFork`, `getBlockchainSynopsis` — what is done, and how it fails.
* `Protocol.Linked` — blocks that build on one another.
* `Summarizes` — what is asked of a synopsis of such blocks.
* `halvingLoop_summarizes` — the loop collects one.
* `Database.Forks` — the blocks of a fork, and where it leaves the chain.
* `synopsis_well_formed` — the synopses of every node whose log agrees with its chain.
* `synopsis_below_non_undoable` — a synopsis may begin below the last block that cannot be undone.
-/

set_option autoImplicit false

namespace Graphene

variable {C : ChainTypes} {P : Protocol C} {g : ChainState C} {depth : ℕ}

/-- How `get_blockchain_synopsis` fails. -/
inductive SynopsisError where
  /-- `fetch_block_id` throws for the reference point. -/
  | keyNotFound
  /-- `fetch_branch_from` throws. -/
  | noForkHistory
  /-- `block_older_than_undo_history`. -/
  | blockOlderThanUndoHistory
  /-- The loop reads an id that is not there: `get_block_id_for_num` throws, or `fork_history` is
  read past its end. -/
  | missingId
  /-- The loop does not come to an end. -/
  | endless
deriving DecidableEq

/-- The variables of `get_blockchain_synopsis`. -/
structure SynopsisRange (C : ChainTypes) where
  /-- `low_block_num`. -/
  lowBlockNum : UInt32
  /-- `non_fork_high_block_num`. -/
  nonForkHighBlockNum : UInt32
  /-- `high_block_num`. -/
  highBlockNum : UInt32
  /-- `fork_history`, the first block of the fork first. -/
  forkHistory : List (BlockId C)

namespace Database

/-- `get_block_ids_on_fork`: the ids from the head of a fork down to the block both branches build
on. -/
def getBlockIdsOnFork (P : Protocol C) (d : Database C) (headOfFork : BlockId C) :
    Option (List (BlockId C)) := do
  let (first, second) ← d.forkDb.fetchBranchFrom P d.state.headBlockId headOfFork
  let back ← first.getLast?
  return second.map P.itemId ++ [back.previousId]

/-- What is summarized for a reference point; nothing if there are no blocks. -/
def synopsisRange (P : Protocol C) (d : Database C) (referencePoint : BlockId C) :
    Except SynopsisError (Option (SynopsisRange C)) :=
  let low := d.lastNonUndoableBlockNum
  if referencePoint ≠ BlockId.zero C then
    match d.isIncludedBlock referencePoint with
    | .error _ => .error .keyNotFound
    | .ok true =>
      let high := referencePoint.num.toUInt32
      .ok (some ⟨if high < low then high else low, high, high, []⟩)
    | .ok false =>
      match d.getBlockIdsOnFork P referencePoint with
      | none => .error .noForkHistory
      | some history =>
        let lastNonForkBlock := history.getLast?.getD (BlockId.zero C)
        let fork := history.dropLast.reverse
        let nonForkHigh :=
          if lastNonForkBlock = BlockId.zero C then 0 else lastNonForkBlock.num.toUInt32
        if nonForkHigh < low then .error .blockOlderThanUndoHistory
        else .ok (some ⟨low, nonForkHigh, nonForkHigh + fork.length.toUInt32, fork⟩)
  else
    let high := d.state.headBlockNum.toUInt32
    if high = 0 then .ok none else .ok (some ⟨low, high, high, []⟩)

/-- The id that goes into the synopsis for a number. -/
def synopsisId (d : Database C) (r : SynopsisRange C) (num : UInt32) : Option (BlockId C) :=
  if num ≤ r.nonForkHighBlockNum then d.getBlockIdForNum num.toNat
  else r.forkHistory[(num - r.nonForkHighBlockNum - 1).toNat]?

/-- What the loop appends to the synopsis for a number. -/
def readSynopsisId (d : Database C) (r : SynopsisRange C) (num : UInt32) :
    Except SynopsisError (List (BlockId C)) :=
  match d.synopsisId r num with
  | some id => .ok [id]
  | none => .error .missingId

/-- The loop, up to `high_block_num`; `true_high_block_num` is where the range ends. -/
def collectSynopsis (d : Database C) (r : SynopsisRange C) (trueHighBlockNum : UInt32) :
    Except SynopsisError (List (BlockId C)) :=
  halvingLoop (.error .endless) (d.readSynopsisId r) trueHighBlockNum r.highBlockNum (2 ^ 32)
    (if r.lowBlockNum = 0 then 1 else r.lowBlockNum)

/-- `get_blockchain_synopsis`. -/
def getBlockchainSynopsis (P : Protocol C) (d : Database C) (referencePoint : BlockId C)
    (numberOfBlocksAfterReferencePoint : UInt32) : Except SynopsisError (List (BlockId C)) := do
  match ← d.synopsisRange P referencePoint with
  | none => return []
  | some r => d.collectSynopsis r (r.highBlockNum + numberOfBlocksAfterReferencePoint)

end Database

/-! ## Blocks that build on one another -/

namespace Protocol

/-- The blocks, the newest first, build on one another and on the state `g`. -/
def Linked (P : Protocol C) (g : ChainState C) : List (SignedBlock C) → Prop
  | [] => True
  | b :: bs => b.previous = P.tip g bs ∧ P.Linked g bs

theorem chainIds_cons (b : SignedBlock C) (bs : List (SignedBlock C)) :
    P.chainIds (b :: bs) = P.chainIds bs ++ [P.blockId b] := by
  rw [chainIds, List.reverse_cons, List.map_append]
  rfl

@[simp] theorem length_chainIds (blocks : List (SignedBlock C)) :
    (P.chainIds blocks).length = blocks.length := by
  rw [chainIds, List.length_map, List.length_reverse]

theorem chainIds_append (above below : List (SignedBlock C)) :
    P.chainIds (above ++ below) = P.chainIds below ++ P.chainIds above := by
  rw [chainIds, List.reverse_append, List.map_append]
  rfl

theorem chainIds_drop (blocks : List (SignedBlock C)) {k : ℕ} (hk : k ≤ blocks.length) :
    P.chainIds (blocks.drop (blocks.length - k)) = (P.chainIds blocks).take k := by
  rw [chainIds, chainIds, List.reverse_drop, List.map_take, Nat.sub_sub_self hk]

theorem linked_of_stateAt (hg : Base g) {chain : List (SignedBlock C)} {ix : ChainState C}
    (h : P.stateAt g chain = some ix) : P.Linked g chain := by
  induction chain generalizing ix with
  | nil => trivial
  | cons b bs ih =>
    obtain ⟨ix₁, h₁, -⟩ := Option.bind_eq_some_iff.1 h
    exact ⟨(previous_eq_tip hg h).1, ih h₁⟩

theorem Linked.drop {blocks : List (SignedBlock C)} (h : P.Linked g blocks) (n : ℕ) :
    P.Linked g (blocks.drop n) := by
  induction n generalizing blocks with
  | zero => exact h
  | succ n ih =>
    cases blocks with
    | nil => trivial
    | cons b bs => exact ih h.2

/-- The number of the newest of them. -/
theorem Linked.num_tip {blocks : List (SignedBlock C)} (h : P.Linked g blocks)
    (hzero : g.headBlockId.num = 0) : (P.tip g blocks).num = blocks.length := by
  induction blocks with
  | nil => exact hzero
  | cons b bs ih =>
    change b.previous.num + 1 = bs.length + 1
    rw [h.1, ih h.2]

theorem Linked.consecutive {blocks : List (SignedBlock C)} (h : P.Linked g blocks)
    (hzero : g.headBlockId.num = 0) : Consecutive 1 ((P.chainIds blocks).map BlockId.num) := by
  induction blocks with
  | nil => exact Consecutive.nil 1
  | cons b bs ih =>
    have hnum := h.num_tip hzero
    rw [chainIds_cons, List.map_append, consecutive_append]
    refine ⟨ih h.2, ?_⟩
    rw [List.length_map, length_chainIds, List.map_singleton]
    refine consecutive_cons.2 ⟨?_, Consecutive.nil _⟩
    rw [Nat.add_comm]
    exact hnum

/-- The branch of a fork builds on what it is linked to. -/
theorem Linked.append_branch {f : ForkDatabase C} {tip : BlockId C} {branch : List (ForkItem C)}
    {blocks : List (SignedBlock C)} (h : P.Linked g blocks) (hbranch : f.IsBranch P tip branch)
    {back : ForkItem C} (hback : branch.getLast? = some back)
    (hprev : back.previousId = P.tip g blocks) :
    P.Linked g (branch.map ForkItem.data ++ blocks) := by
  obtain ⟨-, hchain, -⟩ := hbranch
  induction branch with
  | nil => cases hback
  | cons x xs ih =>
    cases xs with
    | nil =>
      obtain rfl := Option.some_inj.1 hback
      exact ⟨hprev, h⟩
    | cons y ys =>
      obtain ⟨hp, hrest⟩ := List.isChain_cons_cons.1 hchain
      exact ⟨hp.2.symm, ih (by rwa [List.getLast?_cons_cons] at hback) hrest⟩

end Protocol

/-! ## What a synopsis is -/

/-- **What is asked of a synopsis** of blocks that build on one another, from the block `low` on,
if `n` blocks come after them. -/
structure Summarizes (P : Protocol C) (g : ChainState C) (blocks : List (SignedBlock C))
    (low n : ℕ) (synopsis : List (BlockId C)) : Prop where
  /-- They are the blocks of one chain. -/
  linked : P.Linked g blocks
  /-- The ids are those of the blocks. -/
  sublist : synopsis.Sublist (P.chainIds blocks)
  /-- The numbers go up. -/
  increasing : (synopsis.map BlockId.num).Pairwise (· < ·)
  /-- The first one. -/
  head_eq : synopsis.head?.map BlockId.num = some low
  /-- There are logarithmically many. -/
  length_le : synopsis.length ≤ Nat.log2 (blocks.length + n + 1 - low) + 1
  /-- The last one is the newest block, if no blocks come after it. -/
  getLast_eq : n = 0 → synopsis.getLast? = some (P.tip g blocks)

/-- The id of a number. -/
def idOf (ids : List (BlockId C)) (x : ℕ) : BlockId C := (ids[x - 1]?).getD (BlockId.zero C)

section

variable {blocks : List (SignedBlock C)}

theorem getElem?_eq_idOf {ids : List (BlockId C)} {x : ℕ} (hpos : 1 ≤ x) (hle : x ≤ ids.length) :
    ids[x - 1]? = some (idOf ids x) := by
  rw [idOf, List.getElem?_eq_getElem (by omega), Option.getD_some]

theorem map_idOf_range (ids : List (BlockId C)) :
    (List.range' 1 ids.length).map (idOf ids) = ids := by
  refine List.ext_getElem (by simp) fun i hi hi' ↦ ?_
  rw [List.getElem_map, List.getElem_range', idOf, Nat.one_mul, Nat.add_sub_cancel_left,
    List.getElem?_eq_getElem hi', Option.getD_some]

theorem num_idOf (h : P.Linked g blocks) (hzero : g.headBlockId.num = 0) {x : ℕ} (hpos : 1 ≤ x)
    (hle : x ≤ blocks.length) : (idOf (P.chainIds blocks) x).num = x := by
  have hnum := consecutive_iff_getElem.1 (h.consecutive hzero) (x - 1) (by simp; omega)
  rw [List.getElem_map] at hnum
  rw [idOf, List.getElem?_eq_getElem (by simp; omega), Option.getD_some, hnum]
  omega

theorem idOf_length (hne : blocks ≠ []) :
    idOf (P.chainIds blocks) blocks.length = P.tip g blocks := by
  cases blocks with
  | nil => exact absurd rfl hne
  | cons b bs => simp [idOf, Protocol.chainIds_cons, Protocol.tip]

/-- The ids at numbers that go up are ids of the chain, in their order. -/
theorem map_idOf_sublist {ids : List (BlockId C)} {points : List ℕ}
    (hpoints : points.Pairwise (· < ·)) (hmem : ∀ x ∈ points, 1 ≤ x ∧ x ≤ ids.length) :
    (points.map (idOf ids)).Sublist ids := by
  have hnodup : points.Nodup := hpoints.imp fun h ↦ Nat.ne_of_lt h
  have hsub : points.Sublist (List.range' 1 ids.length) := by
    refine List.sublist_of_subperm_of_pairwise (List.subperm_of_subset hnodup fun x hx ↦ ?_)
      hpoints List.pairwise_lt_range'
    obtain ⟨hpos, hle⟩ := hmem x hx
    rw [List.mem_range'_1]
    omega
  have hmap := hsub.map (idOf ids)
  rwa [map_idOf_range] at hmap

/-- **The ids at the places of the loop** are a synopsis. -/
theorem summarizes_halvingPoints (h : P.Linked g blocks) (hzero : g.headBlockId.num = 0)
    {low : ℕ} (n : ℕ) (hpos : 1 ≤ low) (hle : low ≤ blocks.length) :
    Summarizes P g blocks low n
      (((halvingPoints (blocks.length + n) low).filter (· ≤ blocks.length)).map
        (idOf (P.chainIds blocks))) := by
  have hmem : ∀ x ∈ (halvingPoints (blocks.length + n) low).filter (· ≤ blocks.length),
      1 ≤ x ∧ x ≤ (P.chainIds blocks).length := by
    intro x hx
    obtain ⟨hpoint, hbound⟩ := List.mem_filter.1 hx
    rw [P.length_chainIds]
    exact ⟨hpos.trans (mem_halvingPoints hpoint).1, of_decide_eq_true hbound⟩
  have hpairwise := (halvingPoints_pairwise (blocks.length + n) low).filter (· ≤ blocks.length)
  refine ⟨h, map_idOf_sublist hpairwise hmem, ?_, ?_, ?_, ?_⟩
  · have hnums : (((halvingPoints (blocks.length + n) low).filter (· ≤ blocks.length)).map
        (idOf (P.chainIds blocks))).map BlockId.num =
          (halvingPoints (blocks.length + n) low).filter (· ≤ blocks.length) := by
      rw [List.map_map]
      refine (List.map_congr_left fun x hx ↦ ?_).trans (List.map_id _)
      obtain ⟨hx, hxle⟩ := hmem x hx
      exact num_idOf h hzero hx (by rwa [P.length_chainIds] at hxle)
    rw [hnums]
    exact hpairwise
  · rw [halvingPoints_of_le (by omega), List.filter_cons_of_pos (by simpa using hle), List.map_cons,
      List.head?_cons, Option.map_some, num_idOf h hzero hpos hle]
  · rw [List.length_map, ← length_halvingPoints (by omega)]
    exact List.length_filter_le _ _
  · rintro rfl
    rw [Nat.add_zero, List.getLast?_map, getLast?_filter_halvingPoints hle (by simp),
      Option.map_some, idOf_length]
    rintro rfl
    rw [List.length_nil] at hle
    omega

end

/-! ## The loop -/

namespace Database

variable {d : Database C} {blocks : List (SignedBlock C)}

/-- What the loop reads are the ids of the blocks. -/
structure Reads (P : Protocol C) (d : Database C) (r : SynopsisRange C)
    (blocks : List (SignedBlock C)) : Prop where
  /-- It goes up to the newest of them. -/
  high_eq : r.highBlockNum.toNat = blocks.length
  /-- The id of each number. -/
  synopsisId_eq : ∀ x, 1 ≤ x → x ≤ blocks.length →
    d.synopsisId r (UInt32.ofNat x) = (P.chainIds blocks)[x - 1]?

/-- **The loop collects a synopsis.** -/
theorem Reads.getBlockchainSynopsis {r : SynopsisRange C} (h : d.Reads P r blocks)
    {ref : BlockId C} (hrange : d.synopsisRange P ref = .ok (some r))
    (hlinked : P.Linked g blocks) (hzero : g.headBlockId.num = 0)
    (hlow : r.lowBlockNum.toNat ≤ blocks.length) (hne : blocks ≠ []) {n : ℕ}
    (hn : blocks.length + n + 1 < 2 ^ 32) :
    ∃ synopsis, d.getBlockchainSynopsis P ref (UInt32.ofNat n) = .ok synopsis ∧
      Summarizes P g blocks (max 1 r.lowBlockNum.toNat) n synopsis := by
  have hpos := List.length_pos_of_ne_nil hne
  have hhigh := h.high_eq
  obtain ⟨low, hlow_eq, hlow'⟩ : ∃ low : UInt32,
      (if r.lowBlockNum = 0 then 1 else r.lowBlockNum) = low ∧
        low.toNat = max 1 r.lowBlockNum.toNat := by
    refine ⟨_, rfl, ?_⟩
    split_ifs with h0
    · rw [h0]
      rfl
    · have hne0 : r.lowBlockNum.toNat ≠ 0 := fun h ↦ h0 (UInt32.toNat_inj.1 h)
      omega
  have hlast : (r.highBlockNum + UInt32.ofNat n).toNat = blocks.length + n := by
    rw [UInt32.toNat_add, h.high_eq, UInt32.toNat_ofNat_of_lt' (by omega : n < 2 ^ 32)]
    exact Nat.mod_eq_of_lt (by omega)
  have hloop : halvingLoop (.error .endless) (d.readSynopsisId r)
      (r.highBlockNum + UInt32.ofNat n) r.highBlockNum (2 ^ 32) low =
        pure (((halvingPoints (r.highBlockNum + UInt32.ofNat n).toNat low.toNat).filter
          (· ≤ r.highBlockNum.toNat)).flatMap fun x ↦ [idOf (P.chainIds blocks) x]) := by
    refine halvingLoop_eq (by omega) ?_ ?_ (by omega) (by omega) fun x hx hle ↦ ?_
    · rw [UInt32.le_iff_toNat_le]
      omega
    · rw [UInt32.le_iff_toNat_le]
      omega
    · have hxlow := (mem_halvingPoints hx).1
      rw [hhigh] at hle
      rw [readSynopsisId, h.synopsisId_eq x (by omega) hle, getElem?_eq_idOf (by omega)
        (by rwa [P.length_chainIds])]
      rfl
  rw [hlast, hhigh, ← List.map_eq_flatMap] at hloop
  rw [← hlow']
  refine ⟨_, ?_, summarizes_halvingPoints hlinked hzero n (by omega) (by omega)⟩
  rw [Database.getBlockchainSynopsis, hrange]
  change d.collectSynopsis r _ = _
  rw [collectSynopsis, hlow_eq, hloop]
  rfl

/-- The ids of the first `k` blocks of a chain and of a fork that builds on them are read. -/
theorem HasIds.reads {chain fork : List (SignedBlock C)} (h : d.HasIds P (P.chainIds chain))
    {r : SynopsisRange C} {k : ℕ} (hk : k ≤ chain.length)
    (hnonFork : r.nonForkHighBlockNum.toNat = k)
    (hhigh : r.highBlockNum.toNat = k + fork.length) (hhistory : r.forkHistory = P.chainIds fork) :
    d.Reads P r (fork ++ chain.drop (chain.length - k)) := by
  have hlen : (fork ++ chain.drop (chain.length - k)).length = k + fork.length := by
    rw [List.length_append, List.length_drop]
    omega
  refine ⟨by rw [hhigh, hlen], fun x hpos hle ↦ ?_⟩
  rw [hlen] at hle
  have hlt := UInt32.toNat_lt r.highBlockNum
  have hx : (UInt32.ofNat x).toNat = x := UInt32.toNat_ofNat_of_lt' (by omega : x < 2 ^ 32)
  have hlow : ((P.chainIds chain).take k).length = k := by
    rw [List.length_take, P.length_chainIds]
    omega
  have hwhich : UInt32.ofNat x ≤ r.nonForkHighBlockNum ↔ x ≤ k := by
    rw [UInt32.le_iff_toNat_le, hx, hnonFork]
  rw [synopsisId, hx, P.chainIds_append, P.chainIds_drop _ hk]
  split_ifs with hxk <;> rw [hwhich] at hxk
  · obtain ⟨i, rfl⟩ : ∃ i, x = i + 1 := ⟨x - 1, by omega⟩
    have hi : i < (P.chainIds chain).length := by
      rw [P.length_chainIds]
      omega
    have hread := (h.read _ (List.getElem_mem hi)).1
    rw [h.num_getElem hi, Nat.add_comm] at hread
    rw [hread, Nat.add_sub_cancel, List.getElem?_append_left (by omega),
      List.getElem?_take_of_lt (by omega), List.getElem?_eq_getElem hi]
  · have hindex : (UInt32.ofNat x - r.nonForkHighBlockNum - 1).toNat = x - 1 - k := by
      have hle₁ : r.nonForkHighBlockNum ≤ UInt32.ofNat x := by
        rw [UInt32.le_iff_toNat_le]
        omega
      have hsub : (UInt32.ofNat x - r.nonForkHighBlockNum).toNat = x - k := by
        rw [UInt32.toNat_sub_of_le _ _ hle₁, hx, hnonFork]
      rw [UInt32.toNat_sub_of_le, hsub]
      · change x - k - 1 = x - 1 - k
        omega
      · rw [UInt32.le_iff_toNat_le, hsub]
        change 1 ≤ x - k
        omega
    rw [hindex, hhistory, List.getElem?_append_right (by omega), hlow]

/-- The ids of the first `k` blocks of a chain are read. -/
theorem HasIds.reads_chain {chain : List (SignedBlock C)} (h : d.HasIds P (P.chainIds chain))
    (low : UInt32) {high : UInt32} (hhigh : high.toNat ≤ chain.length) :
    d.Reads P ⟨low, high, high, []⟩ (chain.drop (chain.length - high.toNat)) :=
  @reads C P d chain [] h ⟨low, high, high, []⟩ high.toNat hhigh rfl rfl rfl

end Database

/-! ## Forks -/

/-- The fork database finds two blocks with the same parent, going down from the head and from the
block. -/
def Database.Connected (P : Protocol C) (d : Database C) (y : ForkItem C) : Prop :=
  ∃ x a b, d.forkDb.fetchBlock P d.state.headBlockId = some x ∧ d.forkDb.LeadsTo x a ∧
    d.forkDb.LeadsTo y b ∧ a.previousId = b.previousId

/-- The blocks of a fork up to `ref`, the newest first, which builds on the first `k` blocks of the
chain. -/
structure Protocol.Forks (P : Protocol C) (g : ChainState C) (chain : List (SignedBlock C))
    (ref : BlockId C) (fork : List (SignedBlock C)) (k : ℕ) : Prop where
  /-- It leaves the chain at one of its blocks, or before the first. -/
  le : k ≤ chain.length
  /-- The blocks build on one another. -/
  linked : P.Linked g (fork ++ chain.drop (chain.length - k))
  /-- The newest of them. -/
  head_eq : fork.head?.map P.blockId = some ref
  /-- None of them is on the chain. -/
  notMem : ∀ b ∈ fork, P.blockId b ∉ P.chainIds chain

section

variable {d : Database C} {chain : List (SignedBlock C)} {ref : BlockId C}

/-- How far down a branch goes. -/
theorem ForkDatabase.IsBranch.num_getLast {f : ForkDatabase C} {tip : BlockId C}
    {branch : List (ForkItem C)} (h : f.IsBranch P tip branch) {back : ForkItem C}
    (hback : branch.getLast? = some back) :
    back.num + branch.length = tip.num + 1 ∧ ∀ x ∈ branch, back.num ≤ x.num := by
  obtain ⟨hhead, hchain, -⟩ := h
  induction branch generalizing tip with
  | nil => cases hback
  | cons x xs ih =>
    have hx : x.num = tip.num := congrArg BlockId.num (Option.some_inj.1 hhead)
    cases xs with
    | nil =>
      obtain rfl : x = back := Option.some_inj.1 hback
      exact ⟨by rw [hx]; rfl, by simp⟩
    | cons y ys =>
      obtain ⟨hp, hrest⟩ := List.isChain_cons_cons.1 hchain
      obtain ⟨hnum, hge⟩ := @ih (P.itemId y) (by rwa [List.getLast?_cons_cons] at hback)
        rfl hrest
      have hxy := hp.num_eq
      have hy : (P.itemId y).num = y.num := rfl
      have hyge := hge y List.mem_cons_self
      rw [List.length_cons]
      exact ⟨by omega, List.forall_mem_cons.2 ⟨by omega, hge⟩⟩

/-- **The history of a fork**, if its newest block is not above the head. -/
theorem Database.HasIds.getBlockIdsOnFork (h : d.HasIds P (P.chainIds chain)) (hg : Base g)
    (hzero : g.headBlockId.num = 0) {ix : ChainState C} (hix : P.stateAt g chain = some ix)
    (htip : d.state.headBlockId = P.tip g chain) (hwf : d.forkDb.WF P) {x y : ForkItem C}
    (hx : d.forkDb.fetchBlock P d.state.headBlockId = some x)
    (hy : d.forkDb.fetchBlock P ref = some y) (hnot : ref ∉ P.chainIds chain)
    (hle : ref.num ≤ chain.length) {first second : List (ForkItem C)}
    (hfetch : d.forkDb.fetchBranchFrom P d.state.headBlockId ref = some (first, second)) :
    ∃ fork k, P.Forks g chain ref fork k ∧ k + fork.length = ref.num ∧
      d.getBlockIdsOnFork P ref =
        some (fork.map P.blockId ++ [P.tip g (chain.drop (chain.length - k))]) := by
  obtain ⟨hfirst, hsecond, hlast⟩ := hwf.fetchBranchFrom_spec hfetch
  obtain ⟨-, back, -, hback, -⟩ := hfirst.ends
  obtain ⟨-, back', -, hback', -⟩ := hsecond.ends
  have hprev : back'.previousId = back.previousId := by
    rw [hback, hback'] at hlast
    exact (Option.some_inj.1 hlast).symm
  have hlinked := Protocol.linked_of_stateAt hg hix
  -- how far the branches go down
  obtain ⟨hcount, -⟩ := hfirst.num_getLast hback
  obtain ⟨hcount', hge⟩ := hsecond.num_getLast hback'
  rw [htip, hlinked.num_tip hzero] at hcount
  have hbacknum : back.num = back.previousId.num + 1 := rfl
  have hbacknum' : back'.num = back'.previousId.num + 1 := rfl
  have hshort : first.length ≤ chain.length := by omega
  have hbranch : d.forkDb.IsBranch P (P.tip g chain) first := htip ▸ hfirst
  have hbase := branch_base hg hix hbranch hshort hback
  have hids := branch_ids hg hix hbranch hshort
  have hlinked' := hlinked.drop first.length
  have hbasenum := hlinked'.num_tip hzero
  rw [List.length_drop] at hbasenum
  rw [← hprev] at hbase
  have hsub : chain.length - (chain.length - first.length) = first.length := by omega
  refine ⟨second.map ForkItem.data, chain.length - first.length,
    ⟨Nat.sub_le _ _, ?_, ?_, ?_⟩, ?_, ?_⟩
  · rw [hsub]
    exact hlinked'.append_branch hsecond hback' hbase
  · rw [List.head?_map, Option.map_map]
    exact hsecond.head_eq
  · -- a block that is on the chain as well would be the one that was asked for
    intro b hb hmem
    obtain ⟨z, hz, rfl⟩ := List.mem_map.1 hb
    have hzle : z.num ≤ ref.num := hsecond.num_le z hz
    have hzge := hge z hz
    obtain ⟨w, hw, hid⟩ : ∃ w ∈ first, P.itemId w = P.itemId z := by
      have hat := h.getElem?_num hmem
      have hnum : (P.blockId z.data).num = z.num := rfl
      rw [hbase] at hbacknum'
      rw [hnum, Protocol.chainIds, List.getElem?_map, List.getElem?_reverse (by omega),
        ← List.getElem?_take_of_lt (by omega : chain.length - 1 - (z.num - 1) < first.length),
        ← List.getElem?_map, ← hids] at hat
      exact List.mem_map.1 (List.mem_of_getElem? hat)
    obtain ⟨-, -, -, hlow⟩ := hwf.shared_of_fetchBranchFrom hx hy hfetch hw hz hid
    have hxnum : x.num = chain.length := by
      have hxid := congrArg BlockId.num (ForkDatabase.fetchBlock_eq_some hx).2
      rw [htip, hlinked.num_tip hzero] at hxid
      exact hxid
    have hyid := (ForkDatabase.fetchBlock_eq_some hy).2
    have hynum : y.num = ref.num := congrArg BlockId.num hyid
    obtain ⟨rfl, -⟩ := hlow (by omega)
    exact hnot (hyid ▸ hmem)
  · rw [List.length_map]
    rw [hbase] at hbacknum'
    omega
  · rw [Database.getBlockIdsOnFork, hfetch]
    simp only [Option.bind_eq_bind, Option.bind_some, hback, hsub, ← hprev, hbase, List.map_map]
    rfl

theorem Database.synopsisRange_zero :
    d.synopsisRange P (BlockId.zero C) = if d.state.headBlockNum.toUInt32 = 0 then .ok none
      else .ok (some ⟨d.lastNonUndoableBlockNum, d.state.headBlockNum.toUInt32,
        d.state.headBlockNum.toUInt32, []⟩) :=
  if_neg (not_not.2 rfl)

theorem Database.synopsisRange_of_included (hne : ref ≠ BlockId.zero C)
    (hincluded : d.isIncludedBlock ref = .ok true) :
    d.synopsisRange P ref = .ok (some
      ⟨if ref.num.toUInt32 < d.lastNonUndoableBlockNum then ref.num.toUInt32
        else d.lastNonUndoableBlockNum, ref.num.toUInt32, ref.num.toUInt32, []⟩) := by
  rw [synopsisRange, if_pos hne, hincluded]

theorem Database.synopsisRange_of_noHistory (hne : ref ≠ BlockId.zero C)
    (hincluded : d.isIncludedBlock ref = .ok false) (hnone : d.getBlockIdsOnFork P ref = none) :
    d.synopsisRange P ref = .error .noForkHistory := by
  rw [synopsisRange, if_pos hne, hincluded, hnone]

/-- With the history of a fork that builds on `base`. -/
theorem Database.synopsisRange_of_fork (hne : ref ≠ BlockId.zero C)
    (hincluded : d.isIncludedBlock ref = .ok false) {fork : List (SignedBlock C)} {base : BlockId C}
    (hhistory : d.getBlockIdsOnFork P ref = some (fork.map P.blockId ++ [base])) :
    d.synopsisRange P ref =
      if base.num.toUInt32 < d.lastNonUndoableBlockNum then .error .blockOlderThanUndoHistory
      else .ok (some ⟨d.lastNonUndoableBlockNum, base.num.toUInt32,
        base.num.toUInt32 + fork.length.toUInt32, P.chainIds fork⟩) := by
  have hhigh : (if base = BlockId.zero C then 0 else base.num.toUInt32) = base.num.toUInt32 := by
    split_ifs with hbase
    · rw [hbase]
      rfl
    · rfl
  rw [synopsisRange, if_pos hne, hincluded, hhistory]
  simp only [List.getLast?_append, List.getLast?_singleton, Option.some_or, Option.getD_some, hhigh,
    List.dropLast_concat, List.length_reverse, List.length_map, Protocol.chainIds, List.map_reverse]

/-- **What the synopses of a node are**, whose head block is the newest of the chain. -/
structure Database.Synopses (P : Protocol C) (g : ChainState C) (chain : List (SignedBlock C))
    (d : Database C) : Prop where
  /-- Without a reference point and without blocks there is nothing to summarize. -/
  empty : d.state.headBlockNum = 0 → ∀ n, d.getBlockchainSynopsis P (BlockId.zero C) n = .ok []
  /-- Without a reference point the whole chain is summarized, from the last block on that cannot be
  undone. -/
  whole : d.state.headBlockNum ≠ 0 → d.lastNonUndoableBlockNum.toNat ≤ d.state.headBlockNum →
    ∀ n, d.state.headBlockNum + n + 1 < 2 ^ 32 → ∃ synopsis,
      d.getBlockchainSynopsis P (BlockId.zero C) (UInt32.ofNat n) = .ok synopsis ∧
        Summarizes P g chain (max 1 d.lastNonUndoableBlockNum.toNat) n synopsis
  /-- With a reference point on the chain, the chain up to it, from there on at the latest. -/
  onChain : ∀ ref ∈ P.chainIds chain, ∀ n, ref.num + n + 1 < 2 ^ 32 → ∃ synopsis,
    d.getBlockchainSynopsis P ref (UInt32.ofNat n) = .ok synopsis ∧
      P.tip g (chain.drop (chain.length - ref.num)) = ref ∧
        Summarizes P g (chain.drop (chain.length - ref.num))
          (max 1 (min d.lastNonUndoableBlockNum.toNat ref.num)) n synopsis
  /-- With a reference point that is not connected with the head, it throws. -/
  noHistory : ∀ ref y, d.forkDb.fetchBlock P ref = some y → ref ∉ P.chainIds chain →
    ref.num ≤ d.state.headBlockNum → ¬ d.Connected P y →
      ∀ n, d.getBlockchainSynopsis P ref n = .error .noForkHistory
  /-- With one on a fork, it throws if the fork leaves the chain too low, and otherwise what is
  summarized is the chain up to there and the fork up to the reference point. -/
  onFork : ∀ ref y, d.forkDb.fetchBlock P ref = some y → ref ∉ P.chainIds chain →
    ref.num ≤ d.state.headBlockNum → d.Connected P y → ∃ fork k, P.Forks g chain ref fork k ∧
      (k < d.lastNonUndoableBlockNum.toNat →
        ∀ n, d.getBlockchainSynopsis P ref n = .error .blockOlderThanUndoHistory) ∧
      (d.lastNonUndoableBlockNum.toNat ≤ k → ∀ n, ref.num + n + 1 < 2 ^ 32 → ∃ synopsis,
        d.getBlockchainSynopsis P ref (UInt32.ofNat n) = .ok synopsis ∧
          Summarizes P g (fork ++ chain.drop (chain.length - k))
            (max 1 d.lastNonUndoableBlockNum.toNat) n synopsis)

/-- **The synopses of a node** whose log has the ids of its chain. -/
theorem Database.HasIds.synopses (h : d.HasIds P (P.chainIds chain)) (hg : Base g)
    (hzero : g.headBlockId.num = 0) {ix : ChainState C} (hix : P.stateAt g chain = some ix)
    (htip : d.state.headBlockId = P.tip g chain) (hwf : d.forkDb.WF P)
    (hmax : d.state.headBlockNum < 2 ^ 32) : d.Synopses P g chain := by
  have hlinked := Protocol.linked_of_stateAt hg hix
  have hlen : chain.length = d.state.headBlockNum := by
    rw [← h.length_eq, P.length_chainIds]
  have hhead : d.state.headBlockNum.toUInt32.toNat = d.state.headBlockNum :=
    UInt32.toNat_ofNat_of_lt' hmax
  have hheadzero : d.state.headBlockNum.toUInt32 = 0 ↔ d.state.headBlockNum = 0 := by
    rw [← UInt32.toNat_inj, hhead]
    rfl
  -- a known block that is not on the chain
  have hfork : ∀ {ref : BlockId C} {y : ForkItem C}, d.forkDb.fetchBlock P ref = some y →
      ref ∉ P.chainIds chain → ref.num ≤ d.state.headBlockNum →
        ref ≠ BlockId.zero C ∧ d.isIncludedBlock ref = .ok false := by
    intro ref y hy hnot hle
    have hnum : 1 ≤ ref.num := by
      rw [← (ForkDatabase.fetchBlock_eq_some hy).2]
      exact Nat.le_add_left 1 _
    refine ⟨?_, by rw [h.isIncludedBlock_eq hnum hle, decide_eq_false hnot]⟩
    rintro rfl
    exact absurd hnum (Nat.not_succ_le_zero 0)
  refine ⟨fun hempty n ↦ ?_, fun hne hlow n hn ↦ ?_, fun ref href n hn ↦ ?_,
    fun ref y hy hnot hle hconn n ↦ ?_, fun ref y hy hnot hle hconn ↦ ?_⟩
  · rw [Database.getBlockchainSynopsis, Database.synopsisRange_zero, if_pos (hheadzero.2 hempty)]
    rfl
  · have hrange := (d.synopsisRange_zero (P := P)).trans (if_neg fun h ↦ hne (hheadzero.1 h))
    have hreads := h.reads_chain d.lastNonUndoableBlockNum (hhead.trans hlen.symm).le
    rw [hhead.trans hlen.symm, Nat.sub_self, List.drop_zero] at hreads
    have hnil : chain ≠ [] := List.ne_nil_of_length_pos (by omega)
    exact hreads.getBlockchainSynopsis hrange hlinked hzero (hlen ▸ hlow) hnil (hlen ▸ hn)
  · have hat := h.getElem?_num href
    obtain ⟨i, hi, rfl⟩ := List.mem_iff_getElem.1 href
    have hpos : 1 ≤ (P.chainIds chain)[i].num := (h.num_getElem hi).symm ▸ Nat.le_add_right 1 i
    have hle : (P.chainIds chain)[i].num ≤ chain.length := by
      rw [P.length_chainIds] at hi
      rw [h.num_getElem, Nat.add_comm]
      exact hi
    generalize (P.chainIds chain)[i] = ref at *
    have hne : ref ≠ BlockId.zero C := by
      rintro rfl
      exact absurd hpos (Nat.not_succ_le_zero 0)
    have hnat : ref.num.toUInt32.toNat = ref.num :=
      UInt32.toNat_ofNat_of_lt' (by omega : ref.num < 2 ^ 32)
    have hincluded := h.isIncludedBlock_eq hpos (hlen ▸ hle)
    rw [decide_eq_true href] at hincluded
    have hrange := Database.synopsisRange_of_included (P := P) hne hincluded
    have hlow : (if ref.num.toUInt32 < d.lastNonUndoableBlockNum then ref.num.toUInt32
        else d.lastNonUndoableBlockNum).toNat = min d.lastNonUndoableBlockNum.toNat ref.num := by
      split_ifs with hlt <;> rw [UInt32.lt_iff_toNat_lt, hnat] at hlt
      · rw [hnat, Nat.min_eq_right hlt.le]
      · rw [Nat.min_eq_left (not_lt.1 hlt)]
    have hblocks : (chain.drop (chain.length - ref.num)).length = ref.num := by
      rw [List.length_drop]
      omega
    have hnil : chain.drop (chain.length - ref.num) ≠ [] :=
      List.ne_nil_of_length_pos (by omega)
    have hreads := h.reads_chain (if ref.num.toUInt32 < d.lastNonUndoableBlockNum then
      ref.num.toUInt32 else d.lastNonUndoableBlockNum) (hnat.trans_le hle)
    rw [hnat] at hreads
    obtain ⟨synopsis, hok, hsummarizes⟩ := hreads.getBlockchainSynopsis hrange
      (hlinked.drop _) hzero (by rw [hlow, hblocks]; exact Nat.min_le_right _ _) hnil
      (n := n) (by rwa [hblocks])
    rw [hlow] at hsummarizes
    refine ⟨synopsis, hok, ?_, hsummarizes⟩
    rw [← idOf_length hnil, hblocks, idOf, P.chainIds_drop chain hle,
      List.getElem?_take_of_lt (by omega), hat, Option.getD_some]
  · obtain ⟨hne, hincluded⟩ := hfork hy hnot hle
    have hnone : d.forkDb.fetchBranchFrom P d.state.headBlockId ref = none := by
      cases hx : d.forkDb.fetchBlock P d.state.headBlockId with
      | none =>
        rw [ForkDatabase.fetchBranchFrom, hx]
        rfl
      | some x =>
        rw [hwf.fetchBranchFrom_eq_none hx hy]
        rintro ⟨a, b, ha, hb, hab⟩
        exact hconn ⟨x, a, b, hx, ha, hb, hab⟩
    rw [Database.getBlockchainSynopsis, Database.synopsisRange_of_noHistory hne hincluded]
    · rfl
    · rw [Database.getBlockIdsOnFork, hnone]
      rfl
  · obtain ⟨hne, hincluded⟩ := hfork hy hnot hle
    obtain ⟨x, a, b, hx, ha, hb, hab⟩ := hconn
    obtain ⟨⟨first, second⟩, hfetch⟩ : ∃ branches,
        d.forkDb.fetchBranchFrom P d.state.headBlockId ref = some branches := by
      rw [← Option.ne_none_iff_exists']
      exact fun hnone ↦ (hwf.fetchBranchFrom_eq_none hx hy).1 hnone ⟨a, b, ha, hb, hab⟩
    obtain ⟨fork, k, hforks, hcount, hhistory⟩ :=
      h.getBlockIdsOnFork hg hzero hix htip hwf hx hy hnot (hlen ▸ hle) hfetch
    have hk := hforks.le
    have hbase : (P.tip g (chain.drop (chain.length - k))).num = k := by
      rw [(hlinked.drop _).num_tip hzero, List.length_drop]
      omega
    have hrange := Database.synopsisRange_of_fork hne hincluded hhistory
    have hknat : k.toUInt32.toNat = k := UInt32.toNat_ofNat_of_lt' (by omega : k < 2 ^ 32)
    have holder : k.toUInt32 < d.lastNonUndoableBlockNum ↔
        k < d.lastNonUndoableBlockNum.toNat := by rw [UInt32.lt_iff_toNat_lt, hknat]
    rw [hbase] at hrange
    refine ⟨fork, k, hforks, fun hlow n ↦ ?_, fun hlow n hn ↦ ?_⟩
    · rw [Database.getBlockchainSynopsis, hrange, if_pos (holder.2 hlow)]
      rfl
    · rw [if_neg fun h ↦ not_lt.2 hlow (holder.1 h)] at hrange
      have hhigh : (k.toUInt32 + fork.length.toUInt32).toNat = k + fork.length := by
        have hfork : fork.length.toUInt32.toNat = fork.length :=
          UInt32.toNat_ofNat_of_lt' (by omega : fork.length < 2 ^ 32)
        rw [UInt32.toNat_add, hknat, hfork]
        exact Nat.mod_eq_of_lt (by omega)
      have hblocks : (fork ++ chain.drop (chain.length - k)).length = ref.num := by
        rw [List.length_append, List.length_drop]
        omega
      have hnil : fork ++ chain.drop (chain.length - k) ≠ [] := by
        intro hnil
        rw [(List.append_eq_nil_iff.1 hnil).1] at hforks
        exact absurd hforks.head_eq (Option.some_ne_none _).symm
      exact (h.reads hk hknat hhigh rfl).getBlockchainSynopsis hrange hforks.linked hzero
        (by rw [hblocks]; exact hlow.trans (by omega)) hnil (by rwa [hblocks])

end

/-! ## Runs -/

/-- **Synopses are well formed**, on every node that was opened on the genesis state and whose log
was kept, up to the numbers a block can have. -/
theorem synopsis_well_formed (hg : Base g) (hgenesis : g.headBlockNum = 0) (hP : P.Nests depth)
    (hlag : P.Lags g depth) {d₀ d : Database C} (h₀ : d₀.Opened P g depth)
    (hrun : Run P (fun d c ↦ c.KeepsLog P d) d₀ d) (hmax : d.state.headBlockNum < 2 ^ 32) :
    ∃ chain, P.stateAt g chain = some d.headState ∧ chain.length = d.state.headBlockNum ∧
      P.tip g chain = d.state.headBlockId ∧ d.Synopses P g chain := by
  obtain ⟨chain, hrest, hlogged⟩ := hrun.logged hg hP hlag h₀
  have hids := (hlogged.logAgrees hg hrest).hasIds hg hgenesis hrest
  have hstate := hrest.state_eq
  obtain ⟨-, hid, -⟩ := Protocol.stateAt_spec hg hstate
  have htip : d.state.headBlockId = P.tip g chain := by
    rw [← hid, Indexes.headBlockId, Indexes.headBlockId, hrest.toOnChain.dgp?_eq hg]
  exact ⟨chain, hstate, by rw [← hids.length_eq, P.length_chainIds], htip.symm,
    hids.synopses hg (hg.num_eq.trans hgenesis) hstate htip hrest.forkDb hmax⟩

namespace Testnet

/-- A chain of two blocks, and a fork beside it. -/
theorem synopsis_well_formed_run :
    ∃ chain, protocol.stateAt genesis chain = some (pushAll [a1, a2, b1]).headState ∧
      chain.length = (pushAll [a1, a2, b1]).state.headBlockNum ∧
      (pushAll [a1, a2, b1]).Synopses protocol genesis chain := by
  have hstart : Run protocol (fun d c ↦ c.KeepsLog protocol d) node (pushAll []) := .refl
  have hrun := run_pushAll (run_pushAll (run_pushAll hstart
    a1 (logsPush_of (by decide +kernel) (by decide +kernel) (by decide +kernel)))
    a2 (logsPush_of (by decide +kernel) (by decide +kernel) (by decide +kernel)))
    b1 (logsPush_of (by decide +kernel) (by decide +kernel) (by decide +kernel))
  obtain ⟨chain, hstate, hlen, -, hsynopses⟩ :=
    synopsis_well_formed base rfl nests lags node_opened hrun (by decide +kernel)
  exact ⟨chain, hstate, hlen, hsynopses⟩

/-- The protocol, where blocks become irreversible as soon as another one comes. -/
def eager : Protocol types :=
  { protocol with
    confirmations := fun ix ↦ [ix.headBlockNum]
    confirmations_le := by
      intro ix dgp h n hn
      rw [List.mem_singleton.1 hn, Indexes.headBlockNum, h]
      exact Nat.le_refl _ }

/-- The third block. -/
def third : SignedBlock types := block (protocol.blockId a2) 0 []

/-- The fourth. -/
def fourth : SignedBlock types := block (protocol.blockId third) 0 []

/-- The fifth. -/
def fifth : SignedBlock types := block (protocol.blockId fourth) 0 []

/-- A node of that protocol after five blocks. -/
def eagerNode : Database types :=
  [a1, a2, third, fourth, fifth].foldl (fun d b ↦ (Call.pushBlock quiet b).exec eager d) node

/-- Pushing blocks leads to reachable nodes. -/
theorem reachable_foldl {P : Protocol types} {d₀ d : Database types} (h : Reachable P d₀ d)
    (blocks : List (SignedBlock types)) :
    Reachable P d₀ (blocks.foldl (fun d b ↦ (Call.pushBlock quiet b).exec P d) d) := by
  induction blocks generalizing d with
  | nil => exact h
  | cons b blocks ih => exact ih (h.call (.pushBlock quiet b) trivial)

/-- **A synopsis may begin lower**: where the reference point is below the last block that cannot be
undone, the chain is summarized as if the reference point were its head. -/
theorem synopsis_below_non_undoable :
    Reachable eager node eagerNode ∧ eagerNode.lastNonUndoableBlockNum = 2 ∧
      eagerNode.isIncludedBlock (eager.blockId a1) = .ok true ∧
      eagerNode.getBlockchainSynopsis eager (eager.blockId a1) 0 = .ok [eager.blockId a1] ∧
      (eager.blockId a1).num = 1 :=
  ⟨reachable_foldl .refl _, by decide +kernel, by decide +kernel, by decide +kernel, rfl⟩

end Testnet

end Graphene
