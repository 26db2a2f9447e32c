import Graphene.Chain.BlockLog
import Graphene.Lib.Consecutive

/-!
# The blocks a peer is offered

A peer that wants to catch up sends a synopsis of the chain it has.  `get_block_ids`
(`application.cpp`) goes through it from its end, until it comes to a block of the preferred chain,
and answers with the ids that follow, and how many are left.

An id is looked up by the number that is in it.  One that is not on the chain is passed over, but
the look-up throws for a number above the head, and the request with it; so a single block that the
node knows above its head keeps it from answering.  What is answered is read by number as well, one
id after the other, and is a segment of the chain only because the log agrees with the chain.

* `Database.isKnownBlock`, `isIncludedBlock`, `getBlockIds` — what is done, and how it fails.
* `collectIds_eq` — the loop reads a segment of the chain.
* `Database.Serves` — what peers are offered, if no synopsis has a known block above the head.
* `get_block_ids_contiguous` — every node offers that, as long as its log agrees with its chain.
* `no_blocks_no_fork` — a node without blocks does not throw, whatever the synopsis.
-/

set_option autoImplicit false

namespace Graphene

variable {C : ChainTypes} {P : Protocol C} {g : ChainState C} {depth : ℕ}

/-- How `get_block_ids` fails. -/
inductive BlockIdsError where
  /-- `fetch_block_id` throws: the log has no entry of that number, or an empty one. -/
  | keyNotFound
  /-- `peer_is_on_an_unreachable_fork`. -/
  | unreachableFork
  /-- The loop does not come to an end. -/
  | endless
deriving DecidableEq

namespace Database

/-- `is_known_block`. -/
def isKnownBlock (P : Protocol C) (d : Database C) (id : BlockId C) : Bool :=
  (d.forkDb.fetchBlock P id).isSome || d.blockIdToBlock.contains id

/-- `get_block_id_for_num`, which may throw. -/
def blockIdForNum (d : Database C) (num : ℕ) : Except BlockIdsError (BlockId C) :=
  match d.getBlockIdForNum num with
  | some id => .ok id
  | none => .error .keyNotFound

/-- `is_included_block`: whether the log has the id under its number. -/
def isIncludedBlock (d : Database C) (id : BlockId C) : Except BlockIdsError Bool := do
  let idInPreferredChain ← d.blockIdForNum id.num
  return decide (id = idInPreferredChain)

/-- The search for `last_known_block_id`, in the synopsis from its end. -/
def findLastKnown (P : Protocol C) (d : Database C) :
    List (BlockId C) → Except BlockIdsError (BlockId C)
  | [] => .error .unreachableFork
  | id :: ids =>
    if id = BlockId.zero C then .ok id
    else if d.isKnownBlock P id then do
      if ← d.isIncludedBlock id then return id
      else d.findLastKnown P ids
    else d.findLastKnown P ids

/-- The loop that reads the ids.  It adds one whenever it comes round, except at number 0, so that
twice as many rounds as there may be ids are enough. -/
def collectIds (d : Database C) (limit : ℕ) :
    ℕ → ℕ → List (BlockId C) → Except BlockIdsError (List (BlockId C))
  | 0, _, _ => .error .endless
  | fuel + 1, num, result =>
    if num ≤ d.state.headBlockNum ∧ result.length < limit then
      if num > 0 then do
        let id ← d.blockIdForNum num
        d.collectIds limit fuel ((num + 1) % 2 ^ 32) (result ++ [id])
      else d.collectIds limit fuel ((num + 1) % 2 ^ 32) result
    else .ok result

/-- `remaining_item_count`. -/
def remainingItemCount (d : Database C) (result : List (BlockId C)) : ℕ :=
  match result.getLast? with
  | some id => if id.num < d.state.headBlockNum then d.state.headBlockNum - id.num else 0
  | none => 0

/-- `last_known_block_id`.  Old versions send the id of no block when they have none. -/
def lastKnownBlockId (P : Protocol C) (d : Database C) (blockchainSynopsis : List (BlockId C)) :
    Except BlockIdsError (BlockId C) :=
  if blockchainSynopsis = [] ∨ blockchainSynopsis = [BlockId.zero C] then .ok (BlockId.zero C)
  else d.findLastKnown P blockchainSynopsis.reverse

/-- `get_block_ids`: the ids, and `remaining_item_count`. -/
def getBlockIds (P : Protocol C) (d : Database C) (blockchainSynopsis : List (BlockId C))
    (limit : ℕ) : Except BlockIdsError (List (BlockId C) × ℕ) :=
  if d.state.headBlockNum = 0 then .ok ([], 0)
  else do
    let lastKnownBlockId ← d.lastKnownBlockId P blockchainSynopsis
    let result ← d.collectIds limit (2 * limit + 2) lastKnownBlockId.num []
    return (result, d.remainingItemCount result)

end Database

/-! ## What peers are offered -/

/-- The `limit` ids from place `n` on, and how many come after them; nothing is counted if there are
none. -/
def segment (ids : List (BlockId C)) (n limit : ℕ) : List (BlockId C) × ℕ :=
  let result := (ids.drop n).take limit
  (result, if result = [] then 0 else ids.length - (n + result.length))

/-- The search goes on behind the id: it is not on the chain, and if the node knows it, it is not
above the head. -/
structure Database.PassesOver (P : Protocol C) (d : Database C) (ids : List (BlockId C))
    (id : BlockId C) : Prop where
  /-- It is the id of a block. -/
  ne_zero : id ≠ BlockId.zero C
  /-- The block is not on the chain. -/
  notMem : id ∉ ids
  /-- It is not above the head, if it is known. -/
  le_head : d.isKnownBlock P id = true → 1 ≤ id.num ∧ id.num ≤ d.state.headBlockNum

/-- **What is asked of `get_block_ids`**, on a chain of blocks with the given ids. -/
structure Database.Serves (P : Protocol C) (ids : List (BlockId C)) (d : Database C) : Prop where
  /-- Peers without blocks start with block 1. -/
  noBlocks : ∀ limit, d.getBlockIds P [] limit = .ok (segment ids 0 limit)
  /-- Others start with the last block of the synopsis that is on the chain, and with block 1 where
  the id of no block comes last. -/
  lastOnChain : ∀ before start after limit, start = BlockId.zero C ∨ start ∈ ids →
    (∀ id ∈ after, d.PassesOver P ids id) →
      d.getBlockIds P (before ++ start :: after) limit = .ok (segment ids (start.num - 1) limit)
  /-- There may be none. -/
  unreachable : d.state.headBlockNum ≠ 0 → ∀ synopsis limit, synopsis ≠ [] →
    (∀ id ∈ synopsis, d.PassesOver P ids id) →
      d.getBlockIds P synopsis limit = .error .unreachableFork
  /-- A node without blocks has none to offer. -/
  empty : d.state.headBlockNum = 0 → ∀ synopsis limit, d.getBlockIds P synopsis limit = .ok ([], 0)

namespace Database

variable {d : Database C} {ids : List (BlockId C)}

/-- The log and the chain agree on the ids. -/
structure HasIds (P : Protocol C) (ids : List (BlockId C)) (d : Database C) : Prop where
  /-- There is an id for each number. -/
  length_eq : ids.length = d.state.headBlockNum
  /-- They are numbered from 1. -/
  consecutive : Consecutive 1 (ids.map BlockId.num)
  /-- The log has them. -/
  read : ∀ id ∈ ids, d.getBlockIdForNum id.num = some id ∧ d.isKnownBlock P id = true

namespace HasIds

theorem num_getElem (h : d.HasIds P ids) {i : ℕ} (hi : i < ids.length) : ids[i].num = 1 + i := by
  have hnum := consecutive_iff_getElem.1 h.consecutive i (by simpa using hi)
  simpa using hnum

theorem getElem?_num (h : d.HasIds P ids) {id : BlockId C} (hid : id ∈ ids) :
    ids[id.num - 1]? = some id := by
  obtain ⟨i, hi, rfl⟩ := List.mem_iff_getElem.1 hid
  rw [h.num_getElem hi, Nat.add_sub_cancel_left, List.getElem?_eq_getElem hi]

theorem blockIdForNum_eq (h : d.HasIds P ids) {i : ℕ} (hi : i < ids.length) :
    d.blockIdForNum (i + 1) = .ok ids[i] := by
  have hread := (h.read ids[i] (List.getElem_mem hi)).1
  rw [h.num_getElem hi, Nat.add_comm] at hread
  rw [blockIdForNum, hread]

/-- The test finds what is on the chain, below the head. -/
theorem isIncludedBlock_eq (h : d.HasIds P ids) {id : BlockId C} (hpos : 1 ≤ id.num)
    (hle : id.num ≤ d.state.headBlockNum) : d.isIncludedBlock id = .ok (decide (id ∈ ids)) := by
  have hlen := h.length_eq
  obtain ⟨i, hi⟩ : ∃ i, id.num = i + 1 := ⟨id.num - 1, by omega⟩
  have hlt : i < ids.length := by omega
  rw [isIncludedBlock, hi, h.blockIdForNum_eq hlt]
  refine congrArg Except.ok (decide_eq_decide.2 ⟨fun heq ↦ ?_, fun hmem ↦ ?_⟩)
  · rw [heq]
    exact List.getElem_mem hlt
  · have hat := h.getElem?_num hmem
    rw [hi, Nat.add_sub_cancel, List.getElem?_eq_getElem hlt] at hat
    exact (Option.some_inj.1 hat).symm

theorem findLastKnown_cons_of_passesOver (h : d.HasIds P ids) {id : BlockId C}
    {rest : List (BlockId C)} (hid : d.PassesOver P ids id) :
    d.findLastKnown P (id :: rest) = d.findLastKnown P rest := by
  rw [findLastKnown, if_neg hid.ne_zero]
  split
  · rename_i hknown
    obtain ⟨hpos, hle⟩ := hid.le_head hknown
    rw [h.isIncludedBlock_eq hpos hle, decide_eq_false hid.notMem]
    rfl
  · rfl

theorem findLastKnown_append (h : d.HasIds P ids) {after rest : List (BlockId C)}
    (hafter : ∀ id ∈ after, d.PassesOver P ids id) :
    d.findLastKnown P (after ++ rest) = d.findLastKnown P rest := by
  induction after with
  | nil => rfl
  | cons id after ih =>
    obtain ⟨hid, hafter⟩ := List.forall_mem_cons.1 hafter
    rw [List.cons_append, h.findLastKnown_cons_of_passesOver hid, ih hafter]

theorem findLastKnown_cons_of_mem (h : d.HasIds P ids) {id : BlockId C} {rest : List (BlockId C)}
    (hid : id = BlockId.zero C ∨ id ∈ ids) : d.findLastKnown P (id :: rest) = .ok id := by
  rw [findLastKnown]
  split_ifs with hzero hknown
  · rfl
  · obtain hmem := hid.resolve_left hzero
    obtain ⟨i, hi, rfl⟩ := List.mem_iff_getElem.1 hmem
    have hnum := h.num_getElem hi
    have hlen := h.length_eq
    rw [h.isIncludedBlock_eq (by omega) (by omega), decide_eq_true hmem]
    rfl
  · exact absurd (h.read id (hid.resolve_left hzero)).2 hknown

/-- **The loop reads a segment of the chain.**  The induction is on the rounds that are left. -/
theorem collectIds_eq (h : d.HasIds P ids) (hmax : d.state.headBlockNum + 1 < 2 ^ 32)
    {limit fuel n : ℕ} {result : List (BlockId C)} (hn : n ≤ ids.length)
    (hfuel : limit - result.length < fuel) :
    d.collectIds limit fuel (n + 1) result =
      .ok (result ++ (ids.drop n).take (limit - result.length)) := by
  have hlen := h.length_eq
  induction fuel generalizing n result with
  | zero => omega
  | succ fuel ih =>
    rw [collectIds]
    split_ifs with hgo hpos
    · have hlt : n < ids.length := by omega
      have hwrap : (n + 1 + 1) % 2 ^ 32 = n + 1 + 1 := Nat.mod_eq_of_lt (by omega)
      have hroom : limit - result.length = limit - (result ++ [ids[n]]).length + 1 := by
        rw [List.length_append, List.length_singleton]
        omega
      rw [h.blockIdForNum_eq hlt, hwrap, hroom, List.drop_eq_getElem_cons hlt, List.take_succ_cons,
        List.append_cons result]
      exact ih hlt (by omega)
    · exact absurd (Nat.succ_pos n) hpos
    · rcases Nat.lt_or_ge n ids.length with hlt | hge
      · have hfull : limit - result.length = 0 := by omega
        rw [hfull, List.take_zero, List.append_nil]
      · rw [List.drop_eq_nil_of_le hge, List.take_nil, List.append_nil]

/-- From the id of no block, the loop starts with block 1. -/
theorem collectIds_num (h : d.HasIds P ids) (hmax : d.state.headBlockNum + 1 < 2 ^ 32)
    {start : BlockId C} (hstart : start = BlockId.zero C ∨ start ∈ ids) (limit : ℕ) :
    d.collectIds limit (2 * limit + 2) start.num [] =
      .ok ((ids.drop (start.num - 1)).take limit) := by
  rcases hstart with rfl | hmem
  · change d.collectIds limit (2 * limit + 2) 0 [] = .ok ((ids.drop 0).take limit)
    rw [collectIds]
    split_ifs with hgo hpos
    · exact absurd hpos (Nat.lt_irrefl 0)
    · exact h.collectIds_eq hmax (n := 0) (Nat.zero_le _) (by rw [List.length_nil]; omega)
    · have hzero : limit = 0 := by
        rw [List.length_nil] at hgo
        omega
      rw [hzero, List.take_zero]
  · obtain ⟨i, hi, rfl⟩ := List.mem_iff_getElem.1 hmem
    rw [h.num_getElem hi, Nat.add_sub_cancel_left, Nat.add_comm 1 i]
    exact h.collectIds_eq hmax hi.le (by rw [List.length_nil]; omega)

/-- What is left is what comes after the segment. -/
theorem remainingItemCount_eq (h : d.HasIds P ids) (n limit : ℕ) :
    d.remainingItemCount ((ids.drop n).take limit) = (segment ids n limit).2 := by
  have hlen := h.length_eq
  rw [remainingItemCount, segment]
  rcases List.eq_nil_or_concat ((ids.drop n).take limit) with hnil | ⟨front, last, hlast⟩
  · rw [hnil, if_pos rfl]
    rfl
  · have hcount : front.length + 1 = min limit (ids.length - n) := by
      have hlength := congrArg List.length hlast
      simpa using hlength.symm
    have hat : ids[n + front.length]? = some last := by
      have hget := congrArg (·[front.length]?) hlast
      simp only [List.getElem?_take, List.getElem?_drop] at hget
      rw [if_pos (by omega)] at hget
      simpa using hget
    obtain ⟨hlt, hlast'⟩ := List.getElem?_eq_some_iff.1 hat
    have hnum : last.num = n + front.length + 1 := by
      rw [← hlast', h.num_getElem hlt, Nat.add_comm]
    rw [hlast, List.concat_eq_append, List.getLast?_append, List.getLast?_singleton,
      if_neg (by simp), List.length_append, List.length_singleton]
    simp only [Option.some_or]
    split_ifs <;> omega

/-- **The peers of a node that has the ids of its chain** are offered segments of it. -/
theorem serves (h : d.HasIds P ids) (hmax : d.state.headBlockNum + 1 < 2 ^ 32) :
    d.Serves P ids := by
  have hempty : d.state.headBlockNum = 0 → ∀ synopsis limit,
      d.getBlockIds P synopsis limit = .ok ([], 0) := fun hzero synopsis limit ↦ if_pos hzero
  have hfrom : ∀ {start : BlockId C} {synopsis : List (BlockId C)} {limit : ℕ},
      start = BlockId.zero C ∨ start ∈ ids → d.lastKnownBlockId P synopsis = .ok start →
        d.getBlockIds P synopsis limit = .ok (segment ids (start.num - 1) limit) := by
    intro start synopsis limit hstart hfind
    by_cases hzero : d.state.headBlockNum = 0
    · have hnil : ids = [] := List.eq_nil_of_length_eq_zero (h.length_eq.trans hzero)
      rw [hempty hzero, hnil, segment, List.drop_nil, List.take_nil, if_pos rfl]
    · rw [getBlockIds, if_neg hzero, hfind]
      change (d.collectIds limit (2 * limit + 2) start.num []).bind _ = _
      rw [h.collectIds_num hmax hstart]
      exact congrArg Except.ok (Prod.ext rfl (h.remainingItemCount_eq _ limit))
  refine ⟨fun limit ↦ hfrom (Or.inl rfl) (if_pos (Or.inl rfl)),
    fun before start after limit hstart hafter ↦ hfrom hstart ?_,
    fun hpos synopsis limit hne hpasses ↦ ?_, hempty⟩
  · rw [lastKnownBlockId]
    split_ifs with hold
    · -- the synopsis of an old version
      rcases hold with hnil | hone
      · simp at hnil
      · have hmem : start ∈ [BlockId.zero C] := hone ▸ by simp
        rw [List.mem_singleton.1 hmem]
    · rw [List.reverse_append, List.reverse_cons, List.append_assoc, List.singleton_append,
        h.findLastKnown_append fun id hid ↦ hafter id (List.mem_reverse.1 hid)]
      exact h.findLastKnown_cons_of_mem hstart
  · have hold : ¬ (synopsis = [] ∨ synopsis = [BlockId.zero C]) := by
      rintro (hnil | rfl)
      · exact hne hnil
      · exact (hpasses _ List.mem_cons_self).ne_zero rfl
    have hfind := @findLastKnown_append C P d ids h synopsis.reverse []
      fun id hid ↦ hpasses id (List.mem_reverse.1 hid)
    rw [List.append_nil] at hfind
    rw [getBlockIds, if_neg hpos, lastKnownBlockId, if_neg hold, hfind]
    rfl

end HasIds

end Database

/-! ## Runs -/

/-- The ids of a chain's blocks, the first block first. -/
def Protocol.chainIds (P : Protocol C) (chain : List (SignedBlock C)) : List (BlockId C) :=
  chain.reverse.map P.blockId

/-- The log of a node that was opened on the genesis state has the ids of the chain. -/
theorem Database.LogAgrees.hasIds {d : Database C} {chain : List (SignedBlock C)} (hg : Base g)
    (hgenesis : g.headBlockNum = 0) (hrest : d.AtRest P g depth chain)
    (h : d.LogAgrees P g chain) : d.HasIds P (P.chainIds chain) := by
  obtain ⟨-, -, hlen, -⟩ := Protocol.stateAt_spec hg hrest.state_eq
  have hhead : d.state.headBlockNum = d.headState.headBlockNum := by
    rw [Indexes.headBlockNum, Indexes.headBlockNum, hrest.toOnChain.dgp?_eq hg]
  have hlength : (P.chainIds chain).length = d.state.headBlockNum := by
    rw [Protocol.chainIds, List.length_map, List.length_reverse]
    omega
  -- the block at a place of the chain, and its number
  have hat : ∀ {i id}, (P.chainIds chain)[i]? = some id → ∃ b, id = P.blockId b ∧
      b.blockNum = i + 1 ∧ chain[d.state.headBlockNum - (i + 1)]? = some b := by
    intro i id hi
    have hlt := (List.getElem?_eq_some_iff.1 hi).1
    obtain ⟨b, hb, rfl⟩ : ∃ b, chain.reverse[i]? = some b ∧ P.blockId b = id := by
      rw [Protocol.chainIds, List.getElem?_map] at hi
      exact Option.map_eq_some_iff.1 hi
    rw [hlength] at hlt
    rw [List.getElem?_reverse (by omega)] at hb
    have hnum := P.blockNum_of_getElem? hg hrest.state_eq hb
    refine ⟨b, rfl, by omega, ?_⟩
    rw [← hb]
    congr 1
    omega
  refine ⟨hlength, consecutive_iff_getElem.2 fun i hi ↦ ?_, fun id hid ↦ ?_⟩
  · rw [List.length_map] at hi
    obtain ⟨b, hb, hnum, -⟩ := hat (List.getElem?_eq_getElem hi)
    rw [List.getElem_map, hb]
    exact hnum.trans (Nat.add_comm i 1)
  · obtain ⟨i, hi⟩ := List.mem_iff_getElem?.1 hid
    have hlt := (List.getElem?_eq_some_iff.1 hi).1
    obtain ⟨b, rfl, hnum, hb⟩ := hat hi
    obtain ⟨b', hb', -, -, -, hread, hcontains⟩ := h (i + 1) (by omega) (by omega)
    obtain rfl : b = b' := Option.some_inj.1 (hb.symm.trans hb')
    refine ⟨?_, by rw [Database.isKnownBlock, hcontains, Bool.or_true]⟩
    change d.getBlockIdForNum b.blockNum = _
    rw [hnum]
    exact hread

/-- **Peers are offered a contiguous segment of the chain**, by every node that was opened on the
genesis state and whose log was kept, up to the numbers a block can have. -/
theorem get_block_ids_contiguous (hg : Base g) (hgenesis : g.headBlockNum = 0) (hP : P.Nests depth)
    (hlag : P.Lags g depth) {d₀ d : Database C} (h₀ : d₀.Opened P g depth)
    (hrun : Run P (fun d c ↦ c.KeepsLog P d) d₀ d) (hmax : d.state.headBlockNum + 1 < 2 ^ 32) :
    ∃ chain, P.stateAt g chain = some d.headState ∧
      (P.chainIds chain).length = d.state.headBlockNum ∧
      Consecutive 1 ((P.chainIds chain).map BlockId.num) ∧
      (∀ start ∈ P.chainIds chain, (P.chainIds chain)[start.num - 1]? = some start) ∧
      d.Serves P (P.chainIds chain) := by
  obtain ⟨chain, hrest, hlogged⟩ := hrun.logged hg hP hlag h₀
  have hids := (hlogged.logAgrees hg hrest).hasIds hg hgenesis hrest
  exact ⟨chain, hrest.state_eq, hids.length_eq, hids.consecutive, fun _ ↦ hids.getElem?_num,
    hids.serves hmax⟩

namespace Testnet

/-- A peer that is one block ahead of its last common one is offered the block behind that. -/
theorem get_block_ids_contiguous_run :
    ∃ chain, protocol.stateAt genesis chain = some (pushAll [a1, a2]).headState ∧
      (protocol.chainIds chain).length = (pushAll [a1, a2]).state.headBlockNum ∧
      (pushAll [a1, a2]).Serves protocol (protocol.chainIds chain) := by
  have hstart : Run protocol (fun d c ↦ c.KeepsLog protocol d) node (pushAll []) := .refl
  have hrun := run_pushAll (run_pushAll hstart
    a1 (logsPush_of (by decide +kernel) (by decide +kernel) (by decide +kernel)))
    a2 (logsPush_of (by decide +kernel) (by decide +kernel) (by decide +kernel))
  obtain ⟨chain, hstate, hlen, -, -, hserves⟩ :=
    get_block_ids_contiguous base rfl nests lags node_opened hrun (by decide +kernel)
  exact ⟨chain, hstate, hlen, hserves⟩

/-- **A node without blocks has no forks**: it answers every synopsis with nothing, where one that
has blocks throws, as it does not know the id either.  And the zero id, which stands for no blocks
at all, is found by every node. -/
theorem no_blocks_no_fork :
    node.isKnownBlock protocol (protocol.blockId a1) = false ∧
      node.getBlockIds protocol [protocol.blockId a1] 1 = .ok ([], 0) ∧
      (pushAll [a1]).getBlockIds protocol [protocol.blockId b1] 1 = .error .unreachableFork ∧
      (pushAll [a1]).getBlockIds protocol [BlockId.zero types, protocol.blockId b1] 1 =
        .ok ([protocol.blockId a1], 0) :=
  ⟨by decide +kernel, by decide +kernel, by decide +kernel, by decide +kernel⟩

end Testnet

end Graphene
