import Graphene.Net.Peer
import Graphene.Lib.Consecutive
import Graphene.Lib.Halving

/-!
# A synopsis in two parts

The client summarizes its chain up to the last block of a peer's that it has seen, and the node goes
on with the ids on the list of the peer.  Each goes through its part by halving the way to the end
of the list.

The second part has to begin where the first one would have gone on.  Neither sees the other: each
halves what it takes to be left, and the seam shows when the two do not agree on how much that is.

* `SynopsisChain` — the ids that the client knows.
* `SynopsisChain.getBlockchainSynopsis` — the summary of the client.
* `SynopsisChain.concatenated` — the chain of which the two parts are to be a summary.
* `SynopsisChain.synopsis_seamless_iff` — when they are.
* `SynopsisRuns.synopsis_broken` — lists for which they are not.
-/

set_option autoImplicit false

namespace Graphene

/-! ## The client -/

/-- The ids that the client knows. -/
structure SynopsisChain where
  /-- The ids of the blocks from 1 to `head_block_num`. -/
  mainChain : List ItemHash
  /-- `last_non_undoable_block_num`. -/
  lastNonUndoableBlockNum : UInt32
  /-- `get_block_ids_on_fork`: the ids from a block back to the one where its fork begins, which is
  on the main chain.  It fails if the block is not known. -/
  blockIdsOnFork : ItemHash → Option (List ItemHash)

/-- What is summarized. -/
structure Summary where
  /-- `low_block_num`. -/
  lowBlockNum : UInt32
  /-- `non_fork_high_block_num`. -/
  nonForkHighBlockNum : UInt32
  /-- `high_block_num`. -/
  highBlockNum : UInt32
  /-- `fork_history`, the first block of the fork first. -/
  forkHistory : List ItemHash

namespace SynopsisChain

/-- `head_block_num`. -/
def headBlockNum (c : SynopsisChain) : UInt32 := UInt32.ofNat c.mainChain.length

/-- `get_block_id_for_num`; it fails for a block that is not there. -/
def blockIdForNum (c : SynopsisChain) (n : UInt32) : Option ItemHash :=
  if n = 0 then none else c.mainChain[n.toNat - 1]?

/-- `is_included_block`, which fails if the main chain is shorter. -/
def isIncludedBlock (c : SynopsisChain) (id : ItemHash) : Option Bool :=
  (c.blockIdForNum id.number).map (· = id)

/-- The lowest block of a synopsis is not below block 1. -/
def orOne (low : UInt32) : UInt32 := if low = 0 then 1 else low

/-- What `get_blockchain_synopsis` summarizes for a reference point.  It may fail, and it may be
that there are no blocks. -/
def summaryFor (c : SynopsisChain) (referencePoint : ItemHash) : Option (Option Summary) := do
  let low := c.lastNonUndoableBlockNum
  if referencePoint ≠ ItemHash.zero then
    if ← c.isIncludedBlock referencePoint then
      let high := referencePoint.number
      return some ⟨orOne (if high < low then high else low), high, high, []⟩
    else
      let history ← c.blockIdsOnFork referencePoint
      let lastNonForkBlock ← history.getLast?
      let fork := history.dropLast.reverse
      if lastNonForkBlock.number < low then none
      else
        return some ⟨orOne low, lastNonForkBlock.number,
          lastNonForkBlock.number + UInt32.ofNat fork.length, fork⟩
  else if c.headBlockNum = 0 then return none
  else return some ⟨orOne low, c.headBlockNum, c.headBlockNum, []⟩

/-- The id that goes into the synopsis for a number. -/
def blockIdAt (c : SynopsisChain) (s : Summary) (n : UInt32) : Option ItemHash :=
  if n ≤ s.nonForkHighBlockNum then c.blockIdForNum n
  else s.forkHistory[(n - s.nonForkHighBlockNum - 1).toNat]?

/-- `get_blockchain_synopsis`.  There is none if it fails, reads past the end or does not stop. -/
def getBlockchainSynopsis (c : SynopsisChain) (referencePoint : ItemHash)
    (numberOfBlocksAfterReferencePoint : UInt32) : Option (List ItemHash) := do
  match ← c.summaryFor referencePoint with
  | none => return []
  | some s =>
    halvingLoop none (fun n ↦ (c.blockIdAt s n).map ([·]))
      (s.highBlockNum + numberOfBlocksAfterReferencePoint) s.highBlockNum (2 ^ 32) s.lowBlockNum

/-- A client that answers out of this chain. -/
def delegate (c : SynopsisChain) (d : NodeDelegate) : NodeDelegate :=
  { d with getBlockchainSynopsis := c.getBlockchainSynopsis }

@[simp] theorem delegate_getBlockchainSynopsis (c : SynopsisChain) (d : NodeDelegate) :
    (c.delegate d).getBlockchainSynopsis = c.getBlockchainSynopsis := rfl

/-- The ids are those of a chain and its forks. -/
structure Valid (c : SynopsisChain) : Prop where
  /-- The blocks of the main chain are numbered from 1. -/
  consecutive : Consecutive 1 (c.mainChain.map ItemHash.num)
  /-- A fork comes behind one of them, or behind none. -/
  fork : ∀ id history, c.blockIdsOnFork id = some history → ∃ ancestor fork,
    history = (ancestor :: fork).reverse ∧ fork.getLast? = some id ∧
      Consecutive (ancestor.num + 1) (fork.map ItemHash.num) ∧ ancestor.num ≤ c.mainChain.length

/-- If the whole chain is summarized, then there is the block to begin with.  The number of the last
block that cannot be undone is a difference, which wraps around when the undo history is longer than
the chain. -/
def BeginsWithin (c : SynopsisChain) (referencePoint : ItemHash) : Prop :=
  referencePoint = ItemHash.zero → c.mainChain ≠ [] →
    c.lastNonUndoableBlockNum.toNat ≤ c.mainChain.length

/-! ## The chain that is summarized -/

/-- The ids that the client summarizes. -/
def chainOf (c : SynopsisChain) : Option Summary → List ItemHash
  | none => []
  | some s => c.mainChain.take s.nonForkHighBlockNum.toNat ++ s.forkHistory

/-- The number it begins with. -/
def lowOf : Option Summary → ℕ
  | none => 1
  | some s => s.lowBlockNum.toNat

/-- The chain of the client up to the reference point, and the list of the peer behind it.  The
blocks that cannot be undone are the same, up to the reference point. -/
def concatenated (c : SynopsisChain) (summary : Option Summary) (ids : List ItemHash) :
    SynopsisChain where
  mainChain := c.chainOf summary ++ ids
  lastNonUndoableBlockNum :=
    UInt32.ofNat (min c.lastNonUndoableBlockNum.toNat (c.chainOf summary).length)
  blockIdsOnFork _ := none

/-- What is known of a summary. -/
structure Summarizes (c : SynopsisChain) (referencePoint : ItemHash) (summary : Option Summary) :
    Prop where
  /-- The blocks are numbered from 1. -/
  consecutive : Consecutive 1 ((c.chainOf summary).map ItemHash.num)
  /-- It begins with the last block that cannot be undone. -/
  low_eq : lowOf summary = max 1 (min c.lastNonUndoableBlockNum.toNat (c.chainOf summary).length)
  /-- There is nothing if there are no blocks. -/
  isSome_eq : summary.isSome = !(c.chainOf summary).isEmpty
  /-- It ends with the highest block. -/
  high_eq : ∀ s ∈ summary, s.highBlockNum.toNat = (c.chainOf summary).length
  /-- The ids are found. -/
  blockIdAt_eq : ∀ s ∈ summary, ∀ x, 1 ≤ x → x ≤ (c.chainOf summary).length →
    c.blockIdAt s (UInt32.ofNat x) = (c.chainOf summary)[x - 1]?
  /-- It ends with the reference point. -/
  getLast?_eq : referencePoint ≠ ItemHash.zero → (c.chainOf summary).getLast? = some referencePoint
  /-- If there is no reference point, all is summarized. -/
  chainOf_eq : referencePoint = ItemHash.zero → c.chainOf summary = c.mainChain

variable {c : SynopsisChain} {d : NodeDelegate} {ref id : ItemHash} {summary : Option Summary}

/-! ## Chains of ids -/

theorem num_lt (id : ItemHash) : id.num < 2 ^ 32 := UInt32.toNat_lt id.number

/-- The id in place `x`, if the first one is in place `first`. -/
def idAt (ids : List ItemHash) (first x : ℕ) : ItemHash := (ids[x - first]?).getD ItemHash.zero

theorem getElem?_eq_idAt {ids : List ItemHash} {first x : ℕ} (h : x - first < ids.length) :
    ids[x - first]? = some (idAt ids first x) := by
  rw [idAt, List.getElem?_eq_getElem h, Option.getD_some]

theorem num_idAt {ids : List ItemHash} {first x : ℕ}
    (h : Consecutive first (ids.map ItemHash.num)) (hfirst : first ≤ x)
    (hx : x < first + ids.length) : (idAt ids first x).num = x := by
  have hlt : x - first < ids.length := by omega
  have hnum := consecutive_iff_getElem.1 h (x - first) (by simpa using hlt)
  rw [List.getElem_map] at hnum
  rw [idAt, List.getElem?_eq_getElem hlt, Option.getD_some, hnum]
  omega

/-- The number of the last id. -/
theorem num_getLast {ids : List ItemHash} {first : ℕ}
    (h : Consecutive first (ids.map ItemHash.num)) (hid : ids.getLast? = some id) :
    id.num + 1 = first + ids.length := by
  obtain ⟨init, rfl⟩ := List.getLast?_eq_some_iff.1 hid
  rw [List.map_append, consecutive_append] at h
  have hlast := (consecutive_cons.1 h.2).1
  simp only [List.length_map] at hlast
  rw [hlast, List.length_append, List.length_singleton]
  omega

/-- The blocks of a chain are fewer than there are numbers. -/
theorem length_lt {ids : List ItemHash} (h : Consecutive 1 (ids.map ItemHash.num)) :
    ids.length < 2 ^ 32 := by
  cases hlast : ids.getLast? with
  | none =>
    rw [List.getLast?_eq_none_iff.1 hlast]
    decide
  | some id =>
    have hnum := num_getLast h hlast
    have hlt := num_lt id
    omega

/-! ## What the client summarizes -/

theorem toNat_orOne (low : UInt32) : (orOne low).toNat = max 1 low.toNat := by
  rw [orOne]
  split_ifs with hzero
  · rw [hzero]
    rfl
  · have hne : low.toNat ≠ 0 := fun heq ↦ hzero (UInt32.toNat_inj.1 heq)
    omega

theorem blockIdForNum_ofNat {x : ℕ} (hx : 1 ≤ x) (hlt : x < 2 ^ 32) :
    c.blockIdForNum (UInt32.ofNat x) = c.mainChain[x - 1]? := by
  have htoNat : (UInt32.ofNat x).toNat = x := UInt32.toNat_ofNat_of_lt' hlt
  have hne : UInt32.ofNat x ≠ 0 := fun heq ↦ by
    rw [heq] at htoNat
    change 0 = x at htoNat
    omega
  rw [blockIdForNum, if_neg hne, htoNat]

/-- Part of the main chain is summarized. -/
theorem Valid.summarizes_main (hv : c.Valid) {low high : UInt32} (hhigh : 1 ≤ high.toNat)
    (hle : high.toNat ≤ c.mainChain.length)
    (hlow : low.toNat = min c.lastNonUndoableBlockNum.toNat high.toNat)
    (hlast : ref ≠ ItemHash.zero → c.mainChain[high.toNat - 1]? = some ref)
    (hzero : ref = ItemHash.zero → high.toNat = c.mainChain.length) :
    c.Summarizes ref (some ⟨orOne low, high, high, []⟩) := by
  have hchain : c.chainOf (some ⟨orOne low, high, high, []⟩) = c.mainChain.take high.toNat :=
    List.append_nil _
  have hlength : (c.mainChain.take high.toNat).length = high.toNat := by
    rw [List.length_take, Nat.min_eq_left hle]
  have hne : c.mainChain.take high.toNat ≠ [] := fun heq ↦ by
    rw [heq, List.length_nil] at hlength
    omega
  refine ⟨?_, ?_, ?_, ?_, ?_, fun href ↦ ?_, fun href ↦ ?_⟩
  · have hconsecutive := hv.consecutive
    rw [← List.take_append_drop high.toNat c.mainChain, List.map_append,
      consecutive_append] at hconsecutive
    rw [hchain]
    exact hconsecutive.1
  · rw [hchain, hlength, ← hlow]
    exact toNat_orOne low
  · rw [hchain]
    simpa using hne
  · rintro s ⟨rfl⟩
    rw [hchain, hlength]
  · rintro s ⟨rfl⟩ x hx hxle
    rw [hchain, hlength] at hxle
    have hlt : x < 2 ^ 32 := lt_of_le_of_lt hxle (UInt32.toNat_lt high)
    have hbelow : UInt32.ofNat x ≤ high := by
      rwa [UInt32.le_iff_toNat_le, UInt32.toNat_ofNat_of_lt' hlt]
    rw [blockIdAt, if_pos hbelow, blockIdForNum_ofNat hx hlt, hchain, List.getElem?_take_of_lt]
    omega
  · rw [hchain, List.getLast?_eq_getElem?, hlength, List.getElem?_take_of_lt (by omega)]
    exact hlast href
  · rw [hchain, hzero href, List.take_length]

/-- A fork is summarized, with the part of the main chain before it. -/
theorem Valid.summarizes_fork (hv : c.Valid) {ancestor : ItemHash} {fork : List ItemHash}
    (href : ref ≠ ItemHash.zero) (hlast : fork.getLast? = some ref)
    (hfork : Consecutive (ancestor.num + 1) (fork.map ItemHash.num))
    (hancestor : ancestor.num ≤ c.mainChain.length)
    (hlow : c.lastNonUndoableBlockNum.toNat ≤ ancestor.num) :
    c.Summarizes ref (some ⟨orOne c.lastNonUndoableBlockNum, ancestor.number,
      ancestor.number + UInt32.ofNat fork.length, fork⟩) := by
  set s : Summary := ⟨orOne c.lastNonUndoableBlockNum, ancestor.number,
    ancestor.number + UInt32.ofNat fork.length, fork⟩
  have hchain : c.chainOf (some s) = c.mainChain.take ancestor.num ++ fork := rfl
  have hnum := num_getLast hfork hlast
  have hbound := num_lt ref
  have htake : (c.mainChain.take ancestor.num).length = ancestor.num := by
    rw [List.length_take, Nat.min_eq_left hancestor]
  have hlength : (c.chainOf (some s)).length = ancestor.num + fork.length := by
    rw [hchain, List.length_append, htake]
  have hpos : 0 < fork.length := List.length_pos_of_mem (List.mem_of_mem_getLast? hlast)
  refine ⟨?_, ?_, ?_, ?_, ?_, fun _ ↦ ?_, fun heq ↦ absurd heq href⟩
  · have hconsecutive := hv.consecutive
    rw [← List.take_append_drop ancestor.num c.mainChain, List.map_append,
      consecutive_append] at hconsecutive
    rw [hchain, List.map_append, consecutive_append, List.length_map, htake, Nat.add_comm 1]
    exact ⟨hconsecutive.1, hfork⟩
  · rw [hlength, Nat.min_eq_left (by omega)]
    exact toNat_orOne _
  · have hne : fork ≠ [] := List.ne_nil_of_length_pos hpos
    simp [hchain, hne]
  · rintro s' ⟨rfl⟩
    have hshort : fork.length < 2 ^ 32 := by omega
    rw [hlength, UInt32.toNat_add, UInt32.toNat_ofNat_of_lt' hshort]
    exact Nat.mod_eq_of_lt (show ancestor.num + fork.length < 2 ^ 32 by omega)
  · rintro s' ⟨rfl⟩ x hx hxle
    rw [hlength] at hxle
    have hlt : x < 2 ^ 32 := by omega
    have htoNat : (UInt32.ofNat x).toNat = x := UInt32.toNat_ofNat_of_lt' hlt
    rw [hchain, blockIdAt]
    by_cases hmain : x ≤ ancestor.num
    · have hbelow : UInt32.ofNat x ≤ ancestor.number := by
        rw [UInt32.le_iff_toNat_le, htoNat]
        exact hmain
      rw [if_pos hbelow, blockIdForNum_ofNat hx hlt, List.getElem?_append_left (by omega),
        List.getElem?_take_of_lt (by omega)]
    · have hbehind : ¬ UInt32.ofNat x ≤ ancestor.number := fun hle ↦ hmain (by
        rwa [UInt32.le_iff_toNat_le, htoNat] at hle)
      have hplace : (UInt32.ofNat x - ancestor.number - 1).toNat = x - 1 - ancestor.num := by
        have hle : ancestor.number ≤ UInt32.ofNat x := by
          rw [UInt32.le_iff_toNat_le, htoNat]
          exact Nat.le_of_not_le hmain
        have hdiff : (UInt32.ofNat x - ancestor.number).toNat = x - ancestor.num := by
          rw [UInt32.toNat_sub_of_le _ _ hle, htoNat]
          rfl
        have hone : 1 ≤ UInt32.ofNat x - ancestor.number := by
          rw [UInt32.le_iff_toNat_le, hdiff]
          exact Nat.sub_pos_of_lt (Nat.lt_of_not_le hmain)
        rw [UInt32.toNat_sub_of_le _ _ hone, hdiff]
        exact Nat.sub_right_comm ..
      rw [if_neg hbehind, hplace, List.getElem?_append_right (by omega), htake]
  · rw [hchain, List.getLast?_append, hlast]
    rfl

theorem isIncludedBlock_eq_some {b : Bool} (h : c.isIncludedBlock ref = some b) :
    1 ≤ ref.num ∧ ref.num ≤ c.mainChain.length ∧
      (b = true → c.mainChain[ref.num - 1]? = some ref) := by
  obtain ⟨id, hid, rfl⟩ := Option.map_eq_some_iff.1 h
  rw [blockIdForNum] at hid
  split_ifs at hid with hzero
  obtain ⟨hlt, -⟩ := List.getElem?_eq_some_iff.1 hid
  have hpos : ref.num ≠ 0 := fun heq ↦ hzero (UInt32.toNat_inj.1 heq)
  have hlt : ref.num - 1 < c.mainChain.length := hlt
  exact ⟨by omega, by omega, fun heq ↦ of_decide_eq_true heq ▸ hid⟩

/-- **What the client summarizes** is a chain of ids that ends with the reference point. -/
theorem Valid.summarizes (hv : c.Valid) (hbegins : c.BeginsWithin ref)
    (h : c.summaryFor ref = some summary) : c.Summarizes ref summary := by
  have hhead : c.headBlockNum.toNat = c.mainChain.length :=
    UInt32.toNat_ofNat_of_lt' (length_lt hv.consecutive)
  rw [summaryFor] at h
  by_cases href : ref = ItemHash.zero
  · rw [if_neg (not_not.2 href)] at h
    split_ifs at h with hnone
    · obtain rfl := Option.some_inj.1 h
      have hempty : c.mainChain = [] := by
        rw [hnone] at hhead
        exact List.length_eq_zero_iff.1 hhead.symm
      refine ⟨rfl, by simp [lowOf, chainOf], rfl, ?_, ?_, fun hne ↦ absurd href hne,
        fun _ ↦ hempty.symm⟩
      · exact fun s hs ↦ nomatch hs
      · exact fun s hs ↦ nomatch hs
    · obtain rfl := Option.some_inj.1 h
      have hpos : c.headBlockNum.toNat ≠ 0 := fun heq ↦ hnone (UInt32.toNat_inj.1 heq)
      refine hv.summarizes_main (by omega) (by omega) ?_ (fun hne ↦ absurd href hne) fun _ ↦ hhead
      have hne : c.mainChain ≠ [] := List.ne_nil_of_length_pos (by omega)
      rw [hhead, Nat.min_eq_left (hbegins href hne)]
  · rw [if_pos href] at h
    obtain ⟨included, hincluded, h⟩ := Option.bind_eq_some_iff.1 h
    obtain ⟨hpos, hle, hfound⟩ := isIncludedBlock_eq_some hincluded
    cases included with
    | true =>
      obtain rfl := Option.some_inj.1 h
      refine hv.summarizes_main hpos hle ?_ (fun _ ↦ hfound rfl) fun hzero ↦ absurd hzero href
      split_ifs with hlt
      · have hlt := UInt32.lt_iff_toNat_lt.1 hlt
        omega
      · have hge := Nat.le_of_not_lt (mt UInt32.lt_iff_toNat_lt.2 hlt)
        omega
    | false =>
      rw [if_neg (by decide)] at h
      obtain ⟨history, hhistory, h⟩ := Option.bind_eq_some_iff.1 h
      obtain ⟨ancestor, fork, rfl, hlast, hfork, hancestor⟩ := hv.fork ref history hhistory
      rw [List.reverse_cons, List.getLast?_concat, List.dropLast_concat, List.reverse_reverse] at h
      simp only [Option.bind_eq_bind, Option.bind_some] at h
      split_ifs at h with hold
      obtain rfl := Option.some_inj.1 h
      refine hv.summarizes_fork href hlast hfork hancestor ?_
      exact Nat.le_of_not_lt (mt UInt32.lt_iff_toNat_lt.2 hold)

namespace Summarizes

theorem low_pos (h : c.Summarizes ref summary) : 1 ≤ lowOf summary := by
  rw [h.low_eq]
  exact Nat.le_max_left 1 _

theorem low_le (h : c.Summarizes ref summary) :
    lowOf summary ≤ max 1 (c.chainOf summary).length := by
  rw [h.low_eq]
  exact max_le_max le_rfl (Nat.min_le_right _ _)

/-- The ids of the summary are found in the chain. -/
theorem num_idAt (h : c.Summarizes ref summary) {x : ℕ} (hx : 1 ≤ x)
    (hle : x ≤ (c.chainOf summary).length) : (idAt (c.chainOf summary) 1 x).num = x :=
  SynopsisChain.num_idAt h.consecutive hx (by omega)

end Summarizes

/-- The ids of the client's part. -/
def firstPart (c : SynopsisChain) (summary : Option Summary) (last : ℕ) : List ItemHash :=
  ((halvingPoints last (lowOf summary)).filter (· ≤ (c.chainOf summary).length)).map
    (idAt (c.chainOf summary) 1)

/-- **The part of the client**, if the list does not reach the last number. -/
theorem Summarizes.getBlockchainSynopsis_eq (h : c.Summarizes ref summary)
    (hsummary : c.summaryFor ref = some summary) {n : ℕ}
    (hn : (c.chainOf summary).length + n + 1 < 2 ^ 32) :
    c.getBlockchainSynopsis ref (UInt32.ofNat n) =
      some (c.firstPart summary ((c.chainOf summary).length + n)) := by
  rw [getBlockchainSynopsis, hsummary]
  cases summary with
  | none =>
    have hpart : c.firstPart none ((c.chainOf none).length + n) = [] :=
      congrArg (List.map _) (filter_halvingPoints_of_lt Nat.one_pos)
    rw [hpart]
    rfl
  | some s =>
    have hhigh := h.high_eq s rfl
    have hlast : (s.highBlockNum + UInt32.ofNat n).toNat = (c.chainOf (some s)).length + n := by
      have hshort : n < 2 ^ 32 := by omega
      rw [UInt32.toNat_add, hhigh, UInt32.toNat_ofNat_of_lt' hshort]
      exact Nat.mod_eq_of_lt (by omega)
    have hpos : 1 ≤ (c.chainOf (some s)).length := by
      have hsome := h.isSome_eq
      rw [Option.isSome_some, Bool.true_eq, Bool.not_eq_true'] at hsome
      exact List.length_pos_of_ne_nil (List.isEmpty_eq_false_iff.1 hsome)
    have hlow := h.low_le
    rw [Nat.max_eq_right hpos] at hlow
    refine (halvingLoop_eq (g := fun x ↦ [idAt (c.chainOf (some s)) 1 x]) ?_ ?_ ?_ h.low_pos ?_
      fun x hx hle ↦ ?_).trans ?_
    · omega
    · rw [UInt32.le_iff_toNat_le]
      omega
    · rw [UInt32.le_iff_toNat_le, hhigh]
      exact hlow
    · omega
    · rw [hhigh] at hle
      have hx := (h.low_pos.trans (mem_halvingPoints hx).1 : 1 ≤ x)
      rw [h.blockIdAt_eq s rfl x hx hle, getElem?_eq_idAt (by omega), Option.map_some]
      rfl
    · rw [hlast, hhigh, ← List.map_eq_flatMap]
      rfl

/-- The first id of the client's part is that of the lowest block. -/
theorem Summarizes.head?_firstPart (h : c.Summarizes ref summary) (last : ℕ)
    (hlast : (c.chainOf summary).length ≤ last) :
    (((c.firstPart summary last).head?.map ItemHash.number).getD 1).toNat = lowOf summary := by
  have hlow := h.low_le
  rw [firstPart]
  rcases Nat.eq_zero_or_pos (c.chainOf summary).length with hzero | hpos
  · have hpos := h.low_pos
    rw [filter_halvingPoints_of_lt (by omega)]
    rw [hzero] at hlow
    change 1 = _
    exact Nat.le_antisymm hpos hlow
  · rw [Nat.max_eq_right hpos] at hlow
    rw [halvingPoints_of_le (hlow.trans hlast), List.filter_cons_of_pos (by simpa using hlow)]
    exact h.num_idAt h.low_pos hlow

/-! ## The part of the node -/

/-- The ids of the node's part. -/
def secondPart (ids : List ItemHash) (low first last : ℕ) : List ItemHash :=
  ((halvingPoints last low).filter (first ≤ ·)).map (idAt ids first)

theorem flatMap_ite (f : ℕ → ItemHash) (first : ℕ) (l : List ℕ) :
    l.flatMap (fun x ↦ if first ≤ x then [f x] else []) = (l.filter (first ≤ ·)).map f := by
  induction l with
  | nil => rfl
  | cons x l ih =>
    by_cases hx : first ≤ x
    · simp [hx, ih]
    · simp [hx, ih]

theorem synopsisLoop_eq_halvingLoop (ids : List ItemHash) (first high : UInt32) (fuel : ℕ)
    (low : UInt32) : Peer.synopsisLoop ids first high fuel low = halvingLoop none
      (fun low ↦ if first ≤ low then (ids[(low - first).toNat]?).map ([·]) else some []) high high
        fuel low := by
  induction fuel generalizing low with
  | zero => rfl
  | succ fuel ih =>
    rw [Peer.synopsisLoop, halvingLoop]
    simp only [ih]
    split_ifs <;> rfl

/-- **The part of the node**, for a list that does not reach the last number. -/
theorem synopsisLoop_eq {ids : List ItemHash} {first high low : UInt32} {fuel : ℕ}
    (hhigh : high.toNat + 1 = first.toNat + ids.length) (hbound : high.toNat + 1 < 2 ^ 32)
    (hlow : low ≤ high) (hpos : 0 < low.toNat) (hfuel : high.toNat + 1 - low.toNat ≤ fuel) :
    Peer.synopsisLoop ids first high fuel low =
      some (secondPart ids low.toNat first.toNat high.toNat) := by
  rw [synopsisLoop_eq_halvingLoop]
  refine (halvingLoop_eq (g := fun x ↦ if first.toNat ≤ x then [idAt ids first.toNat x] else [])
    hbound (UInt32.le_refl _) hlow hpos hfuel fun x hx hle ↦ ?_).trans ?_
  · have hlt : x < 2 ^ 32 := by omega
    have htoNat : (UInt32.ofNat x).toNat = x := UInt32.toNat_ofNat_of_lt' hlt
    have hiff : first ≤ UInt32.ofNat x ↔ first.toNat ≤ x := by
      rw [UInt32.le_iff_toNat_le, htoNat]
    split_ifs with hfirst hfirst' hfirst'
    · rw [UInt32.toNat_sub_of_le _ _ hfirst, htoNat, getElem?_eq_idAt (by omega), Option.map_some]
      rfl
    · exact absurd (hiff.1 hfirst) hfirst'
    · exact absurd (hiff.2 hfirst') hfirst
    · rfl
  · have hall : (halvingPoints high.toNat low.toNat).filter (· ≤ high.toNat) =
        halvingPoints high.toNat low.toNat :=
      List.filter_eq_self.2 fun x hx ↦ decide_eq_true (mem_halvingPoints hx).2
    rw [hall, flatMap_ite]
    rfl

/-- Where the node's part ends. -/
theorem toNat_high (front : ItemHash) {n : ℕ} (hn : 0 < n) (hlast : front.num + n ≤ 2 ^ 32) :
    (front.number + UInt32.ofNat n - 1).toNat + 1 = front.num + n := by
  have hfront := num_lt front
  rw [UInt32.toNat_sub, UInt32.toNat_add, UInt32.toNat_ofNat']
  change (2 ^ 32 - 1 + (front.num + n % 2 ^ 32) % 2 ^ 32) % 2 ^ 32 + 1 = _
  omega

/-- **The two parts**, for a list above what the client summarizes that does not reach the last
number. -/
theorem Summarizes.createBlockchainSynopsis_eq {p : Peer} {first : ℕ}
    (h : c.Summarizes p.lastBlockDelegateHasSeen summary)
    (hsummary : c.summaryFor p.lastBlockDelegateHasSeen = some summary)
    (hids : Consecutive first (p.idsOfItemsToGet.map ItemHash.num)) (hne : p.idsOfItemsToGet ≠ [])
    (hfirst : (c.chainOf summary).length < first)
    (hlast : first + p.idsOfItemsToGet.length < 2 ^ 32) :
    p.createBlockchainSynopsis (c.delegate d) = some (some
      (c.firstPart summary ((c.chainOf summary).length + p.idsOfItemsToGet.length) ++
        secondPart p.idsOfItemsToGet (lowOf summary) first
          (first + p.idsOfItemsToGet.length - 1))) := by
  obtain ⟨front, rest, hfront⟩ := List.exists_cons_of_ne_nil hne
  have hnum : front.num = first := by
    rw [hfront, List.map_cons, consecutive_cons] at hids
    exact hids.1
  have hpos : 0 < p.idsOfItemsToGet.length := List.length_pos_of_ne_nil hne
  have hn : UInt32.ofNat p.idsOfItemsToGet.length ≠ 0 := fun heq ↦ by
    have htoNat := UInt32.toNat_ofNat_of_lt' (show p.idsOfItemsToGet.length < 2 ^ 32 by omega)
    rw [heq] at htoNat
    change 0 = _ at htoNat
    omega
  have hhigh := toNat_high front hpos (by omega)
  have hclient := h.getBlockchainSynopsis_eq hsummary (n := p.idsOfItemsToGet.length) (by omega)
  have hlow := h.head?_firstPart ((c.chainOf summary).length + p.idsOfItemsToGet.length) (by omega)
  have hlowle := h.low_le
  have hlowpos := h.low_pos
  rw [Peer.createBlockchainSynopsis]
  dsimp only [delegate]
  rw [hclient]
  dsimp only
  rw [if_neg hn, hfront, List.head?_cons, ← hfront]
  set low : UInt32 := ((c.firstPart summary
    ((c.chainOf summary).length + p.idsOfItemsToGet.length)).head?.map ItemHash.number).getD 1
  set high : UInt32 := front.number + UInt32.ofNat p.idsOfItemsToGet.length - 1
  have hlow_le : low ≤ high := by
    rw [UInt32.le_iff_toNat_le]
    omega
  have hloop : Peer.synopsisLoop p.idsOfItemsToGet front.number high (high.toNat + 1) low = _ :=
    synopsisLoop_eq hhigh (by omega) hlow_le (by omega) (Nat.sub_le _ _)
  rw [Option.bind_eq_bind, Option.bind_some, hloop]
  have hend : high.toNat = first + p.idsOfItemsToGet.length - 1 := by omega
  have hbegin : front.number.toNat = first := hnum
  rw [hlow, hend, hbegin]
  rfl

/-! ## What is to hold of a synopsis -/

/-- The numbers increase, up to that of the last id on the list. -/
structure WellFormed (p : Peer) (synopsis : List ItemHash) : Prop where
  /-- The numbers increase. -/
  increasing : (synopsis.map ItemHash.num).Pairwise (· < ·)
  /-- The last id on the list is the last one. -/
  getLast?_eq : ∀ id ∈ p.idsOfItemsToGet.getLast?, synopsis.getLast? = some id

/-- The list and what is summarized end before the last number; and if the client has seen no block
of the peer's, then its chain ends before the list begins, and what it summarizes begins on the
chain. -/
structure InStep (c : SynopsisChain) (summary : Option Summary) (p : Peer) : Prop where
  /-- Blocks are numbered up to `2 ^ 32 - 2`. -/
  end_lt :
    (p.idsOfItemsToGet.getLast?.map ItemHash.num).getD (c.chainOf summary).length + 1 < 2 ^ 32
  /-- The client does not summarize blocks as high as those on the list. -/
  head_lt : p.lastBlockDelegateHasSeen = ItemHash.zero →
    ∀ id ∈ p.idsOfItemsToGet.head?, c.mainChain.length < id.num
  /-- The block to begin with is there. -/
  beginsWithin : c.BeginsWithin p.lastBlockDelegateHasSeen

theorem Summarizes.map_num_firstPart (h : c.Summarizes ref summary) (last : ℕ) :
    (c.firstPart summary last).map ItemHash.num =
      (halvingPoints last (lowOf summary)).filter (· ≤ (c.chainOf summary).length) := by
  rw [firstPart, List.map_map]
  refine (List.map_congr_left fun x hx ↦ ?_).trans (List.map_id _)
  obtain ⟨hx, hle⟩ := List.mem_filter.1 hx
  exact h.num_idAt (h.low_pos.trans (mem_halvingPoints hx).1) (of_decide_eq_true hle)

theorem map_num_secondPart {ids : List ItemHash} {low first : ℕ}
    (hids : Consecutive first (ids.map ItemHash.num)) (hpos : 0 < ids.length) :
    (secondPart ids low first (first + ids.length - 1)).map ItemHash.num =
      (halvingPoints (first + ids.length - 1) low).filter (first ≤ ·) := by
  rw [secondPart, List.map_map]
  refine (List.map_congr_left fun x hx ↦ ?_).trans (List.map_id _)
  obtain ⟨hx, hle⟩ := List.mem_filter.1 hx
  have hx := (mem_halvingPoints hx).2
  exact num_idAt hids (of_decide_eq_true hle) (by omega)

/-- The node's part ends with the last id of the list. -/
theorem getLast?_secondPart {ids : List ItemHash} {low first : ℕ} (hlow : low ≤ first)
    (hid : ids.getLast? = some id) :
    (secondPart ids low first (first + ids.length - 1)).getLast? = some id := by
  have hpos : 0 < ids.length := List.length_pos_of_mem (List.mem_of_mem_getLast? hid)
  have hplace : first + ids.length - 1 - first = ids.length - 1 := by omega
  rw [secondPart, List.getLast?_map, getLast?_filter_halvingPoints (by omega)
    (decide_eq_true (by omega)), Option.map_some, idAt, hplace, ← List.getLast?_eq_getElem?, hid]
  rfl

/-- **A synopsis in two parts is well formed**, if they are in step. -/
theorem Summarizes.wellFormed {p : Peer} {first : ℕ}
    (h : c.Summarizes p.lastBlockDelegateHasSeen summary)
    (hids : Consecutive first (p.idsOfItemsToGet.map ItemHash.num)) (hne : p.idsOfItemsToGet ≠ [])
    (hfirst : (c.chainOf summary).length < first) {last : ℕ} :
    WellFormed p (c.firstPart summary last ++
      secondPart p.idsOfItemsToGet (lowOf summary) first
        (first + p.idsOfItemsToGet.length - 1)) := by
  have hpos : 0 < p.idsOfItemsToGet.length := List.length_pos_of_ne_nil hne
  have hlow := h.low_le
  refine ⟨?_, fun id hid ↦ ?_⟩
  · rw [List.map_append, h.map_num_firstPart, map_num_secondPart hids hpos, List.pairwise_append]
    refine ⟨(halvingPoints_pairwise _ _).filter _, (halvingPoints_pairwise _ _).filter _, ?_⟩
    intro x hx y hy
    have hx := of_decide_eq_true (List.mem_filter.1 hx).2
    have hy := of_decide_eq_true (List.mem_filter.1 hy).2
    omega
  · rw [List.getLast?_append, getLast?_secondPart (by omega) hid]
    rfl

/-! ## A synopsis in one part -/

theorem Summarizes.valid_concatenated (h : c.Summarizes ref summary) {ids : List ItemHash}
    (hids : Consecutive ((c.chainOf summary).length + 1) (ids.map ItemHash.num)) :
    (c.concatenated summary ids).Valid := by
  refine ⟨?_, fun _ _ h ↦ nomatch h⟩
  rw [concatenated, List.map_append, consecutive_append, List.length_map, Nat.add_comm 1]
  exact ⟨h.consecutive, hids⟩

/-- The number of the last block that cannot be undone is that of a block of the chain there. -/
theorem Summarizes.beginsWithin_concatenated (h : c.Summarizes ref summary) (ids : List ItemHash)
    (ref' : ItemHash) : (c.concatenated summary ids).BeginsWithin ref' := by
  intro _ _
  have hlt := length_lt h.consecutive
  have hshort : min c.lastNonUndoableBlockNum.toNat (c.chainOf summary).length < 2 ^ 32 := by
    omega
  rw [concatenated, List.length_append, UInt32.toNat_ofNat_of_lt' hshort]
  omega

/-- A chain is summarized as a whole up to its last block. -/
theorem Valid.summaryFor_getLast (hv : c.Valid) (hlast : c.mainChain.getLast? = some id) :
    ∃ summary, c.summaryFor id = some summary ∧ c.chainOf summary = c.mainChain := by
  have hnum := num_getLast hv.consecutive hlast
  have hpos := List.length_pos_of_mem (List.mem_of_mem_getLast? hlast)
  have hne : id ≠ ItemHash.zero := fun heq ↦ by
    rw [heq] at hnum
    change 0 + 1 = _ at hnum
    omega
  have hincluded : c.isIncludedBlock id = some true := by
    have hfound := blockIdForNum_ofNat (c := c) (show 1 ≤ id.num by omega) (num_lt id)
    have hplace : id.num - 1 = c.mainChain.length - 1 := by omega
    rw [ItemHash.num, UInt32.ofNat_toNat, ← ItemHash.num, hplace, ← List.getLast?_eq_getElem?,
      hlast] at hfound
    rw [isIncludedBlock, hfound]
    exact congrArg some (decide_eq_true rfl)
  refine ⟨some ⟨orOne (if id.number < c.lastNonUndoableBlockNum then id.number
    else c.lastNonUndoableBlockNum), id.number, id.number, []⟩, ?_, ?_⟩
  · rw [summaryFor, if_pos hne, hincluded]
    rfl
  · have hall : id.num = c.mainChain.length := by omega
    change c.mainChain.take id.num ++ [] = _
    rw [List.append_nil, hall, List.take_length]

/-- All is summarized if there is no reference point. -/
theorem Valid.summaryFor_zero (hv : c.Valid) (hbegins : c.BeginsWithin ItemHash.zero) :
    ∃ summary, c.summaryFor ItemHash.zero = some summary ∧ c.chainOf summary = c.mainChain := by
  have hsome : ∃ summary, c.summaryFor ItemHash.zero = some summary := by
    rw [summaryFor, if_neg (not_not.2 rfl)]
    split_ifs
    · exact ⟨_, rfl⟩
    · exact ⟨_, rfl⟩
  obtain ⟨summary, hsummary⟩ := hsome
  exact ⟨summary, hsummary, (hv.summarizes hbegins hsummary).chainOf_eq rfl⟩

/-- The block up to which all is summarized in one part: the last on the list, or the reference
point. -/
def lastPoint (p : Peer) : ItemHash := (p.idsOfItemsToGet.getLast?).getD p.lastBlockDelegateHasSeen

/-- The synopsis in one part: what the client would say of a chain with the list behind it. -/
def onePart (c : SynopsisChain) (summary : Option Summary) (p : Peer) : Option (List ItemHash) :=
  (c.concatenated summary p.idsOfItemsToGet).getBlockchainSynopsis (lastPoint p) 0

/-- **The synopsis in one part** goes through all places. -/
theorem Summarizes.onePart_eq {p : Peer} (h : c.Summarizes p.lastBlockDelegateHasSeen summary)
    (hids : Consecutive ((c.chainOf summary).length + 1) (p.idsOfItemsToGet.map ItemHash.num))
    (hend : (c.chainOf summary).length + p.idsOfItemsToGet.length + 1 < 2 ^ 32) :
    c.onePart summary p = some
      ((halvingPoints ((c.chainOf summary).length + p.idsOfItemsToGet.length)
        (lowOf summary)).map (idAt (c.chainOf summary ++ p.idsOfItemsToGet) 1)) := by
  set c' := c.concatenated summary p.idsOfItemsToGet with hc'
  have hv := h.valid_concatenated hids
  have hchain : c'.mainChain = c.chainOf summary ++ p.idsOfItemsToGet := rfl
  have hexists : ∃ summary', c'.summaryFor (lastPoint p) = some summary' ∧
      c'.chainOf summary' = c'.mainChain := by
    rw [lastPoint]
    cases hlast : p.idsOfItemsToGet.getLast? with
    | some id =>
      refine hv.summaryFor_getLast ?_
      rw [hchain, List.getLast?_append, hlast]
      rfl
    | none =>
      rw [Option.getD_none]
      by_cases hzero : p.lastBlockDelegateHasSeen = ItemHash.zero
      · rw [hzero]
        exact hv.summaryFor_zero (h.beginsWithin_concatenated _ _)
      · refine hv.summaryFor_getLast ?_
        rw [hchain, List.getLast?_eq_none_iff.1 hlast, List.append_nil]
        exact h.getLast?_eq hzero
  obtain ⟨summary', hsummary', hchain'⟩ := hexists
  have h' := hv.summarizes (h.beginsWithin_concatenated _ _) hsummary'
  have hlength : (c'.chainOf summary').length =
      (c.chainOf summary).length + p.idsOfItemsToGet.length := by
    rw [hchain', hchain, List.length_append]
  have hlow : lowOf summary' = lowOf summary := by
    have hshort : min c.lastNonUndoableBlockNum.toNat (c.chainOf summary).length < 2 ^ 32 := by
      omega
    have hlnu : c'.lastNonUndoableBlockNum.toNat =
        min c.lastNonUndoableBlockNum.toNat (c.chainOf summary).length :=
      UInt32.toNat_ofNat_of_lt' hshort
    rw [h'.low_eq, h.low_eq, hlnu, hlength]
    omega
  have hone := h'.getBlockchainSynopsis_eq hsummary' (n := 0)
    (show (c'.chainOf summary').length + 0 + 1 < 2 ^ 32 by omega)
  have hall : (halvingPoints (c'.chainOf summary').length (lowOf summary')).filter
      (· ≤ (c'.chainOf summary').length) =
        halvingPoints (c'.chainOf summary').length (lowOf summary') :=
    List.filter_eq_self.2 fun x hx ↦ decide_eq_true (mem_halvingPoints hx).2
  rw [Nat.add_zero, firstPart, hall, hlength, hlow, hchain', hchain] at hone
  exact hone

/-- **The two parts make up the one**, if the list begins where the summary ends. -/
theorem Summarizes.twoParts_eq {p : Peer} (h : c.Summarizes p.lastBlockDelegateHasSeen summary) :
    c.firstPart summary ((c.chainOf summary).length + p.idsOfItemsToGet.length) ++
        secondPart p.idsOfItemsToGet (lowOf summary) ((c.chainOf summary).length + 1)
          ((c.chainOf summary).length + 1 + p.idsOfItemsToGet.length - 1) =
      (halvingPoints ((c.chainOf summary).length + p.idsOfItemsToGet.length)
        (lowOf summary)).map (idAt (c.chainOf summary ++ p.idsOfItemsToGet) 1) := by
  set chain := c.chainOf summary
  set ids := p.idsOfItemsToGet
  have hlast : chain.length + 1 + ids.length - 1 = chain.length + ids.length := by omega
  have hfirst : ∀ x ∈ (halvingPoints (chain.length + ids.length) (lowOf summary)).filter
      (· ≤ chain.length), idAt chain 1 x = idAt (chain ++ ids) 1 x := by
    intro x hx
    obtain ⟨hx, hle⟩ := List.mem_filter.1 hx
    have hpos := h.low_pos.trans (mem_halvingPoints hx).1
    have hle := of_decide_eq_true hle
    rw [idAt, idAt, List.getElem?_append_left (by omega)]
  have hsecond : ∀ x ∈ (halvingPoints (chain.length + ids.length) (lowOf summary)).filter
      (chain.length < ·), idAt ids (chain.length + 1) x = idAt (chain ++ ids) 1 x := by
    intro x hx
    have hlt := of_decide_eq_true (List.mem_filter.1 hx).2
    rw [idAt, idAt, List.getElem?_append_right (by omega), Nat.sub_sub, Nat.add_comm 1]
  rw [firstPart, secondPart, hlast]
  refine (congrArg₂ (· ++ ·) (List.map_congr_left hfirst) (List.map_congr_left hsecond)).trans ?_
  rw [← List.map_append, filter_le_append_filter_lt (halvingPoints_pairwise _ _)]

/-! ## In step -/

/-- The number of a reference point is that of the block up to which the client summarizes. -/
theorem Summarizes.length_eq (h : c.Summarizes ref summary) (href : ref ≠ ItemHash.zero) :
    (c.chainOf summary).length = ref.num := by
  have hnum := num_getLast h.consecutive (h.getLast?_eq href)
  omega

/-- The list begins behind what is summarized. -/
theorem InStep.length_lt {p : Peer} {front : ItemHash} (hstep : InStep c summary p)
    (h : c.Summarizes p.lastBlockDelegateHasSeen summary)
    (hfront : p.idsOfItemsToGet.head? = some front)
    (habove : p.lastBlockDelegateHasSeen.num < front.num) :
    (c.chainOf summary).length < front.num := by
  by_cases href : p.lastBlockDelegateHasSeen = ItemHash.zero
  · rw [h.chainOf_eq href]
    exact hstep.head_lt href front hfront
  · rw [h.length_eq href]
    exact habove

variable {p : Peer}

/-- **In step, the synopsis is well formed**, whether there is a hole before the list or not. -/
theorem exists_wellFormed_of_inStep (hv : c.Valid)
    (hsummary : c.summaryFor p.lastBlockDelegateHasSeen = some summary) {first : ℕ}
    (hids : Consecutive first (p.idsOfItemsToGet.map ItemHash.num))
    (habove : p.lastBlockDelegateHasSeen.num < first) (hstep : InStep c summary p) :
    ∃ synopsis, p.createBlockchainSynopsis (c.delegate d) = some (some synopsis) ∧
      WellFormed p synopsis := by
  have h := hv.summarizes hstep.beginsWithin hsummary
  have hend := hstep.end_lt
  cases hlast : p.idsOfItemsToGet.getLast? with
  | none =>
    have hempty := List.getLast?_eq_none_iff.1 hlast
    rw [hlast] at hend
    have hclient := h.getBlockchainSynopsis_eq hsummary (n := 0) hend
    refine ⟨_, (Peer.createBlockchainSynopsis_of_isEmpty _ hempty).trans (congrArg some hclient),
      ?_, ?_⟩
    · rw [h.map_num_firstPart]
      exact (halvingPoints_pairwise _ _).filter _
    · rw [hlast]
      exact fun id hid ↦ nomatch hid
  | some last =>
    obtain ⟨front, rest, hfront⟩ := List.exists_cons_of_ne_nil
      (List.ne_nil_of_mem (List.mem_of_mem_getLast? hlast))
    have hnum : front.num = first := by
      rw [hfront, List.map_cons, consecutive_cons] at hids
      exact hids.1
    have hne : p.idsOfItemsToGet ≠ [] := by simp [hfront]
    have hlt := hstep.length_lt h (by rw [hfront]; rfl) (hnum ▸ habove)
    rw [hlast, Option.map_some, Option.getD_some, num_getLast hids hlast] at hend
    exact ⟨_, h.createBlockchainSynopsis_eq hsummary hids hne (hnum ▸ hlt) hend,
      h.wellFormed hids hne (hnum ▸ hlt)⟩

/-- In step, the synopsis in two parts is the one in one part. -/
theorem onePart_eq_of_inStep (hv : c.Valid)
    (hsummary : c.summaryFor p.lastBlockDelegateHasSeen = some summary)
    (hids : Consecutive ((c.chainOf summary).length + 1) (p.idsOfItemsToGet.map ItemHash.num))
    (hstep : InStep c summary p) :
    p.createBlockchainSynopsis (c.delegate d) = some (c.onePart summary p) := by
  have h := hv.summarizes hstep.beginsWithin hsummary
  have hend := hstep.end_lt
  cases hlast : p.idsOfItemsToGet.getLast? with
  | none =>
    have hempty := List.getLast?_eq_none_iff.1 hlast
    rw [hlast] at hend
    have hend : (c.chainOf summary).length + 1 < 2 ^ 32 := hend
    have hclient := h.getBlockchainSynopsis_eq hsummary (n := 0) hend
    have hsecond : secondPart p.idsOfItemsToGet (lowOf summary) ((c.chainOf summary).length + 1)
        ((c.chainOf summary).length + 1 + p.idsOfItemsToGet.length - 1) = [] := by
      rw [hempty]
      refine List.map_eq_nil_iff.2 (List.filter_eq_nil_iff.2 fun x hx hle ↦ ?_)
      have hx : x ≤ (c.chainOf summary).length := (mem_halvingPoints hx).2
      exact Nat.not_succ_le_self _ ((of_decide_eq_true hle).trans hx)
    have htwo := h.twoParts_eq
    rw [hsecond, List.append_nil] at htwo
    rw [Peer.createBlockchainSynopsis_of_isEmpty _ hempty,
      h.onePart_eq hids (by rw [hempty]; exact hend), ← htwo, hempty]
    exact congrArg some hclient
  | some last =>
    have hne : p.idsOfItemsToGet ≠ [] := List.ne_nil_of_mem (List.mem_of_mem_getLast? hlast)
    rw [hlast, Option.map_some, Option.getD_some, num_getLast hids hlast] at hend
    rw [h.createBlockchainSynopsis_eq hsummary hids hne (Nat.lt_succ_self _) hend,
      h.onePart_eq hids (by omega), h.twoParts_eq]

/-! ## Out of step -/

/-- The parts of a synopsis for a list that is not empty. -/
theorem exists_parts {synopsis : List ItemHash} {front : ItemHash}
    (hfront : p.idsOfItemsToGet.head? = some front)
    (hn : UInt32.ofNat p.idsOfItemsToGet.length ≠ 0)
    (h : p.createBlockchainSynopsis (c.delegate d) = some (some synopsis)) :
    ∃ client more high fuel,
      c.getBlockchainSynopsis p.lastBlockDelegateHasSeen
          (UInt32.ofNat p.idsOfItemsToGet.length) = some client ∧
        high = front.number + UInt32.ofNat p.idsOfItemsToGet.length - 1 ∧
        Peer.synopsisLoop p.idsOfItemsToGet front.number high fuel
          ((client.head?.map ItemHash.number).getD 1) = some more ∧
        synopsis = client ++ more := by
  rw [Peer.createBlockchainSynopsis] at h
  dsimp only [delegate] at h
  split at h
  next => cases h
  next client hclient =>
    rw [if_neg hn, hfront, Option.bind_eq_bind, Option.bind_some] at h
    obtain ⟨more, hmore, h⟩ := Option.bind_eq_some_iff.1 h
    exact ⟨client, more, _, _, hclient, rfl, hmore, (Option.some_inj.1 (Option.some_inj.1 h)).symm⟩

/-- The client's part begins with its lowest block. -/
theorem Summarizes.exists_of_getBlockchainSynopsis {n : UInt32} {client : List ItemHash}
    (h : c.Summarizes ref summary) (hsummary : c.summaryFor ref = some summary)
    (hne : c.chainOf summary ≠ []) (hclient : c.getBlockchainSynopsis ref n = some client) :
    ∃ id rest, client = id :: rest ∧ id.num = lowOf summary := by
  rw [getBlockchainSynopsis, hsummary] at hclient
  cases summary with
  | none => exact absurd rfl hne
  | some s =>
    obtain ⟨here, rest, hhere, rfl⟩ := exists_of_halvingLoop_eq_some hclient
    obtain ⟨id, hid, rfl⟩ := Option.map_eq_some_iff.1 hhere
    refine ⟨id, rest, rfl, ?_⟩
    have hlow := h.low_le
    rw [Nat.max_eq_right (List.length_pos_of_ne_nil hne)] at hlow
    have hplace := h.blockIdAt_eq s rfl (lowOf (some s)) h.low_pos hlow
    have hpos := h.low_pos
    have hlt : lowOf (some s) - 1 < (c.chainOf (some s)).length := by omega
    rw [getElem?_eq_idAt hlt, lowOf, UInt32.ofNat_toNat, hid] at hplace
    rw [Option.some_inj.1 hplace]
    exact h.num_idAt h.low_pos hlow

/-- The client does not stop if its part reaches the last number. -/
theorem Summarizes.getBlockchainSynopsis_of_max (h : c.Summarizes ref summary)
    (hsummary : c.summaryFor ref = some summary) (hmax : (c.chainOf summary).length + 1 = 2 ^ 32)
    (n : UInt32) : c.getBlockchainSynopsis ref n = none := by
  rw [getBlockchainSynopsis, hsummary]
  cases summary with
  | none => cases hmax
  | some s =>
    rw [← h.high_eq s rfl] at hmax
    exact halvingLoop_of_max _ hmax _ _ _

/-- Nor does the node. -/
theorem synopsisLoop_of_max {ids : List ItemHash} {first high low : UInt32} {fuel : ℕ}
    (hmax : high.toNat + 1 = 2 ^ 32) : Peer.synopsisLoop ids first high fuel low = none := by
  rw [synopsisLoop_eq_halvingLoop]
  exact halvingLoop_of_max _ hmax _ _ _

/-- The node's part begins with its lowest block if the list begins with the first one. -/
theorem exists_of_synopsisLoop {ids more : List ItemHash} {first high low : UInt32} {fuel : ℕ}
    (hids : Consecutive first.toNat (ids.map ItemHash.num)) (hlow : first ≤ low)
    (h : Peer.synopsisLoop ids first high fuel low = some more) :
    ∃ id rest, more = id :: rest ∧ id.num = low.toNat := by
  rw [synopsisLoop_eq_halvingLoop] at h
  obtain ⟨here, rest, hhere, rfl⟩ := exists_of_halvingLoop_eq_some h
  rw [if_pos hlow] at hhere
  obtain ⟨id, hid, rfl⟩ := Option.map_eq_some_iff.1 hhere
  refine ⟨id, rest, rfl, ?_⟩
  have hle := UInt32.le_iff_toNat_le.1 hlow
  obtain ⟨hlt, -⟩ := List.getElem?_eq_some_iff.1 hid
  rw [UInt32.toNat_sub_of_le _ _ hlow] at hid hlt
  rw [getElem?_eq_idAt hlt] at hid
  rw [← Option.some_inj.1 hid]
  exact num_idAt hids hle (by omega)

/-- The client reads past the end of a fork that is not there if it begins behind its chain. -/
theorem beginsWithin_of_getBlockchainSynopsis (hv : c.Valid) {n : UInt32} {client : List ItemHash}
    (h : c.getBlockchainSynopsis ref n = some client) : c.BeginsWithin ref := by
  rintro rfl hne
  by_contra hbehind
  have hhead : c.headBlockNum.toNat = c.mainChain.length :=
    UInt32.toNat_ofNat_of_lt' (length_lt hv.consecutive)
  have hpos := List.length_pos_of_ne_nil hne
  have hnonzero : c.headBlockNum ≠ 0 := fun heq ↦ by
    rw [heq] at hhead
    change 0 = _ at hhead
    omega
  rw [getBlockchainSynopsis, summaryFor, if_neg (not_not.2 rfl), if_neg hnonzero] at h
  obtain ⟨here, _, hhere, -⟩ := exists_of_halvingLoop_eq_some h
  obtain ⟨id, hid, -⟩ := Option.map_eq_some_iff.1 hhere
  have hlow : ¬ orOne c.lastNonUndoableBlockNum ≤ c.headBlockNum := by
    rw [UInt32.le_iff_toNat_le, toNat_orOne, hhead]
    omega
  rw [blockIdAt, if_neg hlow] at hid
  cases hid

/-- The synopsis of the node is one only if that of the client is. -/
theorem beginsWithin_of_createBlockchainSynopsis (hv : c.Valid) {synopsis : List ItemHash}
    (h : p.createBlockchainSynopsis (c.delegate d) = some (some synopsis)) :
    c.BeginsWithin p.lastBlockDelegateHasSeen := by
  rw [Peer.createBlockchainSynopsis] at h
  dsimp only [delegate] at h
  split at h
  next => cases h
  next client hclient => exact beginsWithin_of_getBlockchainSynopsis hv hclient

/-- **Only in step** is the synopsis well formed for a list right behind the reference point. -/
theorem inStep_of_wellFormed {synopsis : List ItemHash} (hv : c.Valid)
    (hsummary : c.summaryFor p.lastBlockDelegateHasSeen = some summary)
    (hids : Consecutive (p.lastBlockDelegateHasSeen.num + 1)
      (p.idsOfItemsToGet.map ItemHash.num))
    (hcreate : p.createBlockchainSynopsis (c.delegate d) = some (some synopsis))
    (hwell : WellFormed p synopsis) : InStep c summary p := by
  have hbegins := beginsWithin_of_createBlockchainSynopsis hv hcreate
  have h := hv.summarizes hbegins hsummary
  cases hlast : p.idsOfItemsToGet.getLast? with
  | none =>
    have hempty := List.getLast?_eq_none_iff.1 hlast
    refine ⟨?_, fun _ id hid ↦ ?_, hbegins⟩
    case refine_2 =>
      rw [hempty] at hid
      cases hid
    rw [hlast]
    change (c.chainOf summary).length + 1 < 2 ^ 32
    by_contra hnot
    have hlt := SynopsisChain.length_lt h.consecutive
    rw [Peer.createBlockchainSynopsis_of_isEmpty _ hempty, delegate_getBlockchainSynopsis,
      h.getBlockchainSynopsis_of_max hsummary (by omega)] at hcreate
    cases hcreate
  | some last =>
    obtain ⟨front, rest, hcons⟩ := List.exists_cons_of_ne_nil
      (List.ne_nil_of_mem (List.mem_of_mem_getLast? hlast))
    have hfront : p.idsOfItemsToGet.head? = some front := by rw [hcons]; rfl
    have hnum : front.num = p.lastBlockDelegateHasSeen.num + 1 := by
      rw [hcons, List.map_cons, consecutive_cons] at hids
      exact hids.1
    have hpos : 0 < p.idsOfItemsToGet.length := by simp [hcons]
    have hend := num_getLast hids hlast
    have hbound := num_lt last
    have hn : UInt32.ofNat p.idsOfItemsToGet.length ≠ 0 := fun heq ↦ by
      have htoNat := UInt32.toNat_ofNat_of_lt' (show p.idsOfItemsToGet.length < 2 ^ 32 by omega)
      rw [heq] at htoNat
      change 0 = _ at htoNat
      omega
    obtain ⟨client, more, high, fuel, hclient, rfl, hmore, rfl⟩ := exists_parts hfront hn hcreate
    have hhigh := toNat_high front hpos (by omega)
    refine ⟨?_, fun href front' hfront' ↦ ?_, hbegins⟩
    · rw [hlast, Option.map_some, Option.getD_some]
      by_contra hnot
      rw [synopsisLoop_of_max (by omega)] at hmore
      cases hmore
    · -- both parts begin with the block that the client begins with
      obtain rfl := Option.some_inj.1 (hfront.symm.trans hfront')
      by_contra hnot
      have hzero : p.lastBlockDelegateHasSeen.num = 0 := by rw [href]; rfl
      have hchain := h.chainOf_eq href
      have hne : c.chainOf summary ≠ [] := fun heq ↦ by
        rw [← hchain, heq, List.length_nil] at hnot
        omega
      obtain ⟨id, ids, rfl, hid⟩ := h.exists_of_getBlockchainSynopsis hsummary hne hclient
      have hfirst : front.number ≤ id.number := by
        rw [UInt32.le_iff_toNat_le, ← ItemHash.num, ← ItemHash.num, hid, hnum, hzero]
        exact h.low_pos
      have hbegin : Consecutive front.number.toNat (p.idsOfItemsToGet.map ItemHash.num) := by
        rw [← ItemHash.num, hnum]
        exact hids
      obtain ⟨id', ids', rfl, hid'⟩ := exists_of_synopsisLoop hbegin hfirst hmore
      have hincreasing := hwell.increasing
      rw [List.map_append, List.pairwise_append] at hincreasing
      have hlt := hincreasing.2.2 id.num List.mem_cons_self id'.num List.mem_cons_self
      rw [hid'] at hlt
      exact Nat.lt_irrefl _ hlt

/-- **The two parts agree with the one, and the synopsis is well formed, exactly if they are in
step**, for a list right behind the reference point.  In step the synopsis is well formed for every
list above it. -/
theorem synopsis_seamless_iff (hv : c.Valid)
    (hsummary : c.summaryFor p.lastBlockDelegateHasSeen = some summary) {first : ℕ}
    (hids : Consecutive first (p.idsOfItemsToGet.map ItemHash.num))
    (habove : p.lastBlockDelegateHasSeen.num < first) :
    (InStep c summary p →
      ∃ synopsis, p.createBlockchainSynopsis (c.delegate d) = some (some synopsis) ∧
        WellFormed p synopsis) ∧
    (first = p.lastBlockDelegateHasSeen.num + 1 →
      ((∃ synopsis, p.createBlockchainSynopsis (c.delegate d) = some (some synopsis) ∧
          c.onePart summary p = some synopsis ∧ WellFormed p synopsis) ↔ InStep c summary p)) := by
  refine ⟨exists_wellFormed_of_inStep hv hsummary hids habove, ?_⟩
  rintro rfl
  constructor
  · rintro ⟨synopsis, hcreate, -, hwell⟩
    exact inStep_of_wellFormed hv hsummary hids hcreate hwell
  · intro hstep
    have h := hv.summarizes hstep.beginsWithin hsummary
    obtain ⟨synopsis, hcreate, hwell⟩ :=
      exists_wellFormed_of_inStep (d := d) hv hsummary hids habove hstep
    refine ⟨synopsis, hcreate, ?_, hwell⟩
    have hbehind : Consecutive ((c.chainOf summary).length + 1)
        (p.idsOfItemsToGet.map ItemHash.num) := by
      cases hcons : p.idsOfItemsToGet with
      | nil => exact Consecutive.nil _
      | cons front rest =>
        have hfront : p.idsOfItemsToGet.head? = some front := by rw [hcons]; rfl
        have hnum : front.num = p.lastBlockDelegateHasSeen.num + 1 := by
          rw [hcons, List.map_cons, consecutive_cons] at hids
          exact hids.1
        have hlt := hstep.length_lt h hfront (by omega)
        have hlength : (c.chainOf summary).length = p.lastBlockDelegateHasSeen.num := by
          by_cases href : p.lastBlockDelegateHasSeen = ItemHash.zero
          · have hzero : p.lastBlockDelegateHasSeen.num = 0 := by rw [href]; rfl
            omega
          · exact h.length_eq href
        rw [hlength, ← hcons]
        exact hids
    have hone := onePart_eq_of_inStep (d := d) hv hsummary hbehind hstep
    exact Option.some_inj.1 (hone.symm.trans hcreate)

end SynopsisChain

/-! ## Synopses in and out of step -/

namespace SynopsisRuns

/-- The id of a block, on one of several chains. -/
def idOn (chain : BitVec 128) (n : ℕ) : ItemHash := ⟨UInt32.ofNat n, chain⟩

/-- A chain with `head` blocks, of which the last `undoable` can be undone. -/
def chainTo (head undoable : ℕ) : SynopsisChain where
  mainChain := (List.range' 1 head).map (idOn 7)
  lastNonUndoableBlockNum := UInt32.ofNat (head - undoable)
  blockIdsOnFork _ := none

/-- A client that has nothing. -/
def someClient : NodeDelegate where
  hasItem _ := false
  getItem _ := none
  getBlockTime _ := 0
  getBlockchainNow := 0
  getBlockIds _ := []
  getBlockchainSynopsis _ _ := none

/-- A peer with the blocks from `first` on its list, on a chain of its own. -/
def peerWith (reference : ItemHash) (first count : ℕ) : Peer :=
  { lastBlockDelegateHasSeen := reference
    idsOfItemsToGet := (List.range' first count).map (idOn 8) }

/-- The client has seen the first five blocks of the peer's, and the list goes on with three. -/
theorem seamless_behind_five : ∃ synopsis,
    (peerWith (idOn 7 5) 6 3).createBlockchainSynopsis ((chainTo 5 3).delegate someClient) =
        some (some synopsis) ∧
      (chainTo 5 3).onePart (some ⟨2, 5, 5, []⟩) (peerWith (idOn 7 5) 6 3) = some synopsis ∧
      SynopsisChain.WellFormed (peerWith (idOn 7 5) 6 3) synopsis := by
  have hvalid : (chainTo 5 3).Valid := ⟨by decide +kernel, fun _ _ h ↦ nomatch h⟩
  have hsummary : (chainTo 5 3).summaryFor (idOn 7 5) = some (some ⟨2, 5, 5, []⟩) := by rfl
  have hids : Consecutive 6 ((peerWith (idOn 7 5) 6 3).idsOfItemsToGet.map ItemHash.num) := by
    decide +kernel
  refine ((SynopsisChain.synopsis_seamless_iff (p := peerWith (idOn 7 5) 6 3) (d := someClient)
    hvalid hsummary hids (by decide +kernel)).2 (by decide +kernel)).2 ?_
  exact ⟨by decide +kernel, by decide +kernel, fun h ↦ absurd h (by decide +kernel)⟩

/-- **Synopses that are not well formed.**  For a list of blocks from 1 on, of which the client has
not seen any: the client has a chain of its own with five blocks, all of which can be undone, so
that the numbers are 1, 5, 1 and 3; it has twenty, of which ten can be undone, so that the list is
read past its end.  And for a list with the last number, at which the node does not stop. -/
theorem synopsis_broken :
    ((peerWith ItemHash.zero 1 3).createBlockchainSynopsis ((chainTo 5 5).delegate someClient)).map
        (Option.map (List.map ItemHash.num)) = some (some [1, 5, 1, 3]) ∧
      (peerWith ItemHash.zero 1 3).createBlockchainSynopsis
        ((chainTo 20 10).delegate someClient) = none ∧
      ∀ synopsis, (peerWith (idOn 7 5) (2 ^ 32 - 1) 1).createBlockchainSynopsis
        ((chainTo 5 5).delegate someClient) ≠ some (some synopsis) := by
  refine ⟨by decide +kernel, by decide +kernel, fun synopsis h ↦ ?_⟩
  obtain ⟨_, _, _, _, -, rfl, hmore, -⟩ :=
    SynopsisChain.exists_parts (c := chainTo 5 5) rfl (by decide +kernel) h
  rw [SynopsisChain.synopsisLoop_of_max (by decide +kernel)] at hmore
  cases hmore

end SynopsisRuns

end Graphene
