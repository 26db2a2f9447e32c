import Mathlib.Data.Finset.Basic
import Mathlib.Data.List.DropRight

/-!
# The peers of a node

What a node keeps about a peer while it synchronizes with it, and what it asks the client.

* `ItemHash`, `ItemId`, `BlockMessage`, `NetMessage` — what is sent around.
* `NodeDelegate` — the client, as it answers at one time.
* `Peer` — the synchronization data of a `peer_connection`.
* `Peer.mergeItemHashes` — what the ids a peer offers do to its list.
* `Peer.createBlockchainSynopsis` — the request for more of them.
-/

set_option autoImplicit false

namespace Graphene

/-! ## Items -/

/-- `item_hash_t`.  The first four bytes of the id of a block are its number. -/
structure ItemHash where
  /-- `get_block_number`. -/
  number : UInt32
  /-- The other sixteen bytes. -/
  rest : BitVec 128
deriving DecidableEq

/-- `item_hash_t()`. -/
def ItemHash.zero : ItemHash := ⟨0, 0⟩

/-- The number of a block. -/
def ItemHash.num (id : ItemHash) : ℕ := id.number.toNat

/-- `trx_message_type`. -/
def trxMessageType : UInt32 := 1000

/-- `block_message_type`. -/
def blockMessageType : UInt32 := 1001

/-- `item_id`. -/
structure ItemId where
  /-- `item_type`. -/
  itemType : UInt32
  /-- `item_hash`. -/
  itemHash : ItemHash
deriving DecidableEq

/-- `block_message`, with what is used of its block. -/
structure BlockMessage where
  /-- `block_id`, as the sender has it. -/
  blockId : ItemHash
  /-- `block.block_num()`. -/
  blockNum : UInt32
  /-- `block.timestamp`. -/
  timestamp : UInt32
deriving DecidableEq

/-- What an item comes as. -/
inductive NetMessage where
  /-- A `block_message`. -/
  | block (block : BlockMessage)
  /-- A `trx_message`. -/
  | trx
deriving DecidableEq

/-- The message as a `block_message`. -/
def NetMessage.block? : NetMessage → Option BlockMessage
  | .block b => some b
  | .trx => none

/-- The client, as it answers at one time. -/
structure NodeDelegate where
  /-- `has_item`. -/
  hasItem : ItemId → Bool
  /-- `get_item`; it fails for an item that is not there. -/
  getItem : ItemId → Option NetMessage
  /-- `get_block_time`. -/
  getBlockTime : ItemHash → UInt32
  /-- `get_blockchain_now`. -/
  getBlockchainNow : UInt32
  /-- `get_block_ids`, of a synopsis; there are none if the peer is on an unreachable fork. -/
  getBlockIds : List ItemHash → List ItemHash
  /-- `get_blockchain_synopsis`; it fails with `block_older_than_undo_history`. -/
  getBlockchainSynopsis : ItemHash → UInt32 → Option (List ItemHash)

/-! ## A peer -/

/-- The data of a `peer_connection` that synchronization uses. -/
structure Peer where
  /-- `ids_of_items_to_get`. -/
  idsOfItemsToGet : List ItemHash := []
  /-- `ids_of_items_being_processed`. -/
  idsOfItemsBeingProcessed : Finset ItemHash := ∅
  /-- `number_of_unfetched_item_ids`. -/
  numberOfUnfetchedItemIds : UInt32 := 0
  /-- `peer_needs_sync_items_from_us`. -/
  peerNeedsSyncItemsFromUs : Bool := true
  /-- `we_need_sync_items_from_peer`. -/
  weNeedSyncItemsFromPeer : Bool := true
  /-- The synopsis of `item_ids_requested_from_peer`. -/
  itemIdsRequestedFromPeer : Option (List ItemHash) := none
  /-- The items of `sync_items_requested_from_peer`. -/
  syncItemsRequestedFromPeer : List ItemId := []
  /-- `last_block_delegate_has_seen`. -/
  lastBlockDelegateHasSeen : ItemHash := ItemHash.zero
  /-- `last_block_time_delegate_has_seen`. -/
  lastBlockTimeDelegateHasSeen : UInt32 := 0
  /-- `inhibit_fetching_sync_blocks`. -/
  inhibitFetchingSyncBlocks : Bool := false
  /-- The items of `inventory_peer_advertised_to_us`. -/
  inventoryPeerAdvertisedToUs : List ItemId := []
  /-- The items of `items_requested_from_peer`. -/
  itemsRequestedFromPeer : List ItemId := []
  /-- `last_known_fork_block_number`. -/
  lastKnownForkBlockNumber : UInt32 := 0

namespace Peer

/-- `idle`. -/
def idle (p : Peer) : Bool :=
  p.itemsRequestedFromPeer.isEmpty && p.syncItemsRequestedFromPeer.isEmpty &&
    p.itemIdsRequestedFromPeer.isNone

/-- The last block of the peer's that the client has seen is `id`. -/
def sawBlock (p : Peer) (id : ItemHash) (time : UInt32) : Peer :=
  { p with lastBlockDelegateHasSeen := id, lastBlockTimeDelegateHasSeen := time }

/-! ## Ids that are offered -/

/-- Take what the client has off the front of the ids that were received. -/
def flushItems (d : NodeDelegate) (itemType : UInt32) (p : Peer) :
    List ItemHash → Peer × List ItemHash
  | [] => (p, [])
  | id :: ids =>
    if d.hasItem ⟨itemType, id⟩ then flushItems d itemType (p.sawBlock id (d.getBlockTime id)) ids
    else (p, id :: ids)

/-- The middle of `on_blockchain_item_ids_inventory_message`: put the ids that were received behind
those that are on the list. -/
def mergeItemHashes (d : NodeDelegate) (itemType : UInt32) (isFirstItemForOtherPeer : Bool)
    (p : Peer) (itemHashesReceived : List ItemHash) : Peer :=
  match itemHashesReceived with
  | [] => p
  | front :: rest =>
    if p.idsOfItemsToGet.isEmpty then
      let (p, left) :=
        if isFirstItemForOtherPeer then (p, front :: rest)
        else flushItems d itemType p (front :: rest)
      { p with idsOfItemsToGet := left }
    else
      -- the ids behind the one that the new list begins with are gone on the peer's chain
      let kept := p.idsOfItemsToGet.rdropWhile (· ≠ front)
      if kept.isEmpty then
        { p.sawBlock front (d.getBlockTime front) with idsOfItemsToGet := rest }
      else { p with idsOfItemsToGet := kept.dropLast ++ front :: rest }

/-! ## Asking for ids -/

/-- The loop of `create_blockchain_synopsis_for_peer`, from `low_block_num` on: of the ids on the
list, which begins with that of block `first`, some up to block `high`.  There is no result if it
reads past the end of the list or does not stop. -/
def synopsisLoop (ids : List ItemHash) (first high : UInt32) :
    ℕ → UInt32 → Option (List ItemHash)
  | 0, _ => none
  | fuel + 1, low => do
    let here ← if first ≤ low then (ids[(low - first).toNat]?).map ([·]) else some []
    let low' := low + (high - low + 2) / 2
    if low' ≤ high then
      let more ← synopsisLoop ids first high fuel low'
      return here ++ more
    else
      return here

/-- `create_blockchain_synopsis_for_peer`: it may have no result, and may fail. -/
def createBlockchainSynopsis (d : NodeDelegate) (p : Peer) : Option (Option (List ItemHash)) :=
  let numberOfBlocksAfterReferencePoint := UInt32.ofNat p.idsOfItemsToGet.length
  match d.getBlockchainSynopsis p.lastBlockDelegateHasSeen numberOfBlocksAfterReferencePoint with
  | none => some none
  | some synopsis =>
    if numberOfBlocksAfterReferencePoint = 0 then some (some synopsis)
    else do
      let front ← p.idsOfItemsToGet.head?
      let high := front.number + numberOfBlocksAfterReferencePoint - 1
      let low := (synopsis.head?.map ItemHash.number).getD 1
      let more ← synopsisLoop p.idsOfItemsToGet front.number high (high.toNat + 1) low
      return some (synopsis ++ more)

/-- For an empty list there is only the part of the client. -/
theorem createBlockchainSynopsis_of_isEmpty (d : NodeDelegate) {p : Peer}
    (h : p.idsOfItemsToGet = []) :
    p.createBlockchainSynopsis d = some (d.getBlockchainSynopsis p.lastBlockDelegateHasSeen 0) := by
  have hzero : UInt32.ofNat p.idsOfItemsToGet.length = 0 := by rw [h]; rfl
  simp only [createBlockchainSynopsis, hzero]
  cases d.getBlockchainSynopsis p.lastBlockDelegateHasSeen 0 <;> rfl

end Peer

end Graphene
