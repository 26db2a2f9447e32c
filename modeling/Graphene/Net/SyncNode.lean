import Graphene.Net.Peer
import Mathlib.Data.Finset.Insert
import Mathlib.Data.Finset.Lattice.Lemmas

/-!
# A node that synchronizes

The handlers of a node that have to do with synchronization.  A handler runs from start to end, but
for the time in which the client has a block: what comes of that is a `HandleBlock`, in an event of
its own.  All else the client answers at once, as a `NodeDelegate`.  Where a handler reads past the
end of a list it has no result.

* `SyncNode` — the state of the node.
* `SyncNode.onBlockchainItemIdsInventory`, `SyncNode.onFetchBlockchainItemIds` — a peer says which
  blocks it has, and asks which there are.
* `SyncNode.onFetchItems` — a peer asks for items.
* `SyncNode.processBlockMessage` — a peer sends a block, for the chain or for synchronization.
* `SyncNode.handledNormalBlock` — the client is done with a block for the chain.
* `SyncNode.processBacklogOfSyncBlocks`, `SyncNode.sendSyncBlockToNodeDelegate` — blocks are handed
  to the client, and the client is done with one.
* `SyncNode.backlogRounds_eq` — as many rounds as there are blocks are enough for the backlog.
* `SyncEvent`, `SyncNode.step` — all that can happen.
-/

set_option autoImplicit false

namespace Graphene

/-- A peer. -/
abbrev PeerId := ℕ

/-- `GRAPHENE_NET_FUTURE_SYNC_BLOCKS_GRACE_PERIOD_SEC`. -/
def futureSyncBlocksGracePeriod : UInt32 := 60 * 60

/-- `GRAPHENE_NET_MIN_BLOCK_IDS_TO_PREFETCH`. -/
def minBlockIdsToPrefetch : ℕ := 10000

/-- `GRAPHENE_MIN_BLOCK_INTERVAL`. -/
def netMinBlockInterval : UInt32 := 1

/-- `GRAPHENE_NET_MESSAGE_CACHE_DURATION_IN_BLOCKS`. -/
def messageCacheDurationInBlocks : UInt32 := 5

/-- What comes of `handle_block`. -/
inductive HandleBlock where
  /-- It returns. -/
  | accepted
  /-- `unlinkable_block_exception`. -/
  | unlinkable
  /-- `block_older_than_undo_history`. -/
  | olderThanUndoHistory
  /-- Any other exception. -/
  | rejected
deriving DecidableEq

/-- A block that was handed to the client, in a task of its own. -/
structure HandleMessageCall where
  /-- The block. -/
  block : BlockMessage
  /-- The task is over. -/
  ready : Bool
deriving DecidableEq

/-- A block of normal operation that was handed to the client. -/
structure NormalBlock where
  /-- The peer it came from. -/
  originatingPeer : PeerId
  /-- The hash of its message. -/
  messageHash : ItemHash
  /-- The block. -/
  block : BlockMessage
deriving DecidableEq

/-- An entry of the message cache. -/
structure CachedMessage where
  /-- `message_hash`. -/
  messageHash : ItemHash
  /-- `message_body`. -/
  messageBody : NetMessage
  /-- `block_clock_when_received`. -/
  blockClock : UInt32
deriving DecidableEq

/-- The part of a `node_impl` that synchronization uses. -/
structure SyncNode where
  /-- The data of each peer. -/
  peer : PeerId → Peer
  /-- `_handshaking_connections`. -/
  handshakingConnections : List PeerId := []
  /-- `_active_connections`. -/
  activeConnections : List PeerId := []
  /-- `_closing_connections`. -/
  closingConnections : List PeerId := []
  /-- `_terminating_connections`. -/
  terminatingConnections : List PeerId := []
  /-- `_active_sync_requests`. -/
  activeSyncRequests : Finset ItemHash := ∅
  /-- `_new_received_sync_items`. -/
  newReceivedSyncItems : List BlockMessage := []
  /-- `_received_sync_items`. -/
  receivedSyncItems : List BlockMessage := []
  /-- `_suspend_fetching_sync_blocks`. -/
  suspendFetchingSyncBlocks : Bool := false
  /-- `_handle_message_calls_in_progress`. -/
  handleMessageCallsInProgress : List HandleMessageCall := []
  /-- The handlers of blocks in normal operation that wait for the client. -/
  normalBlocksInProgress : List NormalBlock := []
  /-- `_most_recent_blocks_accepted`, the last one at the end. -/
  mostRecentBlocksAccepted : List ItemHash := []
  /-- `_total_number_of_unfetched_items`. -/
  totalNumberOfUnfetchedItems : UInt32 := 0
  /-- `_hard_fork_block_numbers`. -/
  hardForkBlockNumbers : List UInt32 := []
  /-- `_message_cache`. -/
  messageCache : List CachedMessage := []
  /-- `block_clock`. -/
  blockClock : UInt32 := 0
  /-- `_maximum_number_of_connections`. -/
  maximumNumberOfConnections : ℕ := 200
  /-- `_maximum_number_of_blocks_to_handle_at_one_time`. -/
  maximumNumberOfBlocksToHandleAtOneTime : ℕ := 200
  /-- `_maximum_number_of_sync_blocks_to_prefetch`. -/
  maximumNumberOfSyncBlocksToPrefetch : ℕ := 2000
  /-- `_maximum_blocks_per_peer_during_syncing`. -/
  maximumBlocksPerPeerDuringSyncing : ℕ := 200

namespace SyncNode

/-! ## Peers -/

/-- Change what there is about a peer. -/
def modifyPeer (s : SyncNode) (i : PeerId) (f : Peer → Peer) : SyncNode :=
  { s with peer := Function.update s.peer i (f (s.peer i)) }

@[simp] theorem modifyPeer_self (s : SyncNode) (i : PeerId) (f : Peer → Peer) :
    (s.modifyPeer i f).peer i = f (s.peer i) := Function.update_self ..

theorem modifyPeer_of_ne (s : SyncNode) {i j : PeerId} (h : j ≠ i) (f : Peer → Peer) :
    (s.modifyPeer i f).peer j = s.peer j := Function.update_of_ne h ..

/-- Go through the active peers. -/
def modifyActive (s : SyncNode) (f : Peer → Peer) : SyncNode :=
  { s with peer := fun i ↦ if i ∈ s.activeConnections then f (s.peer i) else s.peer i }

theorem modifyActive_of_mem {s : SyncNode} {i : PeerId} (h : i ∈ s.activeConnections)
    (f : Peer → Peer) : (s.modifyActive f).peer i = f (s.peer i) := if_pos h

theorem modifyActive_of_notMem {s : SyncNode} {i : PeerId} (h : i ∉ s.activeConnections)
    (f : Peer → Peer) : (s.modifyActive f).peer i = s.peer i := if_neg h

/-- The connections that are not closed. -/
def connections (s : SyncNode) : List PeerId :=
  s.handshakingConnections ++ s.activeConnections ++ s.closingConnections ++
    s.terminatingConnections

/-- Take some peers off all the lists of connections. -/
def dropConnections (s : SyncNode) (peers : List PeerId) : SyncNode :=
  { s with
    handshakingConnections := s.handshakingConnections.filter (· ∉ peers)
    activeConnections := s.activeConnections.filter (· ∉ peers)
    closingConnections := s.closingConnections.filter (· ∉ peers)
    terminatingConnections := s.terminatingConnections.filter (· ∉ peers) }

/-- `move_peer_to_active_list`. -/
def movePeerToActiveList (s : SyncNode) (i : PeerId) : SyncNode :=
  { s.dropConnections [i] with
    activeConnections := (s.dropConnections [i]).activeConnections ++ [i] }

/-- `move_peer_to_terminating_list`. -/
def movePeerToTerminatingList (s : SyncNode) (i : PeerId) : SyncNode :=
  { s.dropConnections [i] with
    terminatingConnections := (s.dropConnections [i]).terminatingConnections ++ [i] }

/-- `disconnect_from_peer`, for each of some peers: they go to the closing list. -/
def disconnect (s : SyncNode) (peers : List PeerId) : SyncNode :=
  { s.dropConnections peers with
    closingConnections := (s.dropConnections peers).closingConnections ++ peers }

/-- `on_connection_closed`. -/
def onConnectionClosed (s : SyncNode) (i : PeerId) : SyncNode :=
  { s.dropConnections [i] with
    activeSyncRequests := s.activeSyncRequests.filter fun id ↦
      id ∉ (s.peer i).syncItemsRequestedFromPeer.map ItemId.itemHash }

/-- `calculate_unsynced_block_count_from_all_peers`. -/
def calculateUnsyncedBlockCountFromAllPeers (s : SyncNode) : UInt32 :=
  (s.activeConnections.map fun i ↦
    UInt32.ofNat (s.peer i).idsOfItemsToGet.length + (s.peer i).numberOfUnfetchedItemIds).foldl
      max 0

/-- Count what is left to be fetched. -/
def countUnfetchedItems (s : SyncNode) : SyncNode :=
  { s with totalNumberOfUnfetchedItems := s.calculateUnsyncedBlockCountFromAllPeers }

/-- `_most_recent_blocks_accepted.push_back`, on a circular buffer. -/
def acceptedBlock (s : SyncNode) (id : ItemHash) : SyncNode :=
  { s with
    mostRecentBlocksAccepted := (s.mostRecentBlocksAccepted ++ [id]).drop
      (s.mostRecentBlocksAccepted.length + 1 - s.maximumNumberOfConnections) }

/-- `fetch_next_batch_of_item_ids_from_peer`. -/
def fetchNextBatchOfItemIdsFromPeer (s : SyncNode) (d : NodeDelegate) (i : PeerId) :
    Option SyncNode :=
  ((s.peer i).createBlockchainSynopsis d).map fun
    | none => s.disconnect [i]
    | some synopsis =>
      s.modifyPeer i fun p ↦ { p with itemIdsRequestedFromPeer := some synopsis }

/-- `start_synchronizing_with_peer`. -/
def startSynchronizingWithPeer (s : SyncNode) (d : NodeDelegate) (i : PeerId) :
    Option SyncNode :=
  (s.modifyPeer i fun p ↦
    { p.sawBlock ItemHash.zero (d.getBlockTime ItemHash.zero) with
      idsOfItemsToGet := []
      numberOfUnfetchedItemIds := 0
      weNeedSyncItemsFromPeer := true
      inhibitFetchingSyncBlocks := false }).fetchNextBatchOfItemIdsFromPeer d i

/-- The software of a peer is older than the hard fork of a block, which is the last one known. -/
def isOutdated (s : SyncNode) (blockNum : UInt32) (p : Peer) : Bool :=
  let nextForkBlockNumber :=
    (s.hardForkBlockNumbers.find? (p.lastKnownForkBlockNumber < ·)).getD 0
  blockNum ∈ s.hardForkBlockNumbers && p.lastKnownForkBlockNumber != 0 &&
    nextForkBlockNumber != 0 && nextForkBlockNumber ≤ blockNum

/-! ## Messages about ids -/

/-- `blockchain_item_ids_inventory_message`. -/
structure Inventory where
  /-- `total_remaining_item_count`. -/
  totalRemainingItemCount : UInt32
  /-- `item_type`. -/
  itemType : UInt32
  /-- `item_hashes_available`. -/
  itemHashesAvailable : List ItemHash

/-- The peer has no items behind those we know it to have. -/
def hasNoMoreItems (d : NodeDelegate) (p : Peer) (m : Inventory) : Bool :=
  m.totalRemainingItemCount = 0 &&
    (m.itemHashesAvailable.isEmpty ||
      (m.itemHashesAvailable.length = 1 &&
        m.itemHashesAvailable.all fun id ↦ d.hasItem ⟨m.itemType, id⟩)) &&
    p.idsOfItemsToGet.isEmpty && p.numberOfUnfetchedItemIds = 0

/-- The reply is one to the request that was sent: consecutive blocks, from one of the synopsis on
or from the first one. -/
def isValidResponse (synopsisSentInRequest itemHashesAvailable : List ItemHash) : Bool :=
  match itemHashesAvailable with
  | [] => true
  | first :: _ =>
    (itemHashesAvailable.zipIdx.all fun x ↦ x.1.number = first.number + UInt32.ofNat x.2) &&
      if synopsisSentInRequest.isEmpty then first.number = 1 else first ∈ synopsisSentInRequest

/-- The item is the first one on the list of another peer. -/
def isFirstItemForOtherPeer (s : SyncNode) (i : PeerId) (id : ItemHash) : Bool :=
  s.activeConnections.any fun j ↦ j ≠ i ∧ (s.peer j).idsOfItemsToGet.head? = some id

/-- The end of `on_blockchain_item_ids_inventory_message`, once the ids are on the list. -/
def afterInventory (s : SyncNode) (d : NodeDelegate) (i : PeerId) (m : Inventory) :
    Option SyncNode :=
  let p := s.peer i
  let minimumTimeOfLastOfferedBlock :=
    p.lastBlockTimeDelegateHasSeen + p.numberOfUnfetchedItemIds * netMinBlockInterval
  if d.getBlockchainNow + futureSyncBlocksGracePeriod < minimumTimeOfLastOfferedBlock then
    some (s.disconnect [i])
  else if m.totalRemainingItemCount ≠ 0 then
    if minBlockIdsToPrefetch < p.idsOfItemsToGet.length then some s.countUnfetchedItems
    else s.countUnfetchedItems.fetchNextBatchOfItemIdsFromPeer d i
  else if !p.idsOfItemsToGet.isEmpty then some s.countUnfetchedItems
  else s.countUnfetchedItems.fetchNextBatchOfItemIdsFromPeer d i

/-- The middle of `on_blockchain_item_ids_inventory_message`, for a reply that is valid. -/
def acceptInventory (s : SyncNode) (d : NodeDelegate) (i : PeerId) (m : Inventory) :
    Option SyncNode :=
  if hasNoMoreItems d (s.peer i) m then
    -- nothing is left to synchronize with this peer
    some (s.modifyPeer i fun p ↦ { p with weNeedSyncItemsFromPeer := false }).countUnfetchedItems
  else
    (s.modifyPeer i fun p ↦
      { p.mergeItemHashes d m.itemType
          (m.itemHashesAvailable.head?.any (s.isFirstItemForOtherPeer i)) m.itemHashesAvailable with
        numberOfUnfetchedItemIds := m.totalRemainingItemCount }).afterInventory d i m

/-- `on_blockchain_item_ids_inventory_message`. -/
def onBlockchainItemIdsInventory (s : SyncNode) (d : NodeDelegate) (i : PeerId) (m : Inventory) :
    Option SyncNode :=
  match (s.peer i).itemIdsRequestedFromPeer with
  | none => some s
  | some synopsis =>
    if !isValidResponse synopsis m.itemHashesAvailable then some (s.disconnect [i])
    else (s.modifyPeer i fun p ↦ { p with itemIdsRequestedFromPeer := none }).acceptInventory d i m

/-- `fetch_blockchain_item_ids_message`. -/
structure FetchItemIds where
  /-- `item_type`. -/
  itemType : UInt32
  /-- `blockchain_synopsis`. -/
  blockchainSynopsis : List ItemHash

/-- The last item the peer has is the last one of the client's. -/
def hasAllItems (d : NodeDelegate) (m : FetchItemIds) : Bool :=
  (d.getBlockIds m.blockchainSynopsis).length = 1 &&
    (d.getBlockIds m.blockchainSynopsis).all (· ∈ m.blockchainSynopsis)

/-- The client does not have the last item the peer has, and the peer was taken to be in sync. -/
def restartsSync (d : NodeDelegate) (p : Peer) (m : FetchItemIds) : Bool :=
  !p.weNeedSyncItemsFromPeer &&
    m.blockchainSynopsis.getLast?.any fun id ↦ !d.hasItem ⟨m.itemType, id⟩

/-- Note whether a peer needs items from us. -/
def noteItemsNeeded (s : SyncNode) (d : NodeDelegate) (i : PeerId) (m : FetchItemIds) : SyncNode :=
  s.modifyPeer i fun p ↦
    { p with
      peerNeedsSyncItemsFromUs :=
        !((d.getBlockIds m.blockchainSynopsis).isEmpty || hasAllItems d m) }

/-- `on_fetch_blockchain_item_ids_message`, up to where it ends the handshake. -/
def onFetchBlockchainItemIds (s : SyncNode) (d : NodeDelegate) (i : PeerId) (m : FetchItemIds) :
    Option SyncNode :=
  (if restartsSync d (s.peer i) m then (s.noteItemsNeeded d i m).startSynchronizingWithPeer d i
    else some (s.noteItemsNeeded d i m)).map fun s' ↦
    if hasAllItems d m && (s.peer i).inhibitFetchingSyncBlocks then s'.disconnect [i] else s'

/-! ## Messages about items -/

/-- `fetch_items_message`. -/
structure FetchItems where
  /-- `item_type`. -/
  itemType : UInt32
  /-- `items_to_fetch`. -/
  itemsToFetch : List ItemHash

/-- The message for an item: that of the cache, or what the client has. -/
def getMessageForItem (s : SyncNode) (d : NodeDelegate) (item : ItemId) : Option NetMessage :=
  ((s.messageCache.find? (·.messageHash = item.itemHash)).map CachedMessage.messageBody).or
    (d.getItem item)

/-- The messages that are sent for the items of a request. -/
def messagesFor (s : SyncNode) (d : NodeDelegate) (m : FetchItems) : List NetMessage :=
  m.itemsToFetch.filterMap fun id ↦ s.getMessageForItem d ⟨m.itemType, id⟩

/-- `on_fetch_items_message`.  The handler fails if it takes for a block what is none, and that
closes the connection. -/
def onFetchItems (s : SyncNode) (d : NodeDelegate) (i : PeerId) (m : FetchItems) : SyncNode :=
  let lastBlockMessageSent :=
    if m.itemType = blockMessageType then (s.messagesFor d m).getLast? else none
  match lastBlockMessageSent with
  | none => s
  | some .trx => s.onConnectionClosed i
  | some (.block b) => s.modifyPeer i fun p ↦ p.sawBlock b.blockId (d.getBlockTime b.blockId)

/-! ## Blocks for the chain -/

/-- `broadcast`. -/
def broadcast (s : SyncNode) (messageHash : ItemHash) (b : BlockMessage) : SyncNode :=
  { s.acceptedBlock b.blockId with
    messageCache :=
      if s.messageCache.any (·.messageHash = messageHash) then s.messageCache
      else s.messageCache ++ [⟨messageHash, .block b, s.blockClock⟩] }

/-- `block_accepted` of the message cache. -/
def ageMessageCache (s : SyncNode) : SyncNode :=
  let blockClock := s.blockClock + 1
  { s with
    blockClock
    messageCache :=
      if messageCacheDurationInBlocks < blockClock then
        s.messageCache.filter fun c ↦ blockClock - messageCacheDurationInBlocks ≤ c.blockClock
      else s.messageCache }

/-- The rest of `process_block_during_normal_operation`, once the client has said what comes of the
block. -/
def finishNormalBlock (s : SyncNode) (d : NodeDelegate) (x : NormalBlock) (outcome : HandleBlock) :
    Option SyncNode :=
  match outcome with
  | .accepted =>
    let s := s.modifyActive fun p ↦
      if ⟨blockMessageType, x.messageHash⟩ ∈ p.inventoryPeerAdvertisedToUs then
        p.sawBlock x.block.blockId x.block.timestamp
      else p
    let s := (s.broadcast x.messageHash x.block).ageMessageCache
    some (s.disconnect (s.activeConnections.filter fun j ↦
      s.isOutdated x.block.blockNum (s.peer j)))
  | .unlinkable => s.startSynchronizingWithPeer d x.originatingPeer
  | .olderThanUndoHistory | .rejected =>
    some (s.disconnect (x.originatingPeer :: s.activeConnections.filter fun j ↦
      j ≠ x.originatingPeer ∧ (s.peer j).idsOfItemsToGet.head? = some x.block.blockId))

/-- `process_block_during_normal_operation`: a block that is new is handed to the client, whose
answer the handler waits for. -/
def processBlockDuringNormalOperation (s : SyncNode) (d : NodeDelegate) (x : NormalBlock) :
    Option SyncNode :=
  if x.block.blockId ∈ s.mostRecentBlocksAccepted then s.finishNormalBlock d x .accepted
  else some { s with normalBlocksInProgress := s.normalBlocksInProgress ++ [x] }

/-- The client is done with a block of normal operation. -/
def handledNormalBlock (s : SyncNode) (d : NodeDelegate) (n : ℕ) (outcome : HandleBlock) :
    Option SyncNode := do
  let x ← s.normalBlocksInProgress[n]?
  let s := { s with normalBlocksInProgress := s.normalBlocksInProgress.eraseIdx n }
  if outcome = .accepted then (s.acceptedBlock x.block.blockId).finishNormalBlock d x outcome
  else s.finishNormalBlock d x outcome

/-- `process_block_message`: a block that is not asked for closes the connection. -/
def processBlockMessage (s : SyncNode) (d : NodeDelegate) (i : PeerId) (messageHash : ItemHash)
    (b : BlockMessage) : Option SyncNode :=
  if ⟨blockMessageType, messageHash⟩ ∈ (s.peer i).itemsRequestedFromPeer then
    let s := s.modifyPeer i fun p ↦
      { p with
        itemsRequestedFromPeer :=
          p.itemsRequestedFromPeer.filter (· ≠ ⟨blockMessageType, messageHash⟩) }
    s.processBlockDuringNormalOperation d ⟨i, messageHash, b⟩
  else if ⟨blockMessageType, b.blockId⟩ ∈ (s.peer i).syncItemsRequestedFromPeer then
    let s := s.modifyPeer i fun p ↦
      { p with
        syncItemsRequestedFromPeer :=
          p.syncItemsRequestedFromPeer.filter (· ≠ ⟨blockMessageType, b.blockId⟩) }
    -- `process_block_during_sync`
    let s := { s with
      activeSyncRequests := s.activeSyncRequests.erase b.blockId
      newReceivedSyncItems := b :: s.newReceivedSyncItems }
    if (s.peer i).idle ∧ (s.peer i).numberOfUnfetchedItemIds ≠ 0 ∧
        (s.peer i).idsOfItemsToGet.length < minBlockIdsToPrefetch then
      s.fetchNextBatchOfItemIdsFromPeer d i
    else some s
  else some (s.disconnect [i])

/-- `on_item_not_available_message`. -/
def onItemNotAvailable (s : SyncNode) (i : PeerId) (requestedItem : ItemId) : SyncNode :=
  if requestedItem ∈ (s.peer i).itemsRequestedFromPeer then
    s.modifyPeer i fun p ↦
      { p with
        itemsRequestedFromPeer := p.itemsRequestedFromPeer.filter (· ≠ requestedItem)
        inventoryPeerAdvertisedToUs := p.inventoryPeerAdvertisedToUs.filter (· ≠ requestedItem) }
  else if requestedItem ∈ (s.peer i).syncItemsRequestedFromPeer then
    let s := s.modifyPeer i fun p ↦
      { p with
        syncItemsRequestedFromPeer :=
          p.syncItemsRequestedFromPeer.filter (· ≠ requestedItem) }
    if (s.peer i).peerNeedsSyncItemsFromUs then
      s.modifyPeer i fun p ↦ { p with inhibitFetchingSyncBlocks := true }
    else s.disconnect [i]
  else s

/-! ## Blocks of synchronization -/

/-- Some active peer's list begins with the item. -/
def isPotentialFirstBlock (s : SyncNode) (id : ItemHash) : Bool :=
  s.activeConnections.any fun i ↦ (s.peer i).idsOfItemsToGet.head? = some id

/-- Take an item that a list begins with, to process it. -/
def popFirst (id : ItemHash) (p : Peer) : Peer :=
  if p.idsOfItemsToGet.head? = some id then
    { p with
      idsOfItemsToGet := p.idsOfItemsToGet.tail
      idsOfItemsBeingProcessed := insert id p.idsOfItemsBeingProcessed }
  else p

/-- What has been received, with the new items in front. -/
def collectSyncItems (s : SyncNode) : SyncNode :=
  { s with
    receivedSyncItems := s.newReceivedSyncItems.reverse ++ s.receivedSyncItems
    newReceivedSyncItems := [] }

/-- One round of `process_backlog_of_sync_blocks`: the first of the received blocks that a list
begins with is handed to the client, unless it has been accepted already. -/
def backlogRound (s : SyncNode) : SyncNode × Bool :=
  let s := s.collectSyncItems
  match s.receivedSyncItems.find? fun b ↦ s.isPotentialFirstBlock b.blockId with
  | none => (s, false)
  | some b =>
    let s' := s.modifyActive (popFirst b.blockId)
    if b.blockId ∈ s.mostRecentBlocksAccepted then (s', false)
    else
      ({ s' with
        receivedSyncItems := s.receivedSyncItems.eraseP fun b ↦ s.isPotentialFirstBlock b.blockId
        handleMessageCallsInProgress := s.handleMessageCallsInProgress ++ [⟨b, false⟩] }, true)

/-- The rounds of `process_backlog_of_sync_blocks`. -/
def backlogRounds : ℕ → SyncNode → SyncNode
  | 0, s => s
  | fuel + 1, s =>
    let (s, blockProcessedThisIteration) := s.backlogRound
    if s.maximumNumberOfBlocksToHandleAtOneTime ≤ s.handleMessageCallsInProgress.length then
      if s.maximumNumberOfSyncBlocksToPrefetch ≤ s.receivedSyncItems.length then
        { s with suspendFetchingSyncBlocks := true }
      else s
    else if blockProcessedThisIteration then backlogRounds fuel s
    else s

/-- A round that hands a block to the client takes it off what was received. -/
theorem backlogRound_length {s : SyncNode} (h : s.backlogRound.2 = true) :
    s.backlogRound.1.newReceivedSyncItems.length + s.backlogRound.1.receivedSyncItems.length + 1 =
      s.newReceivedSyncItems.length + s.receivedSyncItems.length := by
  have hlength : s.collectSyncItems.receivedSyncItems.length =
      s.newReceivedSyncItems.length + s.receivedSyncItems.length := by
    simp [collectSyncItems]
  rw [backlogRound] at h ⊢
  dsimp only at h ⊢
  split at h
  next => cases h
  next b hfind =>
    have hmem := List.mem_of_find?_eq_some hfind
    have hfirst := List.find?_some hfind
    have hpos := List.length_pos_of_mem hmem
    split_ifs at h with haccepted
    rw [if_neg haccepted, List.length_eraseP_of_mem hmem hfirst, hlength]
    rw [hlength] at hpos
    change 0 + _ + 1 = _
    omega

/-- There are no more rounds than blocks that were received, and one. -/
theorem backlogRounds_eq {s : SyncNode} {m n : ℕ}
    (hm : s.newReceivedSyncItems.length + s.receivedSyncItems.length < m)
    (hn : s.newReceivedSyncItems.length + s.receivedSyncItems.length < n) :
    backlogRounds m s = backlogRounds n s := by
  induction m generalizing s n with
  | zero => exact absurd hm (Nat.not_lt_zero _)
  | succ m ih =>
    obtain ⟨n, rfl⟩ := Nat.exists_eq_succ_of_ne_zero (Nat.ne_zero_of_lt hn)
    rw [backlogRounds, backlogRounds]
    dsimp only
    split_ifs with hfull hprefetch hprocessed
    · rfl
    · rfl
    · have hlength := backlogRound_length hprocessed
      exact ih (by omega) (by omega)
    · rfl

/-- `process_backlog_of_sync_blocks`. -/
def processBacklogOfSyncBlocks (s : SyncNode) : SyncNode :=
  let s := { s with
    handleMessageCallsInProgress := s.handleMessageCallsInProgress.filter (!·.ready) }
  if s.maximumNumberOfBlocksToHandleAtOneTime ≤ s.handleMessageCallsInProgress.length then s
  else
    backlogRounds (s.newReceivedSyncItems.length + s.receivedSyncItems.length + 1)
      { s with suspendFetchingSyncBlocks := false }

/-- The task of the call that is the `n`th of those that are not over, is over. -/
def finishCall : ℕ → List HandleMessageCall → Option (BlockMessage × List HandleMessageCall)
  | _, [] => none
  | n, c :: calls =>
    if c.ready then (finishCall n calls).map fun x ↦ (x.1, c :: x.2)
    else
      match n with
      | 0 => some (c.block, { c with ready := true } :: calls)
      | n + 1 => (finishCall n calls).map fun x ↦ (x.1, c :: x.2)

/-- The blocks that were handed to the client, and that it is not done with. -/
def inProgress (s : SyncNode) : List ItemHash :=
  (s.handleMessageCallsInProgress.filter (!·.ready)).map fun c ↦ c.block.blockId

theorem inProgress_concat {s s' : SyncNode} {b : BlockMessage}
    (h : s'.handleMessageCallsInProgress = s.handleMessageCallsInProgress ++ [⟨b, false⟩]) :
    s'.inProgress = s.inProgress ++ [b.blockId] := by
  simp [inProgress, h]

/-- The client is done with a block that a peer's list began with. -/
def finishProcessing (b : BlockMessage) (p : Peer) : Peer :=
  if b.blockId ∈ p.idsOfItemsBeingProcessed then
    { p.sawBlock b.blockId b.timestamp with
      idsOfItemsBeingProcessed := p.idsOfItemsBeingProcessed.erase b.blockId }
  else p

/-- What `send_sync_block_to_node_delegate` does when the client has accepted the block. -/
def acceptedSyncBlock (s : SyncNode) (d : NodeDelegate) (b : BlockMessage) : Option SyncNode :=
  let s := s.acceptedBlock b.blockId
  let s := { s with totalNumberOfUnfetchedItems := s.totalNumberOfUnfetchedItems - 1 }
  let outdated := s.activeConnections.filter fun i ↦ s.isOutdated b.blockNum (s.peer i)
  let s := s.disconnect outdated
  let peersWeNeedToSyncTo := s.activeConnections.filter fun i ↦
    (s.peer i).idsOfItemsToGet.isEmpty ∧ (s.peer i).idsOfItemsBeingProcessed = ∅ ∧
      !(s.peer i).peerNeedsSyncItemsFromUs ∧ !(s.peer i).weNeedSyncItemsFromPeer
  let peersWithNewlyEmptyItemLists := s.activeConnections.filter fun i ↦
    b.blockId ∈ (s.peer i).idsOfItemsBeingProcessed ∧ (s.peer i).idsOfItemsToGet.isEmpty ∧
      (s.peer i).numberOfUnfetchedItemIds = 0 ∧
      (s.peer i).idsOfItemsBeingProcessed.erase b.blockId = ∅
  do
    let s ← peersWithNewlyEmptyItemLists.foldlM (·.fetchNextBatchOfItemIdsFromPeer d)
      (s.modifyActive (finishProcessing b))
    peersWeNeedToSyncTo.foldlM (·.startSynchronizingWithPeer d) s

/-- What it does when the client has not accepted the block. -/
def refusedSyncBlock (s : SyncNode) (b : BlockMessage) (outcome : HandleBlock) : SyncNode :=
  if outcome = .olderThanUndoHistory then
    s.modifyActive fun p ↦
      if b.blockId ∈ p.idsOfItemsBeingProcessed then { p with inhibitFetchingSyncBlocks := true }
      else p
  else
    s.disconnect (s.activeConnections.filter fun i ↦
      b.blockId ∈ (s.peer i).idsOfItemsBeingProcessed)

/-- The rest of `send_sync_block_to_node_delegate`, for the `n`th of the blocks that the client is
not done with: it is done with it. -/
def sendSyncBlockToNodeDelegate (s : SyncNode) (d : NodeDelegate) (n : ℕ) (outcome : HandleBlock) :
    Option SyncNode := do
  let (b, calls) ← finishCall n s.handleMessageCallsInProgress
  let s := { s with handleMessageCallsInProgress := calls }
  if outcome = .accepted then s.acceptedSyncBlock d b else return s.refusedSyncBlock b outcome

/-! ## Asking for blocks -/

/-- `have_already_received_sync_item`. -/
def haveAlreadyReceivedSyncItem (s : SyncNode) (id : ItemHash) : Bool :=
  (s.receivedSyncItems ++ s.newReceivedSyncItems).any (·.blockId = id)

/-- The blocks to ask a peer for: `mine` and those of its list that nobody has been asked for. -/
def chooseSyncItems (s : SyncNode) (syncItemsToRequest : List ItemHash) :
    List ItemHash → List ItemHash → List ItemHash
  | [], mine => mine
  | id :: ids, mine =>
    if s.haveAlreadyReceivedSyncItem id ∨ id ∈ syncItemsToRequest ++ mine ∨
        id ∈ s.activeSyncRequests then
      chooseSyncItems s syncItemsToRequest ids mine
    else if s.maximumBlocksPerPeerDuringSyncing ≤ mine.length + 1 then mine ++ [id]
    else chooseSyncItems s syncItemsToRequest ids (mine ++ [id])

/-- `request_sync_items_from_peer`. -/
def requestSyncItemsFromPeer (s : SyncNode) (i : PeerId) (items : List ItemHash) : SyncNode :=
  { s.modifyPeer i fun p ↦
      { p with
        syncItemsRequestedFromPeer :=
          p.syncItemsRequestedFromPeer ++ items.map (⟨blockMessageType, ·⟩) } with
    activeSyncRequests := s.activeSyncRequests ∪ items.toFinset }

/-- The requests of a round of `fetch_sync_items_loop`. -/
def syncItemRequestsToSend (s : SyncNode) : List (PeerId × List ItemHash) :=
  s.activeConnections.foldl (fun requests i ↦
    if (s.peer i).weNeedSyncItemsFromPeer ∧ (s.peer i).idle ∧
        !(s.peer i).inhibitFetchingSyncBlocks then
      requests ++ [(i, s.chooseSyncItems (requests.flatMap Prod.snd)
        (s.peer i).idsOfItemsToGet [])]
    else requests) []

/-- A round of `fetch_sync_items_loop`. -/
def fetchSyncItems (s : SyncNode) : SyncNode :=
  if s.suspendFetchingSyncBlocks then s
  else s.syncItemRequestsToSend.foldl (fun s x ↦ s.requestSyncItemsFromPeer x.1 x.2) s

end SyncNode

/-! ## Events -/

/-- Something that happens. -/
inductive SyncEvent where
  /-- A connection is made. -/
  | newConnection (i : PeerId)
  /-- A peer is done with the handshake. -/
  | newPeerJustAdded (d : NodeDelegate) (i : PeerId)
  /-- A peer asks for ids. -/
  | fetchItemIds (d : NodeDelegate) (i : PeerId) (m : SyncNode.FetchItemIds)
  /-- A peer replies with ids. -/
  | inventory (d : NodeDelegate) (i : PeerId) (m : SyncNode.Inventory)
  /-- A peer asks for items. -/
  | fetchItems (d : NodeDelegate) (i : PeerId) (m : SyncNode.FetchItems)
  /-- A peer sends a block. -/
  | block (d : NodeDelegate) (i : PeerId) (messageHash : ItemHash) (b : BlockMessage)
  /-- A peer does not have an item. -/
  | itemNotAvailable (i : PeerId) (requestedItem : ItemId)
  /-- The client is done with a block of normal operation. -/
  | handledNormal (d : NodeDelegate) (n : ℕ) (outcome : HandleBlock)
  /-- The backlog is processed. -/
  | backlog
  /-- The client is done with a block of synchronization. -/
  | handled (d : NodeDelegate) (n : ℕ) (outcome : HandleBlock)
  /-- Blocks are asked for. -/
  | fetchSyncItems
  /-- A peer does not answer in time. -/
  | timeout (i : PeerId)
  /-- A connection is closed. -/
  | connectionClosed (i : PeerId)
  /-- The client broadcasts a block of its own. -/
  | broadcast (messageHash : ItemHash) (b : BlockMessage)
  /-- What a peer advertises, and what it is asked for in normal operation, is another. -/
  | elsewhere (i : PeerId) (advertised requested : List ItemId)

/-- The connection to a peer is open, and no handler of one of its messages waits. -/
def SyncNode.isListening (s : SyncNode) (i : PeerId) : Bool :=
  i ∈ s.connections && s.normalBlocksInProgress.all (·.originatingPeer ≠ i)

/-- What an event does.  Messages come from peers that are connected, one after the other. -/
def SyncNode.step (s : SyncNode) : SyncEvent → Option SyncNode
  | .newConnection i =>
    if i ∈ s.connections then none
    else some { s.modifyPeer i fun _ ↦ {} with
      handshakingConnections := s.handshakingConnections ++ [i] }
  | .newPeerJustAdded d i =>
    if i ∈ s.handshakingConnections then
      (s.movePeerToActiveList i).startSynchronizingWithPeer d i
    else none
  | .fetchItemIds d i m => if s.isListening i then s.onFetchBlockchainItemIds d i m else none
  | .inventory d i m => if s.isListening i then s.onBlockchainItemIdsInventory d i m else none
  | .fetchItems d i m => if s.isListening i then some (s.onFetchItems d i m) else none
  | .block d i messageHash b =>
    if s.isListening i then s.processBlockMessage d i messageHash b else none
  | .itemNotAvailable i requestedItem =>
    if s.isListening i then some (s.onItemNotAvailable i requestedItem) else none
  | .handledNormal d n outcome => s.handledNormalBlock d n outcome
  | .backlog => some s.processBacklogOfSyncBlocks
  | .handled d n outcome => s.sendSyncBlockToNodeDelegate d n outcome
  | .fetchSyncItems => some s.fetchSyncItems
  | .timeout i =>
    if i ∈ s.connections then some (s.movePeerToTerminatingList i) else none
  | .connectionClosed i => if s.isListening i then some (s.onConnectionClosed i) else none
  | .broadcast messageHash b => some (s.broadcast messageHash b)
  | .elsewhere i advertised requested =>
    some (s.modifyPeer i fun p ↦
      { p with
        inventoryPeerAdvertisedToUs := advertised
        itemsRequestedFromPeer := requested })

/-- A node without connections. -/
structure SyncNode.Unconnected (s : SyncNode) : Prop where
  /-- There are no connections. -/
  connections_eq : s.connections = []
  /-- There are no requests. -/
  activeSyncRequests_eq : s.activeSyncRequests = ∅
  /-- There is no message to handle. -/
  normalBlocksInProgress_eq : s.normalBlocksInProgress = []

end Graphene
