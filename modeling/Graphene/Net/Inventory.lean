import Graphene.Net.SyncNode
import Graphene.Lib.Transitions

/-!
# Items that peers offer each other

Once peers are in sync, each tells the others which items it has, and asks them for those it does
not have.  A node keeps what it has been told, by whom, and what it has asked for; this file has the
handlers that keep it, and the two loops that send requests and offers.

* `InventoryPeer`, `InventoryNode` — the state.
* `InventoryNode.onItemIdsInventory`, `InventoryNode.onItemNotAvailable`,
  `InventoryNode.onConnectionClosed` — what is offered, and what is given back.
* `InventoryNode.fetchItems`, `InventoryNode.advertiseInventory` — one round of each loop.
* `InventoryEvent`, `InventoryNode.step` — all that can happen, with the time at which it does.

Times are in microseconds.  A handler gives way while the client has a message; it is two events.
-/

set_option autoImplicit false

namespace Graphene

/-! ## The state -/

/-- `GRAPHENE_NET_MAX_ITEMS_PER_PEER_DURING_NORMAL_OPERATION`. -/
def maxItemsPerPeer : ℕ := 1

/-- `GRAPHENE_NET_MAX_INVENTORY_SIZE_IN_MINUTES`. -/
def maxInventorySizeInMinutes : ℕ := 2

/-- `GRAPHENE_NET_MAX_TRX_PER_SECOND`. -/
def maxTrxPerSecond : ℕ := 1000

/-- `time_point_sec` of a `time_point`. -/
def toSeconds (now : ℕ) : ℕ := now / 1000000

/-- `fc::minutes`. -/
def minutes (n : ℕ) : ℕ := n * 60 * 1000000

/-- `timestamped_items_set_type`, in which every item is once. -/
abbrev TimestampedItems := List (ItemId × ℕ)

namespace TimestampedItems

/-- `find`. -/
def has (t : TimestampedItems) (x : ItemId) : Bool := t.any (·.1 = x)

/-- `insert`, which does nothing to an item that is there. -/
def add (t : TimestampedItems) (x : ItemId) (time : ℕ) : TimestampedItems :=
  if t.has x then t else t ++ [(x, time)]

/-- Erase what is older than `oldest`. -/
def dropOld (t : TimestampedItems) (oldest : ℕ) : TimestampedItems := t.filter (oldest ≤ ·.2)

end TimestampedItems

/-- The data of a `peer_connection` that the exchange of items uses. -/
structure InventoryPeer where
  /-- `inventory_peer_advertised_to_us`. -/
  inventoryPeerAdvertisedToUs : TimestampedItems := []
  /-- `inventory_advertised_to_peer`. -/
  inventoryAdvertisedToPeer : TimestampedItems := []
  /-- The items of `items_requested_from_peer`. -/
  itemsRequestedFromPeer : List ItemId := []
  /-- `transaction_fetching_inhibited_until`. -/
  transactionFetchingInhibitedUntil : ℕ := 0
  /-- `peer_needs_sync_items_from_us`. -/
  peerNeedsSyncItemsFromUs : Bool := true
  /-- `sync_items_requested_from_peer` is not empty, or `item_ids_requested_from_peer` is set. -/
  synchronizing : Bool := false

namespace InventoryPeer

/-- `idle`. -/
def idle (p : InventoryPeer) : Bool := p.itemsRequestedFromPeer.isEmpty && !p.synchronizing

/-- `is_transaction_fetching_inhibited`. -/
def isTransactionFetchingInhibited (p : InventoryPeer) (now : ℕ) : Bool :=
  p.transactionFetchingInhibitedUntil > now

/-- `clear_old_inventory`. -/
def clearOldInventory (p : InventoryPeer) (now : ℕ) : InventoryPeer :=
  let oldest := toSeconds (now - minutes maxInventorySizeInMinutes)
  { p with
    inventoryAdvertisedToPeer := p.inventoryAdvertisedToPeer.dropOld oldest
    inventoryPeerAdvertisedToUs := p.inventoryPeerAdvertisedToUs.dropOld oldest }

/-- `is_inventory_advertised_to_us_list_full_for_transactions`. -/
def isListFullForTransactions (p : InventoryPeer) : Bool :=
  p.inventoryPeerAdvertisedToUs.length > maxInventorySizeInMinutes * maxTrxPerSecond * 60

/-- `is_inventory_advertised_to_us_list_full`. -/
def isListFull (p : InventoryPeer) : Bool :=
  p.inventoryPeerAdvertisedToUs.length > maxInventorySizeInMinutes * maxTrxPerSecond * 60 +
    (maxInventorySizeInMinutes + 1) * 60 / netMinBlockInterval.toNat

end InventoryPeer

/-- `prioritized_item_id`. -/
structure PrioritizedItem where
  /-- `item`. -/
  item : ItemId
  /-- `sequence_number`. -/
  sequenceNumber : UInt32
  /-- `timestamp`. -/
  timestamp : ℕ

/-- `operator<`: blocks come first, and otherwise what has been heard of first. -/
def PrioritizedItem.before (x y : PrioritizedItem) : Bool :=
  if x.item.itemType ≠ y.item.itemType then x.item.itemType > y.item.itemType
  else 0 < (y.sequenceNumber - x.sequenceNumber).toInt32.toInt

/-- An item that came from a peer, and that the client has. -/
structure HandledItem where
  /-- The peer. -/
  originatingPeer : PeerId
  /-- The item. -/
  item : ItemId

/-- The part of a `node_impl` that the exchange of items uses. -/
structure InventoryNode where
  /-- The data of each peer. -/
  peer : PeerId → InventoryPeer
  /-- How many connections there have been; they are numbered as they become active. -/
  connections : ℕ := 0
  /-- `_active_connections`. -/
  activeConnections : List PeerId := []
  /-- `_closing_connections` and `_terminating_connections`. -/
  endingConnections : List PeerId := []
  /-- `_items_to_fetch`. -/
  itemsToFetch : List PrioritizedItem := []
  /-- `_items_to_fetch_sequence_counter`. -/
  itemsToFetchSequenceCounter : UInt32 := 0
  /-- `_recently_failed_items`. -/
  recentlyFailedItems : TimestampedItems := []
  /-- `_new_inventory`. -/
  newInventory : List ItemId := []
  /-- The items that the client has not answered yet. -/
  inProgress : List HandledItem := []
  /-- `_recent_block_interval_in_seconds`, at first `GRAPHENE_MAX_BLOCK_INTERVAL`. -/
  recentBlockIntervalInSeconds : UInt8 := 30

namespace InventoryNode

variable (s : InventoryNode) (now : ℕ)

/-- Change what there is about a peer. -/
def modifyPeer (i : PeerId) (f : InventoryPeer → InventoryPeer) : InventoryNode :=
  { s with peer := Function.update s.peer i (f (s.peer i)) }

/-- Go through the active peers. -/
def modifyActive (f : InventoryPeer → InventoryPeer) : InventoryNode :=
  { s with peer := fun i ↦ if i ∈ s.activeConnections then f (s.peer i) else s.peer i }

/-- `is_item_in_any_peers_inventory`. -/
def isItemInAnyPeersInventory (x : ItemId) : Bool :=
  s.activeConnections.any fun i ↦ (s.peer i).inventoryPeerAdvertisedToUs.has x

/-- We have requested the item from an active peer. -/
def isRequested (x : ItemId) : Bool :=
  s.activeConnections.any fun i ↦ x ∈ (s.peer i).itemsRequestedFromPeer

/-- The item is one of `_items_to_fetch`. -/
def isToBeFetched (x : ItemId) : Bool := s.itemsToFetch.any (·.item = x)

/-! ## Items to fetch -/

/-- Where an item goes in `_items_to_fetch`. -/
def insertSorted (x : PrioritizedItem) : List PrioritizedItem → List PrioritizedItem
  | [] => [x]
  | y :: ys => if x.before y then x :: y :: ys else y :: insertSorted x ys

/-- `_items_to_fetch.insert`, in which both the place and the item are unique, with the next number.
-/
def insertItemToFetch (x : ItemId) : InventoryNode :=
  let new : PrioritizedItem := ⟨x, s.itemsToFetchSequenceCounter, now⟩
  { s with
    itemsToFetchSequenceCounter := s.itemsToFetchSequenceCounter + 1
    itemsToFetch :=
      if s.isToBeFetched x || s.itemsToFetch.any fun y ↦ !new.before y && !y.before new then
        s.itemsToFetch
      else insertSorted new s.itemsToFetch }

/-- An item of `_items_to_fetch` has been heard of again. -/
def heardAgain (x : ItemId) : InventoryNode :=
  { s with
    itemsToFetch := s.itemsToFetch.map fun y ↦
      if y.item = x then { y with timestamp := now } else y }

/-- The body of the loop of `on_item_ids_inventory_message`, which it may break. -/
def onItemHash (i : PeerId) (x : ItemId) : Option InventoryNode :=
  if s.activeConnections.any fun j ↦ (s.peer j).inventoryAdvertisedToPeer.has x then some s
  else if (x.itemType = trxMessageType && (s.peer i).isListFullForTransactions) ||
      (s.peer i).isListFull then none
  else
    let requested := s.isRequested x
    let s := s.modifyPeer i fun p ↦
      { p with
        inventoryPeerAdvertisedToUs := p.inventoryPeerAdvertisedToUs.add x (toSeconds now) }
    if requested || s.recentlyFailedItems.has x then some s
    else if s.isToBeFetched x then some (s.heardAgain now x)
    else some (s.insertItemToFetch now x)

/-- The loop of `on_item_ids_inventory_message`. -/
def onItemHashes (i : PeerId) : List ItemId → InventoryNode → InventoryNode
  | [], s => s
  | x :: xs, s =>
    match s.onItemHash now i x with
    | none => s
    | some s' => onItemHashes i xs s'

/-- `on_item_ids_inventory_message`. -/
def onItemIdsInventory (i : PeerId) (itemType : UInt32) (itemHashesAvailable : List ItemHash) :
    InventoryNode :=
  onItemHashes now i (itemHashesAvailable.map fun id ↦ ⟨itemType, id⟩)
    (s.modifyPeer i fun p ↦ p.clearOldInventory now)

/-- `on_item_not_available_message`, for an item that was requested. -/
def onItemNotAvailable (i : PeerId) (x : ItemId) : InventoryNode :=
  if x ∈ (s.peer i).itemsRequestedFromPeer then
    let s := s.modifyPeer i fun p ↦
      { p with
        itemsRequestedFromPeer := p.itemsRequestedFromPeer.filter (· ≠ x)
        inventoryPeerAdvertisedToUs := p.inventoryPeerAdvertisedToUs.filter (·.1 ≠ x) }
    if s.isItemInAnyPeersInventory x then s.insertItemToFetch now x else s
  else s

/-! ## Connections -/

/-- A connection is on none of the lists. -/
def dropConnection (i : PeerId) : InventoryNode :=
  { s with
    activeConnections := s.activeConnections.filter (· ≠ i)
    endingConnections := s.endingConnections.filter (· ≠ i) }

/-- `move_peer_to_closing_list` and `move_peer_to_terminating_list`. -/
def endConnection (i : PeerId) : InventoryNode :=
  { s.dropConnection i with endingConnections := (s.dropConnection i).endingConnections ++ [i] }

/-- `move_peer_to_active_list`, of a connection that is new. -/
def movePeerToActiveList : InventoryNode :=
  { s with
    peer := Function.update s.peer s.connections {}
    connections := s.connections + 1
    activeConnections := s.activeConnections ++ [s.connections] }

/-- The connection is on one of the lists. -/
def isConnected (i : PeerId) : Bool := i ∈ s.activeConnections || i ∈ s.endingConnections

/-- The end of `on_connection_closed`: what was requested is requested from others. -/
def reschedule : List ItemId → InventoryNode → InventoryNode
  | [], s => s
  | x :: xs, s =>
    reschedule xs (if s.isItemInAnyPeersInventory x then s.insertItemToFetch now x else s)

/-- `on_connection_closed`. -/
def onConnectionClosed (i : PeerId) : InventoryNode :=
  reschedule now (s.peer i).itemsRequestedFromPeer (s.dropConnection i)

/-! ## Items that arrive -/

/-- `broadcast`. -/
def broadcast (x : ItemId) : InventoryNode :=
  { s with newInventory := if x ∈ s.newInventory then s.newInventory else s.newInventory ++ [x] }

/-- `process_ordinary_message` and `process_block_message`, for an item that was requested, up to
where the client has it. -/
def received (i : PeerId) (x : ItemId) : InventoryNode :=
  { s.modifyPeer i fun p ↦
      { p with itemsRequestedFromPeer := p.itemsRequestedFromPeer.filter (· ≠ x) } with
    inProgress := s.inProgress ++ [⟨i, x⟩] }

/-- What comes of an item that the client has. -/
inductive Handling where
  /-- It takes the item; these are the transactions in it, and the active peers whose software is
  too old for what comes next. -/
  | accepted (containedTransactions : List ItemHash) (peersToDisconnect : List PeerId)
  /-- It does not; these are the active peers that have offered the same block. -/
  | rejected (peersToDisconnect : List PeerId)
  /-- The block does not link to what it has. -/
  | unlinkable

/-- The rest of `process_ordinary_message`. -/
def handledOrdinary (x : HandledItem) : Handling → InventoryNode
  | .accepted .. => s.broadcast x.item
  | .rejected .. | .unlinkable =>
    { s with recentlyFailedItems := s.recentlyFailedItems.add x.item (toSeconds now) }

/-- The rest of `process_block_during_normal_operation`. -/
def handledBlock (x : HandledItem) : Handling → InventoryNode
  | .accepted containedTransactions peersToDisconnect =>
    let s := { s with
      itemsToFetch := s.itemsToFetch.filter fun y ↦
        y.item ∉ containedTransactions.map (fun id ↦ (⟨trxMessageType, id⟩ : ItemId)) }
    let s := (s.modifyActive fun p ↦ p.clearOldInventory now).broadcast x.item
    (peersToDisconnect.filter (· ∈ s.activeConnections)).foldl endConnection s
  | .rejected peersToDisconnect =>
    (x.originatingPeer :: peersToDisconnect.filter (· ∈ s.activeConnections)).foldl
      endConnection s
  | .unlinkable => s

/-! ## Requests -/

/-- What a round of `fetch_items_loop` has decided: the data of the peers, and what is requested of
each of those that were idle, those with fewer items first. -/
structure FetchRound where
  /-- The data of each peer. -/
  peer : PeerId → InventoryPeer
  /-- `items_by_peer`. -/
  itemsByPeer : List (PeerId × List ItemId)

namespace FetchRound

/-- The peer that an item is requested from. -/
def findPeer (f : FetchRound) (now : ℕ) (x : ItemId) : Option PeerId :=
  (f.itemsByPeer.find? fun e ↦
    e.2.length < maxItemsPerPeer && (f.peer e.1).inventoryPeerAdvertisedToUs.has x &&
      !(x.itemType = trxMessageType && (f.peer e.1).isTransactionFetchingInhibited now)).map
    Prod.fst

/-- Where a peer goes in the index by the number of items. -/
def insertByCount (e : PeerId × List ItemId) :
    List (PeerId × List ItemId) → List (PeerId × List ItemId)
  | [] => [e]
  | e' :: es => if e.2.length < e'.2.length then e :: e' :: es else e' :: insertByCount e es

/-- An item is requested from a peer. -/
def request (f : FetchRound) (i : PeerId) (x : ItemId) : FetchRound :=
  { peer := Function.update f.peer i
      { f.peer i with itemsRequestedFromPeer := (f.peer i).itemsRequestedFromPeer ++ [x] }
    itemsByPeer :=
      match f.itemsByPeer.find? (·.1 = i) with
      | none => f.itemsByPeer
      | some e => insertByCount (i, e.2 ++ [x]) (f.itemsByPeer.filter (·.1 ≠ i)) }

/-- The loop over `_items_to_fetch`: what is left of it, and what is requested. -/
def run (now oldest : ℕ) : List PrioritizedItem → FetchRound → List PrioritizedItem × FetchRound
  | [], f => ([], f)
  | x :: xs, f =>
    if x.timestamp < oldest then run now oldest xs f
    else
      match f.findPeer now x.item with
      | some i => run now oldest xs (f.request i x.item)
      | none => ((x :: (run now oldest xs f).1), (run now oldest xs f).2)

end FetchRound

/-- The start of a round. -/
def startRound : FetchRound where
  peer := s.peer
  itemsByPeer := (s.activeConnections.filter fun i ↦ (s.peer i).idle).map (·, [])

/-- `oldest_timestamp_to_fetch`. -/
def oldestTimestampToFetch : ℕ :=
  now - s.recentBlockIntervalInSeconds.toNat * messageCacheDurationInBlocks.toNat * 1000000

/-- One round of `fetch_items_loop`. -/
def fetchItems : InventoryNode :=
  let (left, f) := FetchRound.run now (s.oldestTimestampToFetch now) s.itemsToFetch s.startRound
  { s with peer := f.peer, itemsToFetch := left }

/-! ## Offers -/

/-- The items that a peer is told of: those it has not told us of, nor been told of. -/
def itemsToAdvertise (p : InventoryPeer) (inventoryToAdvertise : List ItemId) : List ItemId :=
  if p.peerNeedsSyncItemsFromUs then []
  else inventoryToAdvertise.filter fun x ↦
    !p.inventoryAdvertisedToPeer.has x && !p.inventoryPeerAdvertisedToUs.has x

/-- A peer is told of items. -/
def advertiseTo (inventoryToAdvertise : List ItemId) (p : InventoryPeer) : InventoryPeer :=
  { p with
    inventoryAdvertisedToPeer := (itemsToAdvertise p inventoryToAdvertise).foldl
      (fun t x ↦ t.add x (toSeconds now)) p.inventoryAdvertisedToPeer }.clearOldInventory now

/-- One round of `advertise_inventory_loop`. -/
def advertiseInventory : InventoryNode :=
  { s.modifyActive (advertiseTo now s.newInventory) with newInventory := [] }

/-- What it tells each peer. -/
def advertisements : List (PeerId × ItemId) :=
  s.activeConnections.flatMap fun i ↦
    (itemsToAdvertise (s.peer i) s.newInventory).map (i, ·)

end InventoryNode

/-! ## All that can happen -/

/-- A message of a peer, or what becomes of its connection. -/
inductive PeerEvent where
  /-- `item_ids_inventory_message`. -/
  | itemIdsInventory (itemType : UInt32) (itemHashesAvailable : List ItemHash)
  /-- `item_not_available_message`. -/
  | itemNotAvailable (x : ItemId)
  /-- An item arrives. -/
  | received (x : ItemId)
  /-- The peer is disconnected, for any other reason, or its connection is terminated. -/
  | disconnected
  /-- The connection is closed. -/
  | closed
  /-- The peer has or has not been asked for what is needed to synchronize. -/
  | synchronizing (b : Bool)
  /-- The peer does or does not need items to synchronize. -/
  | needsSyncItems (b : Bool)

/-- What happens to a node. -/
inductive InventoryEvent where
  /-- A new connection becomes active. -/
  | connected
  /-- What comes from a connection. -/
  | fromPeer (i : PeerId) (e : PeerEvent)
  /-- The client is done with an item. -/
  | handled (n : ℕ) (handling : InventoryNode.Handling)
  /-- The client broadcasts an item of its own. -/
  | broadcast (x : ItemId)
  /-- A round of `fetch_items_loop`. -/
  | fetchItems
  /-- A round of `advertise_inventory_loop`. -/
  | advertiseInventory
  /-- Items that failed are forgotten. -/
  | pruneFailed
  /-- A round of `terminate_inactive_connections_loop` begins, and the client says how far apart
  blocks are. -/
  | blockInterval (seconds : UInt8)

namespace InventoryNode

/-- What comes from a connection, at a time. -/
def peerStep (s : InventoryNode) (now : ℕ) (i : PeerId) : PeerEvent → Option InventoryNode
  | .itemIdsInventory itemType hashes => some (s.onItemIdsInventory now i itemType hashes)
  | .itemNotAvailable x => some (s.onItemNotAvailable now i x)
  | .received x =>
    if x ∈ (s.peer i).itemsRequestedFromPeer then some (s.received i x)
    -- a block may have been requested to synchronize
    else if x.itemType = blockMessageType then none
    else some (s.endConnection i)
  | .disconnected => some (s.endConnection i)
  | .closed => some (s.onConnectionClosed now i)
  | .synchronizing b => some (s.modifyPeer i fun p ↦ { p with synchronizing := b })
  | .needsSyncItems b => some (s.modifyPeer i fun p ↦ { p with peerNeedsSyncItemsFromUs := b })

/-- The client is done with an item, at a time. -/
def handled (s : InventoryNode) (now : ℕ) (x : HandledItem) (handling : Handling) :
    InventoryNode :=
  if x.item.itemType = blockMessageType then s.handledBlock now x handling
  else s.handledOrdinary now x handling

/-- All that can happen, at a time. -/
def step (s : InventoryNode) : ℕ × InventoryEvent → Option InventoryNode
  | (_, .connected) => some s.movePeerToActiveList
  | (now, .fromPeer i e) => if s.isConnected i then s.peerStep now i e else none
  | (now, .handled n handling) =>
    s.inProgress[n]?.map fun x ↦
      { s with inProgress := s.inProgress.eraseIdx n }.handled now x handling
  | (_, .broadcast x) => some (s.broadcast x)
  | (now, .fetchItems) => some (s.fetchItems now)
  | (now, .advertiseInventory) => some (s.advertiseInventory now)
  | (now, .pruneFailed) =>
    some { s with
      recentlyFailedItems := s.recentlyFailedItems.dropOld (toSeconds (now - minutes 15)) }
  | (_, .blockInterval seconds) => some { s with recentBlockIntervalInSeconds := seconds }

/-- A node that has just been started. -/
def start : InventoryNode where
  peer := fun _ ↦ {}

end InventoryNode

end Graphene
