import Graphene.Net.SyncNode
import Graphene.Lib.Transitions

/-!
# What most handlers leave alone

Blocks of synchronization are asked for in one place, and handed to the client in another.  Most
handlers do neither.

So each invariant of the requests and of the blocks in progress has to be looked at only where a
handler does one of the two.  Everywhere else it is carried over by the relations here, which are
proved once for each of the other handlers.

* `SyncNode.SameRequests` — nothing changes about the blocks that have been asked for.
* `SyncNode.SameProcessing` — nothing changes about those that are being processed, besides that
  peers leave.
* `SyncNode.Calm` — both.
-/

set_option autoImplicit false

namespace Graphene

open Transitions

/-- Nothing changes about a peer that has to do with blocks of synchronization, besides that they
are no longer fetched from it. -/
structure Peer.Calm (p p' : Peer) : Prop where
  /-- What it has been asked for. -/
  syncItemsRequestedFromPeer_eq : p'.syncItemsRequestedFromPeer = p.syncItemsRequestedFromPeer
  /-- What is being processed. -/
  idsOfItemsBeingProcessed_eq : p'.idsOfItemsBeingProcessed = p.idsOfItemsBeingProcessed
  /-- Whether blocks are fetched from it. -/
  inhibited : p.inhibitFetchingSyncBlocks = true → p'.inhibitFetchingSyncBlocks = true

theorem Peer.Calm.refl (p : Peer) : p.Calm p := ⟨rfl, rfl, id⟩

theorem Peer.Calm.trans {p p' p'' : Peer} (h : p.Calm p') (h' : p'.Calm p'') : p.Calm p'' :=
  ⟨h'.1.trans h.1, h'.2.trans h.2, h'.3 ∘ h.3⟩

namespace SyncNode

/-- Nothing changes about the requests. -/
structure SameRequests (s s' : SyncNode) : Prop where
  /-- The active requests. -/
  activeSyncRequests_eq : s'.activeSyncRequests = s.activeSyncRequests
  /-- The connections. -/
  mem_connections : ∀ i, i ∈ s'.connections ↔ i ∈ s.connections
  /-- The requests to each peer. -/
  requested_eq : ∀ i, (s'.peer i).syncItemsRequestedFromPeer =
    (s.peer i).syncItemsRequestedFromPeer
  /-- The handlers that wait are handlers of connected peers. -/
  waiting : ∀ x ∈ s'.normalBlocksInProgress,
    x ∈ s.normalBlocksInProgress ∨ x.originatingPeer ∈ s.connections

/-- Nothing is handed to the client, and no peer becomes active or is synchronized with again. -/
structure SameProcessing (s s' : SyncNode) : Prop where
  /-- The calls that are not over. -/
  inProgress_eq : s'.inProgress = s.inProgress
  /-- The peers in the handshake were in it before. -/
  handshaking_subset : s'.handshakingConnections ⊆ s.handshakingConnections
  /-- The active peers were active before. -/
  active_subset : s'.activeConnections ⊆ s.activeConnections
  /-- What is being processed. -/
  processed_eq : ∀ i, (s'.peer i).idsOfItemsBeingProcessed = (s.peer i).idsOfItemsBeingProcessed
  /-- Whether blocks are fetched from an active peer. -/
  inhibited : ∀ i ∈ s'.activeConnections, (s.peer i).inhibitFetchingSyncBlocks = true →
    (s'.peer i).inhibitFetchingSyncBlocks = true

/-- Nothing changes about the blocks of synchronization. -/
structure Calm (s s' : SyncNode) : Prop extends SameRequests s s', SameProcessing s s'

variable {s s' s'' : SyncNode} {d : NodeDelegate} {i : PeerId}

/-! ## One after the other -/

theorem SameRequests.trans (h : SameRequests s s') (h' : SameRequests s' s'') :
    SameRequests s s'' where
  activeSyncRequests_eq := h'.activeSyncRequests_eq.trans h.activeSyncRequests_eq
  mem_connections i := (h'.mem_connections i).trans (h.mem_connections i)
  requested_eq i := (h'.requested_eq i).trans (h.requested_eq i)
  waiting x hx := by
    rcases h'.waiting x hx with hold | hconnected
    · exact h.waiting x hold
    · exact Or.inr ((h.mem_connections _).1 hconnected)

theorem SameProcessing.trans (h : SameProcessing s s') (h' : SameProcessing s' s'') :
    SameProcessing s s'' where
  inProgress_eq := h'.inProgress_eq.trans h.inProgress_eq
  handshaking_subset := List.Subset.trans h'.handshaking_subset h.handshaking_subset
  active_subset := List.Subset.trans h'.active_subset h.active_subset
  processed_eq i := (h'.processed_eq i).trans (h.processed_eq i)
  inhibited i hi := h'.inhibited i hi ∘ h.inhibited i (h'.active_subset hi)

theorem Calm.trans (h : Calm s s') (h' : Calm s' s'') : Calm s s'' :=
  ⟨h.toSameRequests.trans h'.toSameRequests, h.toSameProcessing.trans h'.toSameProcessing⟩

theorem SameRequests.of_eq (hactive : s'.activeSyncRequests = s.activeSyncRequests)
    (hconnections : s'.connections = s.connections) (hpeer : s'.peer = s.peer)
    (hwaiting : s'.normalBlocksInProgress ⊆ s.normalBlocksInProgress) : SameRequests s s' :=
  ⟨hactive, fun _ ↦ by rw [hconnections], fun _ ↦ by rw [hpeer],
    fun _ hx ↦ Or.inl (hwaiting hx)⟩

theorem SameProcessing.of_eq (hinProgress : s'.inProgress = s.inProgress)
    (hhandshaking : s'.handshakingConnections ⊆ s.handshakingConnections)
    (hactive : s'.activeConnections ⊆ s.activeConnections) (hpeer : s'.peer = s.peer) :
    SameProcessing s s' :=
  ⟨hinProgress, hhandshaking, hactive, fun _ ↦ by rw [hpeer], fun _ _ ↦ by rw [hpeer]; exact id⟩

theorem SameRequests.refl (s : SyncNode) : SameRequests s s :=
  SameRequests.of_eq rfl rfl rfl (List.Subset.refl _)

theorem SameProcessing.refl (s : SyncNode) : SameProcessing s s :=
  SameProcessing.of_eq rfl (List.Subset.refl _) (List.Subset.refl _) rfl

theorem Calm.refl (s : SyncNode) : Calm s s := ⟨SameRequests.refl s, SameProcessing.refl s⟩

/-- Only what has nothing to do with blocks of synchronization changes. -/
theorem Calm.of_eq (hrequests : s'.activeSyncRequests = s.activeSyncRequests)
    (hhandshaking : s'.handshakingConnections = s.handshakingConnections)
    (hactive : s'.activeConnections = s.activeConnections)
    (hconnections : s'.connections = s.connections)
    (hcalls : s'.handleMessageCallsInProgress = s.handleMessageCallsInProgress)
    (hpeer : s'.peer = s.peer) (hwaiting : s'.normalBlocksInProgress ⊆ s.normalBlocksInProgress) :
    Calm s s' :=
  ⟨SameRequests.of_eq hrequests hconnections hpeer hwaiting,
    SameProcessing.of_eq (by rw [inProgress, hcalls, inProgress])
      (hhandshaking ▸ List.Subset.refl _) (hactive ▸ List.Subset.refl _) hpeer⟩

/-! ## Peers and connections -/

theorem mem_connections_drop {peers : List PeerId} {j : PeerId} :
    j ∈ (s.dropConnections peers).connections ↔ j ∈ s.connections ∧ j ∉ peers := by
  simp only [connections, dropConnections, List.mem_append, List.mem_filter, decide_eq_true_eq]
  tauto

theorem mem_connections_of_active {j : PeerId} (h : j ∈ s.activeConnections) :
    j ∈ s.connections := by
  simp [connections, h]

theorem mem_connections_of_handshaking {j : PeerId} (h : j ∈ s.handshakingConnections) :
    j ∈ s.connections := by
  simp [connections, h]

theorem mem_connections_of_filter {bad : PeerId → Bool} {j : PeerId}
    (h : j ∈ s.activeConnections.filter bad) : j ∈ s.connections :=
  mem_connections_of_active (List.mem_of_mem_filter h)

theorem mem_connections_of_isListening (h : s.isListening i = true) : i ∈ s.connections :=
  of_decide_eq_true (Bool.and_eq_true_iff.1 h).1

/-- No handler of one of the peer's messages waits while it is listened to. -/
theorem ne_of_isListening (h : s.isListening i = true) :
    ∀ x ∈ s.normalBlocksInProgress, x.originatingPeer ≠ i := fun x hx ↦
  of_decide_eq_true (List.all_eq_true.1 (Bool.and_eq_true_iff.1 h).2 x hx)

theorem sameRequests_modifyPeer {f : Peer → Peer}
    (h : (f (s.peer i)).syncItemsRequestedFromPeer = (s.peer i).syncItemsRequestedFromPeer) :
    SameRequests s (s.modifyPeer i f) := by
  refine ⟨rfl, fun _ ↦ Iff.rfl, fun j ↦ ?_, fun _ hx ↦ Or.inl hx⟩
  by_cases hji : j = i
  · subst hji
    rw [modifyPeer_self]
    exact h
  · rw [modifyPeer_of_ne _ hji]

theorem sameProcessing_modifyPeer {f : Peer → Peer}
    (hprocessed : (f (s.peer i)).idsOfItemsBeingProcessed = (s.peer i).idsOfItemsBeingProcessed)
    (hinhibited : (s.peer i).inhibitFetchingSyncBlocks = true →
      (f (s.peer i)).inhibitFetchingSyncBlocks = true) : SameProcessing s (s.modifyPeer i f) := by
  refine ⟨rfl, List.Subset.refl _, List.Subset.refl _, fun j ↦ ?_, fun j _ ↦ ?_⟩
  · by_cases hji : j = i
    · subst hji
      rw [modifyPeer_self]
      exact hprocessed
    · rw [modifyPeer_of_ne _ hji]
  · by_cases hji : j = i
    · subst hji
      rw [modifyPeer_self]
      exact hinhibited
    · rw [modifyPeer_of_ne _ hji]
      exact id

theorem calm_modifyPeer {f : Peer → Peer} (h : (s.peer i).Calm (f (s.peer i))) :
    Calm s (s.modifyPeer i f) :=
  ⟨sameRequests_modifyPeer h.syncItemsRequestedFromPeer_eq,
    sameProcessing_modifyPeer h.idsOfItemsBeingProcessed_eq h.inhibited⟩

theorem sameRequests_modifyActive {f : Peer → Peer}
    (h : ∀ p, (f p).syncItemsRequestedFromPeer = p.syncItemsRequestedFromPeer) :
    SameRequests s (s.modifyActive f) := by
  refine ⟨rfl, fun _ ↦ Iff.rfl, fun j ↦ ?_, fun _ hx ↦ Or.inl hx⟩
  by_cases hj : j ∈ s.activeConnections
  · rw [modifyActive_of_mem hj]
    exact h _
  · rw [modifyActive_of_notMem hj]

theorem peer_modifyActive {f : Peer → Peer} (h : ∀ p : Peer, p.Calm (f p)) (j : PeerId) :
    (s.peer j).Calm ((s.modifyActive f).peer j) := by
  by_cases hj : j ∈ s.activeConnections
  · rw [modifyActive_of_mem hj]
    exact h _
  · rw [modifyActive_of_notMem hj]
    exact Peer.Calm.refl _

theorem calm_modifyActive {f : Peer → Peer} (h : ∀ p : Peer, p.Calm (f p)) :
    Calm s (s.modifyActive f) :=
  ⟨sameRequests_modifyActive fun p ↦ (h p).syncItemsRequestedFromPeer_eq,
    rfl, List.Subset.refl _, List.Subset.refl _,
    fun j ↦ (peer_modifyActive h j).idsOfItemsBeingProcessed_eq,
    fun j _ ↦ (peer_modifyActive h j).inhibited⟩

/-- Peers leave the lists of connections, or go to one that is not that of the active ones. -/
theorem sameProcessing_dropConnections (s : SyncNode) (peers : List PeerId) :
    SameProcessing s (s.dropConnections peers) :=
  SameProcessing.of_eq rfl (List.filter_subset_self _) (List.filter_subset_self _) rfl

theorem calm_disconnect {peers : List PeerId} (h : ∀ i ∈ peers, i ∈ s.connections) :
    Calm s (s.disconnect peers) := by
  have hdrop := sameProcessing_dropConnections s peers
  refine ⟨⟨rfl, fun j ↦ ?_, fun _ ↦ rfl, fun _ hx ↦ Or.inl hx⟩,
    SameProcessing.of_eq rfl hdrop.handshaking_subset hdrop.active_subset rfl⟩
  have hmem : j ∈ (s.disconnect peers).connections ↔
      j ∈ (s.dropConnections peers).connections ∨ j ∈ peers := by
    simp only [connections, disconnect, List.mem_append]
    tauto
  rw [hmem, mem_connections_drop]
  by_cases hj : j ∈ peers
  · simp [hj, h j hj]
  · simp [hj]

theorem calm_disconnect_singleton (hi : i ∈ s.connections) : Calm s (s.disconnect [i]) :=
  calm_disconnect fun _ hj ↦ List.mem_singleton.1 hj ▸ hi

theorem sameRequests_movePeerToActiveList (hi : i ∈ s.connections) :
    SameRequests s (s.movePeerToActiveList i) := by
  refine ⟨rfl, fun j ↦ ?_, fun _ ↦ rfl, fun _ hx ↦ Or.inl hx⟩
  have hmem : j ∈ (s.movePeerToActiveList i).connections ↔
      j ∈ (s.dropConnections [i]).connections ∨ j = i := by
    simp only [connections, movePeerToActiveList, List.mem_append, List.mem_singleton]
    tauto
  rw [hmem, mem_connections_drop, List.mem_singleton]
  by_cases hji : j = i
  · simp [hji, hi]
  · simp [hji]

theorem calm_movePeerToTerminatingList (hi : i ∈ s.connections) :
    Calm s (s.movePeerToTerminatingList i) := by
  have hdrop := sameProcessing_dropConnections s [i]
  refine ⟨⟨rfl, fun j ↦ ?_, fun _ ↦ rfl, fun _ hx ↦ Or.inl hx⟩,
    SameProcessing.of_eq rfl hdrop.handshaking_subset hdrop.active_subset rfl⟩
  have hmem : j ∈ (s.movePeerToTerminatingList i).connections ↔
      j ∈ (s.dropConnections [i]).connections ∨ j = i := by
    simp only [connections, movePeerToTerminatingList, List.mem_append, List.mem_singleton]
    tauto
  rw [hmem, mem_connections_drop, List.mem_singleton]
  by_cases hji : j = i
  · simp [hji, hi]
  · simp [hji]

theorem sameProcessing_onConnectionClosed (s : SyncNode) (i : PeerId) :
    SameProcessing s (s.onConnectionClosed i) := by
  have hdrop := sameProcessing_dropConnections s [i]
  exact SameProcessing.of_eq rfl hdrop.handshaking_subset hdrop.active_subset rfl

/-! ## Asking for ids -/

theorem calm_fetchNextBatch (hi : i ∈ s.connections)
    (h : s.fetchNextBatchOfItemIdsFromPeer d i = some s') : Calm s s' := by
  obtain ⟨synopsis, -, rfl⟩ := Option.map_eq_some_iff.1 h
  cases synopsis with
  | none => exact calm_disconnect_singleton hi
  | some synopsis => exact calm_modifyPeer ⟨rfl, rfl, id⟩

/-- The state of a peer that is synchronized with again. -/
def restarted (d : NodeDelegate) (p : Peer) : Peer :=
  { p.sawBlock ItemHash.zero (d.getBlockTime ItemHash.zero) with
    idsOfItemsToGet := []
    numberOfUnfetchedItemIds := 0
    weNeedSyncItemsFromPeer := true
    inhibitFetchingSyncBlocks := false }

theorem calm_startSynchronizing (hi : i ∈ s.connections)
    (h : s.startSynchronizingWithPeer d i = some s') :
    Calm (s.modifyPeer i (restarted d)) s' :=
  calm_fetchNextBatch (s := s.modifyPeer i (restarted d)) hi h

theorem sameRequests_startSynchronizing (hi : i ∈ s.connections)
    (h : s.startSynchronizingWithPeer d i = some s') : SameRequests s s' :=
  SameRequests.trans (sameRequests_modifyPeer rfl) (calm_startSynchronizing hi h).toSameRequests

/-- What each step of a fold does that leaves the connections alone, the fold does. -/
theorem foldlM_of_step {R : SyncNode → SyncNode → Prop} {f : SyncNode → PeerId → Option SyncNode}
    (hrefl : ∀ s, R s s) (htrans : ∀ {s s' s''}, R s s' → R s' s'' → R s s'')
    (hsame : ∀ {s s'}, R s s' → SameRequests s s')
    (hf : ∀ s i s', i ∈ s.connections → f s i = some s' → R s s') {peers : List PeerId}
    (hpeers : ∀ i ∈ peers, i ∈ s.connections) (h : peers.foldlM f s = some s') : R s s' := by
  induction peers generalizing s with
  | nil =>
    obtain rfl := Option.some.inj h
    exact hrefl s
  | cons i peers ih =>
    obtain ⟨s₁, hfirst, hrest⟩ := applied_cons.1 h
    have hstep := hf s i s₁ (hpeers i List.mem_cons_self) hfirst
    exact htrans hstep (ih (fun j hj ↦
      ((hsame hstep).mem_connections j).2 (hpeers j (List.mem_cons_of_mem _ hj))) hrest)

theorem calm_foldlM_fetchNextBatch {peers : List PeerId} (hpeers : ∀ i ∈ peers, i ∈ s.connections)
    (h : peers.foldlM (·.fetchNextBatchOfItemIdsFromPeer d) s = some s') : Calm s s' :=
  foldlM_of_step Calm.refl Calm.trans Calm.toSameRequests (fun _ _ _ ↦ calm_fetchNextBatch) hpeers h

theorem calm_countUnfetchedItems (s : SyncNode) : Calm s s.countUnfetchedItems :=
  Calm.of_eq rfl rfl rfl rfl rfl rfl (List.Subset.refl _)

theorem calm_noteItemsNeeded (s : SyncNode) (d : NodeDelegate) (i : PeerId) (m : FetchItemIds) :
    Calm s (s.noteItemsNeeded d i m) :=
  calm_modifyPeer ⟨rfl, rfl, id⟩

/-! ## Ids -/

theorem calm_afterInventory {m : Inventory} (hi : i ∈ s.connections)
    (h : s.afterInventory d i m = some s') : Calm s s' := by
  have hcount := calm_countUnfetchedItems s
  rw [afterInventory] at h
  split_ifs at h
  · exact Option.some_inj.1 h ▸ calm_disconnect_singleton hi
  · exact Option.some_inj.1 h ▸ hcount
  · exact hcount.trans (calm_fetchNextBatch hi h)
  · exact Option.some_inj.1 h ▸ hcount
  · exact hcount.trans (calm_fetchNextBatch hi h)

theorem calm_flushItems (itemType : UInt32) (p : Peer) (ids : List ItemHash) :
    p.Calm (p.flushItems d itemType ids).1 := by
  induction ids generalizing p with
  | nil => exact Peer.Calm.refl p
  | cons id ids ih =>
    rw [Peer.flushItems]
    split
    · refine Peer.Calm.trans ?_ (ih _)
      exact ⟨rfl, rfl, fun h ↦ h⟩
    · exact Peer.Calm.refl p

/-- Merging a list leaves blocks of synchronization alone. -/
theorem calm_mergeItemHashes (itemType : UInt32) (isFirst : Bool) (p : Peer)
    (ids : List ItemHash) : p.Calm (p.mergeItemHashes d itemType isFirst ids) := by
  cases ids with
  | nil => exact Peer.Calm.refl p
  | cons front rest =>
    rw [Peer.mergeItemHashes]
    dsimp only
    split_ifs
    · exact ⟨rfl, rfl, id⟩
    · have hflush := calm_flushItems (d := d) itemType p (front :: rest)
      exact ⟨hflush.1, hflush.2, hflush.3⟩
    · exact ⟨rfl, rfl, id⟩
    · exact ⟨rfl, rfl, id⟩

theorem calm_acceptInventory {m : Inventory} (hi : i ∈ s.connections)
    (h : s.acceptInventory d i m = some s') : Calm s s' := by
  rw [acceptInventory] at h
  split_ifs at h
  · obtain rfl := Option.some_inj.1 h
    refine Calm.trans (calm_modifyPeer ?_) (calm_countUnfetchedItems _)
    exact ⟨rfl, rfl, id⟩
  · refine Calm.trans (calm_modifyPeer ?_) (calm_afterInventory ?_ h)
    · have hmerge := calm_mergeItemHashes (d := d) m.itemType
        (m.itemHashesAvailable.head?.any (s.isFirstItemForOtherPeer i)) (s.peer i)
        m.itemHashesAvailable
      exact ⟨hmerge.1, hmerge.2, hmerge.3⟩
    · exact hi

theorem calm_onBlockchainItemIdsInventory {m : Inventory} (hi : i ∈ s.connections)
    (h : s.onBlockchainItemIdsInventory d i m = some s') : Calm s s' := by
  rw [onBlockchainItemIdsInventory] at h
  split at h
  next => exact Option.some_inj.1 h ▸ Calm.refl s
  next =>
    split_ifs at h
    · exact Option.some_inj.1 h ▸ calm_disconnect_singleton hi
    · refine Calm.trans (calm_modifyPeer ?_) (calm_acceptInventory ?_ h)
      · exact ⟨rfl, rfl, id⟩
      · exact hi

/-! ## Blocks for the chain -/

theorem calm_broadcast (s : SyncNode) (messageHash : ItemHash) (b : BlockMessage) :
    Calm s (s.broadcast messageHash b) :=
  Calm.of_eq rfl rfl rfl rfl rfl rfl (List.Subset.refl _)

theorem calm_ageMessageCache (s : SyncNode) : Calm s s.ageMessageCache :=
  Calm.of_eq rfl rfl rfl rfl rfl rfl (List.Subset.refl _)

/-- A block of normal operation does nothing to those of synchronization, unless it makes
synchronization start again. -/
theorem calm_finishNormalBlock {x : NormalBlock} {outcome : HandleBlock}
    (hx : x.originatingPeer ∈ s.connections) (hlinks : outcome ≠ .unlinkable)
    (h : s.finishNormalBlock d x outcome = some s') : Calm s s' := by
  have hrefused : ∀ bad : PeerId → Bool,
      Calm s (s.disconnect (x.originatingPeer :: s.activeConnections.filter bad)) :=
    fun bad ↦ calm_disconnect fun j hj ↦ by
      rcases List.mem_cons.1 hj with rfl | hj
      · exact hx
      · exact mem_connections_of_filter hj
  cases outcome with
  | accepted =>
    obtain rfl := Option.some_inj.1 h
    refine Calm.trans ?_ (calm_disconnect fun _ ↦ mem_connections_of_filter)
    refine Calm.trans (calm_modifyActive fun p ↦ ?_)
      ((calm_broadcast _ x.messageHash x.block).trans (calm_ageMessageCache _))
    split
    · exact ⟨rfl, rfl, id⟩
    · exact Peer.Calm.refl p
  | unlinkable => exact absurd rfl hlinks
  | olderThanUndoHistory => exact Option.some_inj.1 h ▸ hrefused _
  | rejected => exact Option.some_inj.1 h ▸ hrefused _

/-- The handler of a block of normal operation goes on. -/
theorem calm_resumeNormalBlock (s : SyncNode) (n : ℕ) :
    Calm s { s with normalBlocksInProgress := s.normalBlocksInProgress.eraseIdx n } :=
  Calm.of_eq rfl rfl rfl rfl rfl rfl List.eraseIdx_subset

theorem calm_acceptedBlock (s : SyncNode) (id : ItemHash) : Calm s (s.acceptedBlock id) :=
  Calm.of_eq rfl rfl rfl rfl rfl rfl (List.Subset.refl _)

end SyncNode

end Graphene
