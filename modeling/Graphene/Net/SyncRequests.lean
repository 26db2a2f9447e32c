import Graphene.Net.SyncFrames
import Graphene.Net.SyncList

/-!
# Blocks that have been asked for

A block of synchronization is not asked for while it is among `_active_sync_requests`.  These are to
be the blocks that some peer with an open connection has been asked for.

The two are kept in different places, the set in the node and the requests in each peer, and are
changed in different handlers.  They part where a peer says that it does not have the block: its
request is gone, and the block stays in the set, which no later handler takes it out of.

* `SyncNode.RequestsExact` — what is to hold of the requests.
* `SyncNode.Requests` — the same, and no block has been asked for from two peers.
* `SyncNode.Refuses` — a peer says that it does not have a block of synchronization.
* `SyncNode.sync_requests_exact_iff` — along a run the requests are exact exactly as long as no peer
  does that.
* `SyncRequestRuns.sync_requests_orphaned` — a block that is never asked for again.
-/

set_option autoImplicit false

namespace Graphene

open Transitions

namespace SyncNode

/-! ## What is to hold -/

/-- The blocks a peer has been asked for. -/
def requestedFrom (s : SyncNode) (i : PeerId) : List ItemHash :=
  (s.peer i).syncItemsRequestedFromPeer.map ItemId.itemHash

/-- The active requests are those to the peers that are connected. -/
def RequestsExact (s : SyncNode) : Prop :=
  ∀ id, id ∈ s.activeSyncRequests ↔ ∃ i ∈ s.connections, id ∈ s.requestedFrom i

/-- What holds of the requests along a run. -/
structure Requests (s : SyncNode) : Prop where
  /-- They are exact. -/
  exact_ : s.RequestsExact
  /-- No block has been asked for from two peers. -/
  eq_of_mem : ∀ i ∈ s.connections, ∀ j ∈ s.connections, ∀ id,
    id ∈ s.requestedFrom i → id ∈ s.requestedFrom j → i = j
  /-- All are requests for blocks. -/
  itemType_eq : ∀ i ∈ s.connections, ∀ item ∈ (s.peer i).syncItemsRequestedFromPeer,
    item.itemType = blockMessageType
  /-- A connection stays open while a handler of one of its messages waits. -/
  waiting : ∀ x ∈ s.normalBlocksInProgress, x.originatingPeer ∈ s.connections

variable {s s' s'' : SyncNode} {d : NodeDelegate} {i : PeerId}

theorem SameRequests.requestedFrom_eq (h : SameRequests s s') :
    s'.requestedFrom = s.requestedFrom := by
  funext i
  rw [requestedFrom, h.requested_eq, requestedFrom]

theorem SameRequests.requestsExact_iff (h : SameRequests s s') :
    s'.RequestsExact ↔ s.RequestsExact := by
  refine forall_congr' fun id ↦ ?_
  rw [h.activeSyncRequests_eq, h.requestedFrom_eq]
  exact iff_congr Iff.rfl (exists_congr fun i ↦ and_congr_left' (h.mem_connections i))

theorem SameRequests.requests (hsame : SameRequests s s') (h : s.Requests) : s'.Requests := by
  refine ⟨hsame.requestsExact_iff.2 h.exact_, fun i hi j hj id hid hid' ↦ ?_,
    fun i hi item hitem ↦ ?_, fun x hx ↦ ?_⟩
  · rw [hsame.requestedFrom_eq] at hid hid'
    exact h.eq_of_mem i ((hsame.mem_connections i).1 hi) j ((hsame.mem_connections j).1 hj) id hid
      hid'
  · rw [hsame.requested_eq] at hitem
    exact h.itemType_eq i ((hsame.mem_connections i).1 hi) item hitem
  · rw [hsame.mem_connections]
    exact (hsame.waiting x hx).elim (h.waiting x) id

/-! ## What keeps the requests -/

theorem sameRequests_onFetchBlockchainItemIds {m : FetchItemIds} (hi : i ∈ s.connections)
    (h : s.onFetchBlockchainItemIds d i m = some s') : SameRequests s s' := by
  obtain ⟨s₂, hrestart, rfl⟩ := Option.map_eq_some_iff.1 h
  have hnote := (calm_noteItemsNeeded s d i m).toSameRequests
  have hsame : SameRequests s s₂ := by
    split_ifs at hrestart
    · exact hnote.trans (sameRequests_startSynchronizing ((hnote.mem_connections i).2 hi) hrestart)
    · exact Option.some_inj.1 hrestart ▸ hnote
  split_ifs
  · exact hsame.trans (calm_disconnect_singleton ((hsame.mem_connections i).2 hi)).toSameRequests
  · exact hsame

theorem sameRequests_finishNormalBlock {x : NormalBlock} {outcome : HandleBlock}
    (hx : x.originatingPeer ∈ s.connections)
    (h : s.finishNormalBlock d x outcome = some s') : SameRequests s s' := by
  by_cases hlinks : outcome = .unlinkable
  · subst hlinks
    exact sameRequests_startSynchronizing hx h
  · exact (calm_finishNormalBlock hx hlinks h).toSameRequests

theorem sameRequests_handledNormalBlock {n : ℕ} {outcome : HandleBlock} (hs : s.Requests)
    (h : s.handledNormalBlock d n outcome = some s') : SameRequests s s' := by
  obtain ⟨x, hx, hfinish⟩ := Option.bind_eq_some_iff.1 h
  have horiginating := hs.waiting x (List.mem_of_getElem? hx)
  have hresume := (calm_resumeNormalBlock s n).toSameRequests
  dsimp only at hfinish
  split_ifs at hfinish
  · refine (hresume.trans (calm_acceptedBlock _ x.block.blockId).toSameRequests).trans ?_
    exact sameRequests_finishNormalBlock horiginating hfinish
  · refine hresume.trans ?_
    exact sameRequests_finishNormalBlock horiginating hfinish

theorem sameRequests_backlogRound (s : SyncNode) : SameRequests s s.backlogRound.1 := by
  rw [backlogRound]
  have hcollect : SameRequests s s.collectSyncItems :=
    SameRequests.of_eq rfl rfl rfl (List.Subset.refl _)
  dsimp only
  split
  next => exact hcollect
  next b hfind =>
    have hpop : SameRequests s (s.collectSyncItems.modifyActive (popFirst b.blockId)) :=
      hcollect.trans (sameRequests_modifyActive fun p ↦ by
        rw [popFirst]
        split <;> rfl)
    split_ifs
    · exact hpop
    · exact ⟨hpop.1, hpop.2, hpop.3, hpop.4⟩

theorem sameRequests_processBacklog (s : SyncNode) :
    SameRequests s s.processBacklogOfSyncBlocks := by
  have hrounds : ∀ fuel s, SameRequests s (backlogRounds fuel s) := by
    intro fuel
    induction fuel with
    | zero => exact SameRequests.refl
    | succ fuel ih =>
      intro s
      have hround := sameRequests_backlogRound s
      rw [backlogRounds]
      dsimp only
      split_ifs
      · exact ⟨hround.1, hround.2, hround.3, hround.4⟩
      · exact hround
      · exact hround.trans (ih _)
      · exact hround
  rw [processBacklogOfSyncBlocks]
  dsimp only
  split_ifs
  · exact SameRequests.of_eq rfl rfl rfl (List.Subset.refl _)
  · refine SameRequests.trans ?_ (hrounds _ _)
    exact SameRequests.of_eq rfl rfl rfl (List.Subset.refl _)

theorem sameRequests_sendSyncBlock {n : ℕ} {outcome : HandleBlock}
    (h : s.sendSyncBlockToNodeDelegate d n outcome = some s') : SameRequests s s' := by
  obtain ⟨⟨b, calls⟩, -, hfinish⟩ := Option.bind_eq_some_iff.1 h
  dsimp only at hfinish
  split_ifs at hfinish
  · obtain ⟨s₂, hfetch, hsync⟩ := Option.bind_eq_some_iff.1 hfinish
    have hpop : ∀ p, (finishProcessing b p).syncItemsRequestedFromPeer =
        p.syncItemsRequestedFromPeer := fun p ↦ by
      rw [finishProcessing]
      split <;> rfl
    have hfetched := (calm_foldlM_fetchNextBatch (fun _ ↦ mem_connections_of_filter)
      hfetch).toSameRequests
    have hsynced := foldlM_of_step SameRequests.refl SameRequests.trans id
      (fun _ _ _ ↦ sameRequests_startSynchronizing)
      (fun j hj ↦ (hfetched.mem_connections j).2 (mem_connections_of_filter hj)) hsync
    refine SameRequests.trans ?_ (hfetched.trans hsynced)
    refine SameRequests.trans ?_ (sameRequests_modifyActive hpop)
    refine SameRequests.trans ?_ (calm_disconnect fun _ ↦ mem_connections_of_filter).toSameRequests
    exact SameRequests.of_eq rfl rfl rfl (List.Subset.refl _)
  · obtain rfl := Option.some_inj.1 hfinish
    rw [refusedSyncBlock]
    split_ifs
    · refine SameRequests.trans ?_ (sameRequests_modifyActive fun p ↦ ?_)
      · exact SameRequests.of_eq rfl rfl rfl (List.Subset.refl _)
      · split <;> rfl
    · refine SameRequests.trans ?_
        (calm_disconnect fun _ ↦ mem_connections_of_filter).toSameRequests
      exact SameRequests.of_eq rfl rfl rfl (List.Subset.refl _)

/-! ## Requests that end -/

/-- A peer does not have an item, and it has not been asked for it as a block of synchronization. -/
theorem sameRequests_onItemNotAvailable {item : ItemId}
    (h : item ∈ (s.peer i).itemsRequestedFromPeer ∨
      item ∉ (s.peer i).syncItemsRequestedFromPeer) :
    SameRequests s (s.onItemNotAvailable i item) := by
  rw [onItemNotAvailable]
  split_ifs with hregular hsync
  · exact sameRequests_modifyPeer rfl
  · exact absurd (h.resolve_left hregular) (not_not.2 hsync)
  · exact SameRequests.refl s

/-- The connection to a peer is closed, with all requests to it. -/
theorem Requests.onConnectionClosed (h : s.Requests)
    (hwaiting : ∀ x ∈ s.normalBlocksInProgress, x.originatingPeer ≠ i) (hi : i ∈ s.connections) :
    (s.onConnectionClosed i).Requests := by
  have hconnections : ∀ j, j ∈ (s.onConnectionClosed i).connections ↔ j ∈ s.connections ∧ j ≠ i :=
    fun j ↦ by
      change j ∈ (s.dropConnections [i]).connections ↔ _
      rw [mem_connections_drop, List.mem_singleton]
  have hfrom : (s.onConnectionClosed i).requestedFrom = s.requestedFrom := rfl
  refine ⟨fun id ↦ ?_, fun j hj k hk ↦ ?_, fun j hj ↦ ?_, fun x hx ↦ ?_⟩
  · change id ∈ s.activeSyncRequests.filter (fun id ↦ id ∉ s.requestedFrom i) ↔ _
    rw [Finset.mem_filter, h.exact_ id, hfrom]
    constructor
    · rintro ⟨⟨j, hj, hid⟩, hnot⟩
      exact ⟨j, (hconnections j).2 ⟨hj, fun heq ↦ hnot (heq ▸ hid)⟩, hid⟩
    · rintro ⟨j, hj, hid⟩
      obtain ⟨hj, hne⟩ := (hconnections j).1 hj
      exact ⟨⟨j, hj, hid⟩, fun hid' ↦ hne (h.eq_of_mem j hj i hi id hid hid')⟩
  · exact h.eq_of_mem j ((hconnections j).1 hj).1 k ((hconnections k).1 hk).1
  · exact h.itemType_eq j ((hconnections j).1 hj).1
  · exact (hconnections _).2 ⟨h.waiting x hx, hwaiting x hx⟩

/-- A block of synchronization has arrived. -/
theorem Requests.received {b : BlockMessage} (h : s.Requests) (hi : i ∈ s.connections)
    (hrequested : ⟨blockMessageType, b.blockId⟩ ∈ (s.peer i).syncItemsRequestedFromPeer)
    (hactive : s'.activeSyncRequests = s.activeSyncRequests.erase b.blockId)
    (hconnections : s'.connections = s.connections)
    (hself : (s'.peer i).syncItemsRequestedFromPeer =
      (s.peer i).syncItemsRequestedFromPeer.filter (· ≠ ⟨blockMessageType, b.blockId⟩))
    (hother : ∀ j, j ≠ i → s'.peer j = s.peer j)
    (hwaiting : s'.normalBlocksInProgress = s.normalBlocksInProgress) : s'.Requests := by
  have hbi : b.blockId ∈ s.requestedFrom i := List.mem_map.2 ⟨_, hrequested, rfl⟩
  have hfrom : ∀ j ∈ s.connections, ∀ id,
      id ∈ s'.requestedFrom j ↔ id ∈ s.requestedFrom j ∧ id ≠ b.blockId := by
    intro j hj id
    by_cases hji : j = i
    · subst hji
      simp only [requestedFrom, hself, List.mem_map, List.mem_filter]
      constructor
      · rintro ⟨item, ⟨hmem, hne⟩, rfl⟩
        refine ⟨⟨item, hmem, rfl⟩, fun heq ↦ of_decide_eq_true hne ?_⟩
        rw [← heq, ← h.itemType_eq j hj item hmem]
      · rintro ⟨⟨item, hmem, rfl⟩, hne⟩
        refine ⟨item, ⟨hmem, decide_eq_true fun heq ↦ hne ?_⟩, rfl⟩
        rw [heq]
    · rw [requestedFrom, hother j hji, ← requestedFrom]
      exact ⟨fun hid ↦ ⟨hid, fun heq ↦ hji (h.eq_of_mem j hj i hi id hid (heq ▸ hbi))⟩, And.left⟩
  refine ⟨fun id ↦ ?_, fun j hj k hk id hid hid' ↦ ?_, fun j hj item hitem ↦ ?_, fun x hx ↦ ?_⟩
  · rw [hactive, Finset.mem_erase, h.exact_ id, hconnections]
    constructor
    · rintro ⟨hne, j, hj, hid⟩
      exact ⟨j, hj, (hfrom j hj id).2 ⟨hid, hne⟩⟩
    · rintro ⟨j, hj, hid⟩
      obtain ⟨hid, hne⟩ := (hfrom j hj id).1 hid
      exact ⟨hne, j, hj, hid⟩
  · rw [hconnections] at hj hk
    exact h.eq_of_mem j hj k hk id ((hfrom j hj id).1 hid).1 ((hfrom k hk id).1 hid').1
  · rw [hconnections] at hj
    refine h.itemType_eq j hj item ?_
    by_cases hji : j = i
    · subst hji
      rw [hself] at hitem
      exact List.mem_of_mem_filter hitem
    · rwa [hother j hji] at hitem
  · rw [hconnections]
    exact h.waiting x (hwaiting ▸ hx)

/-- **A block that is received ends its request**, and nothing else is changed by a block. -/
theorem Requests.processBlockMessage {messageHash : ItemHash} {b : BlockMessage} (h : s.Requests)
    (hi : i ∈ s.connections) (hstep : s.processBlockMessage d i messageHash b = some s') :
    s'.Requests := by
  rw [SyncNode.processBlockMessage] at hstep
  split_ifs at hstep with hregular hsync
  · set s₁ := s.modifyPeer i fun p ↦
      { p with
        itemsRequestedFromPeer :=
          p.itemsRequestedFromPeer.filter (· ≠ ⟨blockMessageType, messageHash⟩) } with hs₁
    have hsame : SameRequests s s₁ := sameRequests_modifyPeer rfl
    refine SameRequests.requests (hsame.trans ?_) h
    change s₁.processBlockDuringNormalOperation d ⟨i, messageHash, b⟩ = some s' at hstep
    rw [processBlockDuringNormalOperation] at hstep
    split_ifs at hstep
    · exact sameRequests_finishNormalBlock hi hstep
    · obtain rfl := Option.some_inj.1 hstep
      refine ⟨rfl, fun _ ↦ Iff.rfl, fun _ ↦ rfl, fun x hx ↦ ?_⟩
      rcases List.mem_append.1 hx with hold | hnew
      · exact Or.inl hold
      · exact Or.inr (List.mem_singleton.1 hnew ▸ hi)
  · set s₁ := s.modifyPeer i fun p ↦
      { p with
        syncItemsRequestedFromPeer :=
          p.syncItemsRequestedFromPeer.filter (· ≠ ⟨blockMessageType, b.blockId⟩) } with hs₁
    have hreceived : Requests { s₁ with
        activeSyncRequests := s₁.activeSyncRequests.erase b.blockId
        newReceivedSyncItems := b :: s₁.newReceivedSyncItems } :=
      h.received hi hsync rfl rfl (by simp [hs₁])
        (fun j hj ↦ (modifyPeer_of_ne s hj _ : s₁.peer j = s.peer j)) rfl
    dsimp only at hstep
    split_ifs at hstep
    · refine SameRequests.requests (calm_fetchNextBatch ?_ hstep).toSameRequests hreceived
      exact hi
    · exact Option.some_inj.1 hstep ▸ hreceived
  · exact Option.some_inj.1 hstep ▸ (calm_disconnect_singleton hi).toSameRequests.requests h

/-- Only a handler that fails ends any requests when items are asked for. -/
theorem Requests.onFetchItems {m : FetchItems} (h : s.Requests)
    (hlistening : s.isListening i = true) : (s.onFetchItems d i m).Requests := by
  rw [SyncNode.onFetchItems]
  split
  · exact h
  · exact h.onConnectionClosed (ne_of_isListening hlistening)
      (mem_connections_of_isListening hlistening)
  · exact (sameRequests_modifyPeer rfl).requests h

/-! ## Requests that begin -/

/-- Nobody has been asked for any of these blocks, each of which is there once. -/
structure Unrequested (s : SyncNode) (ids : List ItemHash) : Prop where
  /-- Each is there once. -/
  nodup : ids.Nodup
  /-- Nobody has been asked for it. -/
  notMem : ∀ id ∈ ids, id ∉ s.activeSyncRequests

theorem Unrequested.concat {ids : List ItemHash} {id : ItemHash} (h : s.Unrequested ids)
    (hid : id ∉ ids) (hactive : id ∉ s.activeSyncRequests) : s.Unrequested (ids ++ [id]) := by
  refine ⟨h.nodup.append (List.nodup_singleton id) ?_, fun id' hid' ↦ ?_⟩
  · exact fun id' hid' heq ↦ hid (List.mem_singleton.1 heq ▸ hid')
  · rcases List.mem_append.1 hid' with hold | hnew
    · exact h.notMem id' hold
    · exact List.mem_singleton.1 hnew ▸ hactive

/-- A block is chosen for one peer only, and only if nobody has been asked for it. -/
theorem Unrequested.chooseSyncItems {others ids mine : List ItemHash}
    (h : s.Unrequested (others ++ mine)) :
    s.Unrequested (others ++ s.chooseSyncItems others ids mine) := by
  induction ids generalizing mine with
  | nil => exact h
  | cons id ids ih =>
    rw [SyncNode.chooseSyncItems]
    split_ifs with hskip
    · exact ih h
    all_goals
      simp only [not_or] at hskip
      have hmore := h.concat hskip.2.1 hskip.2.2
      rw [List.append_assoc] at hmore
    · exact hmore
    · exact ih hmore

/-- The requests of a round are for blocks that nobody has been asked for, to active peers. -/
theorem syncItemRequestsToSend_spec (s : SyncNode) :
    s.Unrequested (s.syncItemRequestsToSend.flatMap Prod.snd) ∧
      ∀ x ∈ s.syncItemRequestsToSend, x.1 ∈ s.connections := by
  refine List.foldlRecOn s.activeConnections _
    (motive := fun requests : List (PeerId × List ItemHash) ↦
      s.Unrequested (requests.flatMap Prod.snd) ∧ ∀ x ∈ requests, x.1 ∈ s.connections)
    ⟨⟨List.nodup_nil, fun _ hid ↦ absurd hid List.not_mem_nil⟩,
      fun _ hx ↦ absurd hx List.not_mem_nil⟩ fun requests hrequests i hi ↦ ?_
  split_ifs
  · refine ⟨?_, fun x hx ↦ ?_⟩
    · rw [List.flatMap_append, List.flatMap_singleton]
      exact Unrequested.chooseSyncItems (by rw [List.append_nil]; exact hrequests.1)
    · rcases List.mem_append.1 hx with hold | hnew
      · exact hrequests.2 x hold
      · exact List.mem_singleton.1 hnew ▸ mem_connections_of_active hi
  · exact hrequests

/-- A connected peer is asked for blocks that nobody has been asked for. -/
theorem Requests.requestSyncItemsFromPeer {items : List ItemHash} (h : s.Requests)
    (hi : i ∈ s.connections) (hitems : s.Unrequested items) :
    (s.requestSyncItemsFromPeer i items).Requests := by
  set s' := s.requestSyncItemsFromPeer i items with hs'
  have hself : (s'.peer i).syncItemsRequestedFromPeer =
      (s.peer i).syncItemsRequestedFromPeer ++ items.map (⟨blockMessageType, ·⟩) := by
    simp [hs', SyncNode.requestSyncItemsFromPeer]
  have hother : ∀ j, j ≠ i → s'.peer j = s.peer j := fun j hji ↦ by
    rw [hs', SyncNode.requestSyncItemsFromPeer, modifyPeer_of_ne s hji]
  have hfrom : ∀ j id, id ∈ s'.requestedFrom j ↔ id ∈ s.requestedFrom j ∨ j = i ∧ id ∈ items := by
    intro j id
    by_cases hji : j = i
    · subst hji
      simp [requestedFrom, hself]
    · simp [requestedFrom, hother j hji, hji]
  have hnew : ∀ j ∈ s.connections, ∀ id ∈ items, id ∉ s.requestedFrom j := fun j hj id hid hmem ↦
    hitems.notMem id hid ((h.exact_ id).2 ⟨j, hj, hmem⟩)
  refine ⟨fun id ↦ ?_, fun j hj k hk id hid hid' ↦ ?_, fun j hj item hitem ↦ ?_, h.waiting⟩
  · change id ∈ s.activeSyncRequests ∪ items.toFinset ↔ ∃ j ∈ s.connections, _
    rw [Finset.mem_union, List.mem_toFinset, h.exact_ id]
    constructor
    · rintro (⟨j, hj, hid⟩ | hid)
      · exact ⟨j, hj, (hfrom j id).2 (Or.inl hid)⟩
      · exact ⟨i, hi, (hfrom i id).2 (Or.inr ⟨rfl, hid⟩)⟩
    · rintro ⟨j, hj, hid⟩
      rcases (hfrom j id).1 hid with hold | ⟨-, hid⟩
      · exact Or.inl ⟨j, hj, hold⟩
      · exact Or.inr hid
  · rcases (hfrom j id).1 hid with hold | ⟨rfl, hmem⟩ <;>
      rcases (hfrom k id).1 hid' with hold' | ⟨hk', hmem'⟩
    · exact h.eq_of_mem j hj k hk id hold hold'
    · exact absurd hold (hnew j hj id hmem')
    · exact absurd hold' (hnew k hk id hmem)
    · exact hk'.symm
  · by_cases hji : j = i
    · subst hji
      rw [hself] at hitem
      rcases List.mem_append.1 hitem with hold | hnew
      · exact h.itemType_eq j hj item hold
      · obtain ⟨id, -, rfl⟩ := List.mem_map.1 hnew
        rfl
    · rw [hother j hji] at hitem
      exact h.itemType_eq j hj item hitem

/-- **A round of requests** goes to one peer after the other. -/
theorem Requests.fetchSyncItems (h : s.Requests) : s.fetchSyncItems.Requests := by
  rw [SyncNode.fetchSyncItems]
  split_ifs
  · exact h
  · obtain ⟨hids, hpeers⟩ := s.syncItemRequestsToSend_spec
    generalize s.syncItemRequestsToSend = requests at hids hpeers
    induction requests generalizing s with
    | nil => exact h
    | cons x requests ih =>
      rw [List.flatMap_cons] at hids
      obtain ⟨hfirst, hrest, hdisjoint⟩ := List.nodup_append.1 hids.nodup
      refine ih (h.requestSyncItemsFromPeer (hpeers x List.mem_cons_self) ⟨hfirst, fun id hid ↦
        hids.notMem id (List.mem_append_left _ hid)⟩) ‹_› ⟨hrest, fun id hid hmem ↦ ?_⟩
        fun y hy ↦ hpeers y (List.mem_cons_of_mem _ hy)
      rcases Finset.mem_union.1 hmem with hold | hnew
      · exact hids.notMem id (List.mem_append_right _ hid) hold
      · exact hdisjoint id (List.mem_toFinset.1 hnew) id hid rfl

/-! ## Connections -/

/-- A peer that was not connected has not been asked for anything. -/
theorem Requests.newConnection (h : s.Requests) (hi : i ∉ s.connections)
    (hstep : s.step (.newConnection i) = some s') : s'.Requests := by
  rw [SyncNode.step, if_neg hi] at hstep
  have hpeer : s'.peer = Function.update s.peer i {} := by
    rw [← Option.some_inj.1 hstep]
    rfl
  have hmem : ∀ j, j ∈ s'.connections ↔ j = i ∨ j ∈ s.connections := fun j ↦ by
    rw [← Option.some_inj.1 hstep]
    simp only [connections, modifyPeer, List.mem_append, List.mem_singleton]
    tauto
  have hwaiting : s'.normalBlocksInProgress = s.normalBlocksInProgress := by
    rw [← Option.some_inj.1 hstep]
    rfl
  have hactive : s'.activeSyncRequests = s.activeSyncRequests := by
    rw [← Option.some_inj.1 hstep]
    rfl
  have hself : (s'.peer i).syncItemsRequestedFromPeer = [] := by
    rw [hpeer, Function.update_self]
  have hother : ∀ j ∈ s.connections, s'.peer j = s.peer j := fun j hj ↦ by
    have hji : j ≠ i := fun heq ↦ hi (heq ▸ hj)
    rw [hpeer, Function.update_of_ne hji]
  -- whoever has been asked for anything was connected before
  have hold : ∀ j ∈ s'.connections, ∀ id ∈ s'.requestedFrom j,
      j ∈ s.connections ∧ id ∈ s.requestedFrom j := by
    intro j hj id hid
    rcases (hmem j).1 hj with rfl | hj
    · rw [requestedFrom, hself] at hid
      exact absurd hid List.not_mem_nil
    · rw [requestedFrom, hother j hj] at hid
      exact ⟨hj, hid⟩
  refine ⟨fun id ↦ ?_, fun j hj k hk id hid hid' ↦ ?_, fun j hj item hitem ↦ ?_, fun x hx ↦ ?_⟩
  · rw [hactive, h.exact_ id]
    constructor
    · rintro ⟨j, hj, hid⟩
      refine ⟨j, (hmem j).2 (Or.inr hj), ?_⟩
      rw [requestedFrom, hother j hj]
      exact hid
    · rintro ⟨j, hj, hid⟩
      exact ⟨j, hold j hj id hid⟩
  · obtain ⟨hj, hid⟩ := hold j hj id hid
    obtain ⟨hk, hid'⟩ := hold k hk id hid'
    exact h.eq_of_mem j hj k hk id hid hid'
  · obtain ⟨hj', -⟩ := hold j hj _ (List.mem_map_of_mem hitem)
    rw [hother j hj'] at hitem
    exact h.itemType_eq j hj' item hitem
  · exact (hmem _).2 (Or.inr (h.waiting x (hwaiting ▸ hx)))

/-! ## Refusals -/

/-- A peer says that it does not have a block of synchronization that it has been asked for. -/
def Refuses (s : SyncNode) : SyncEvent → Prop
  | .itemNotAvailable i requestedItem =>
    requestedItem ∉ (s.peer i).itemsRequestedFromPeer ∧
      requestedItem ∈ (s.peer i).syncItemsRequestedFromPeer
  | _ => False

instance (s : SyncNode) : DecidablePred s.Refuses
  | .itemNotAvailable _ _ => inferInstanceAs (Decidable (_ ∧ _))
  | .newConnection _ | .newPeerJustAdded _ _ | .fetchItemIds _ _ _ | .inventory _ _ _
  | .fetchItems _ _ _ | .block _ _ _ _ | .handledNormal _ _ _ | .backlog | .handled _ _ _
  | .fetchSyncItems | .timeout _ | .connectionClosed _ | .broadcast _ _ | .elsewhere _ _ _ =>
    inferInstanceAs (Decidable False)

/-- **Any other event keeps the requests.** -/
theorem Requests.step {e : SyncEvent} (h : s.Requests) (he : ¬ s.Refuses e)
    (hstep : s.step e = some s') : s'.Requests := by
  cases e with
  | newConnection i =>
    by_cases hi : i ∈ s.connections
    · rw [SyncNode.step, if_pos hi] at hstep
      cases hstep
    · exact h.newConnection hi hstep
  | newPeerJustAdded d i =>
    rw [SyncNode.step] at hstep
    split_ifs at hstep with hi
    have hconnected := mem_connections_of_handshaking hi
    have hsame := sameRequests_movePeerToActiveList hconnected
    exact (hsame.trans (sameRequests_startSynchronizing ((hsame.mem_connections i).2 hconnected)
      hstep)).requests h
  | fetchItemIds d i m =>
    rw [SyncNode.step] at hstep
    split_ifs at hstep with hi
    exact (sameRequests_onFetchBlockchainItemIds (mem_connections_of_isListening hi)
      hstep).requests h
  | inventory d i m =>
    rw [SyncNode.step] at hstep
    split_ifs at hstep with hi
    exact (calm_onBlockchainItemIdsInventory (mem_connections_of_isListening hi)
      hstep).toSameRequests.requests h
  | fetchItems d i m =>
    rw [SyncNode.step] at hstep
    split_ifs at hstep with hi
    exact Option.some_inj.1 hstep ▸ h.onFetchItems hi
  | block d i messageHash b =>
    rw [SyncNode.step] at hstep
    split_ifs at hstep with hi
    exact h.processBlockMessage (mem_connections_of_isListening hi) hstep
  | itemNotAvailable i requestedItem =>
    rw [SyncNode.step] at hstep
    split_ifs at hstep with hi
    refine Option.some_inj.1 hstep ▸ (sameRequests_onItemNotAvailable ?_).requests h
    exact or_iff_not_imp_left.2 fun hregular hsync ↦ he ⟨hregular, hsync⟩
  | handledNormal d n outcome => exact (sameRequests_handledNormalBlock h hstep).requests h
  | backlog => exact Option.some_inj.1 hstep ▸ (sameRequests_processBacklog s).requests h
  | handled d n outcome => exact (sameRequests_sendSyncBlock hstep).requests h
  | fetchSyncItems => exact Option.some_inj.1 hstep ▸ h.fetchSyncItems
  | timeout i =>
    rw [SyncNode.step] at hstep
    split_ifs at hstep with hi
    exact Option.some_inj.1 hstep ▸ (calm_movePeerToTerminatingList hi).toSameRequests.requests h
  | connectionClosed i =>
    rw [SyncNode.step] at hstep
    split_ifs at hstep with hi
    exact Option.some_inj.1 hstep ▸ h.onConnectionClosed (ne_of_isListening hi)
      (mem_connections_of_isListening hi)
  | broadcast messageHash b =>
    exact Option.some_inj.1 hstep ▸ (calm_broadcast s messageHash b).toSameRequests.requests h
  | elsewhere i advertised requested =>
    exact Option.some_inj.1 hstep ▸ (sameRequests_modifyPeer rfl).requests h

/-- **A refusal leaves a request behind** that is to nobody. -/
theorem Requests.not_requestsExact {e : SyncEvent} (h : s.Requests) (he : s.Refuses e)
    (hstep : s.step e = some s') : ¬ s'.RequestsExact := by
  cases e with
  | itemNotAvailable i requestedItem =>
    obtain ⟨hregular, hsync⟩ := he
    rw [SyncNode.step] at hstep
    split_ifs at hstep with hlistening
    have hi := mem_connections_of_isListening hlistening
    obtain rfl := Option.some_inj.1 hstep
    rw [SyncNode.onItemNotAvailable, if_neg hregular, if_pos hsync]
    set s₁ := s.modifyPeer i fun p ↦
      { p with
        syncItemsRequestedFromPeer :=
          p.syncItemsRequestedFromPeer.filter (· ≠ requestedItem) } with hs₁
    have hleft : ¬ s₁.RequestsExact := by
      intro hexact
      have hid : requestedItem.itemHash ∈ s.requestedFrom i := List.mem_map_of_mem hsync
      obtain ⟨j, hj, hid'⟩ := (hexact requestedItem.itemHash).1 ((h.exact_ _).2 ⟨i, hi, hid⟩)
      by_cases hji : j = i
      · subst hji
        rw [requestedFrom, hs₁, modifyPeer_self] at hid'
        obtain ⟨item, hitem, heq⟩ := List.mem_map.1 hid'
        obtain ⟨hitem, hne⟩ := List.mem_filter.1 hitem
        refine of_decide_eq_true hne (ItemId.mk.injEq .. ▸ ⟨?_, heq⟩)
        rw [h.itemType_eq j hi item hitem, h.itemType_eq j hi requestedItem hsync]
      · rw [requestedFrom, hs₁, modifyPeer_of_ne _ hji] at hid'
        exact hji (h.eq_of_mem j hj i hi _ hid' hid)
    dsimp only
    split_ifs
    · rwa [SameRequests.requestsExact_iff (sameRequests_modifyPeer rfl)]
    · have hconnected : i ∈ s₁.connections := hi
      rwa [(calm_disconnect_singleton hconnected).toSameRequests.requestsExact_iff]
  | _ => exact absurd he id

/-! ## Runs -/

theorem Unconnected.requests (h : s.Unconnected) : s.Requests := by
  refine ⟨?_, ?_, ?_, ?_⟩ <;>
    simp [RequestsExact, h.connections_eq, h.activeSyncRequests_eq, h.normalBlocksInProgress_eq]

/-- **The active requests are exact** in every state of a run exactly if no peer refuses a block of
synchronization that it has been asked for. -/
theorem sync_requests_exact_iff {s t : SyncNode} {events : List SyncEvent} (hs : s.Unconnected)
    (h : applied SyncNode.step s events = some t) :
    (∀ run, run <+: events → ∀ s' ∈ applied SyncNode.step s run, s'.RequestsExact) ↔
      Throughout SyncNode.step (fun s e ↦ ¬ s.Refuses e) s events :=
  forall_prefix_iff_throughout (G := Requests)
    (fun _ _ _ hgood hstep hq ↦ hgood.step hq hstep)
    (fun _ _ _ hgood hstep hq ↦ hgood.not_requestsExact (not_not.1 hq) hstep)
    (fun _ hgood ↦ hgood.exact_) hs.requests h

end SyncNode

/-! ## A request that is left behind -/

namespace SyncRequestRuns

open SyncRuns

/-- A block of synchronization arrives, and a connection with requests is closed. -/
def exactly : List SyncEvent :=
  connected ++ [.block (client 2) 0 (messageHash 3) (block 3), .connectionClosed 0]

/-- Two peers have block 3, and one that was asked for it says that it does not. -/
def refused : List SyncEvent :=
  connected ++ connect 1 ++ [.inventory (client 2) 1 (ids 2 5 0),
    .itemNotAvailable 0 ⟨blockMessageType, blockId 3⟩]

/-- The run comes to its end, and without a refusal the requests are exact in every state. -/
theorem exactly_exact : (applied SyncNode.step start exactly).isSome = true ∧
    ∀ run, run <+: exactly → ∀ s' ∈ applied SyncNode.step start run, s'.RequestsExact := by
  have happlied : (applied SyncNode.step start exactly).isSome = true := by decide +kernel
  obtain ⟨t, ht⟩ := Option.isSome_iff_exists.1 happlied
  exact ⟨happlied, (SyncNode.sync_requests_exact_iff ⟨rfl, rfl, rfl⟩ ht).2 (by decide +kernel)⟩

/-- What there is of a block after a run: it is among the active requests, the other peer has it on
its list and can be asked for blocks, nobody has been asked for it, and nobody is about to be. -/
def orphaned (id : ItemHash) (s : SyncNode) : Bool :=
  id ∈ s.activeSyncRequests && 1 ∈ s.activeConnections && id ∈ (s.peer 1).idsOfItemsToGet &&
    (s.peer 1).idle && !(s.peer 1).inhibitFetchingSyncBlocks &&
    s.connections.all (fun i ↦ id ∉ s.requestedFrom i) &&
    s.syncItemRequestsToSend.all fun x ↦ id ∉ x.2

/-- **A block that is never asked for again**: a peer that was asked for it does not have it, and
another peer does. -/
theorem sync_requests_orphaned :
    ∃ t, applied SyncNode.step start refused = some t ∧ orphaned (blockId 3) t = true ∧
      ¬ t.RequestsExact := by
  have hrun : (applied SyncNode.step start refused).any (orphaned (blockId 3)) = true := by
    decide +kernel
  obtain ⟨t, ht, horphaned⟩ := (Option.any_eq_true ..).1 hrun
  refine ⟨t, ht, horphaned, fun hexact ↦ ?_⟩
  simp only [orphaned, Bool.and_eq_true, decide_eq_true_eq, List.all_eq_true] at horphaned
  obtain ⟨i, hi, hid⟩ := (hexact _).1 horphaned.1.1.1.1.1.1
  exact horphaned.1.2 i hi hid

end SyncRequestRuns

end Graphene
