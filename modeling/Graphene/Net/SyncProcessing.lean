import Graphene.Net.SyncFrames
import Graphene.Net.SyncList

/-!
# Blocks that are being processed

A block is taken off the list of a peer when it is handed to the client, and is being processed
until the client is done with it.  Two things leave a block being processed for ever: it has been
accepted in normal operation by then, so that it is not handed to the client; and the peer is
synchronized with again, after it was set aside because the client could not use one of its blocks.

* `SyncNode.NoneStuck` — what is to hold.
* `SyncNode.overtakes`, `SyncNode.leavesBehind` — the two ways.
* `SyncNode.none_stuck_iff` — along a run no block is stuck exactly as long as neither happens.
* `SyncProcessingRuns.blocks_stuck` — a run for each of them.
-/

set_option autoImplicit false

namespace Graphene

open Transitions

namespace SyncNode

/-! ## What is to hold -/

/-- If blocks are fetched from the peer, then all of its that are being processed are with the
client. -/
def NotStuck (s : SyncNode) (i : PeerId) : Prop :=
  (s.peer i).inhibitFetchingSyncBlocks = false →
    ∀ id ∈ (s.peer i).idsOfItemsBeingProcessed, id ∈ s.inProgress

instance (s : SyncNode) (i : PeerId) : Decidable (s.NotStuck i) :=
  inferInstanceAs (Decidable (_ → ∀ _ ∈ _, _))

/-- No block of an active peer is stuck. -/
def NoneStuck (s : SyncNode) : Prop := ∀ i ∈ s.activeConnections, s.NotStuck i

instance (s : SyncNode) : Decidable s.NoneStuck := inferInstanceAs (Decidable (∀ _ ∈ _, _))

/-- What holds along a run. -/
structure Processing (s : SyncNode) : Prop where
  /-- No block is stuck. -/
  noneStuck : s.NoneStuck
  /-- A peer in the handshake is not active. -/
  notMem_active : ∀ i ∈ s.handshakingConnections, i ∉ s.activeConnections
  /-- No block of such a peer is being processed. -/
  processed_eq_empty : ∀ i ∈ s.handshakingConnections, (s.peer i).idsOfItemsBeingProcessed = ∅
  /-- A connection stays open while a handler of one of its messages waits. -/
  waiting : ∀ x ∈ s.normalBlocksInProgress, x.originatingPeer ∈ s.connections

/-! ## How a block gets stuck -/

/-- The block that the next round of the backlog takes up has been accepted before.  It is taken off
the list of a peer that blocks are fetched from, and it is not with the client. -/
def overtakes (s : SyncNode) : Bool :=
  (s.collectSyncItems.receivedSyncItems.find? fun b ↦ s.isPotentialFirstBlock b.blockId).any
    fun b ↦ b.blockId ∈ s.mostRecentBlocksAccepted && b.blockId ∉ s.inProgress &&
      s.activeConnections.any fun i ↦
        (s.peer i).idsOfItemsToGet.head? = some b.blockId && !(s.peer i).inhibitFetchingSyncBlocks

/-- That is so in one of the rounds. -/
def roundsOvertake : ℕ → SyncNode → Bool
  | 0, _ => false
  | fuel + 1, s =>
    let (s', blockProcessedThisIteration) := s.backlogRound
    s.overtakes ||
      (s'.handleMessageCallsInProgress.length < s'.maximumNumberOfBlocksToHandleAtOneTime &&
        blockProcessedThisIteration && roundsOvertake fuel s')

/-- That is so as the backlog is processed. -/
def backlogOvertakes (s : SyncNode) : Bool :=
  let s := { s with
    handleMessageCallsInProgress := s.handleMessageCallsInProgress.filter (!·.ready) }
  s.handleMessageCallsInProgress.length < s.maximumNumberOfBlocksToHandleAtOneTime &&
    roundsOvertake (s.newReceivedSyncItems.length + s.receivedSyncItems.length + 1)
      { s with suspendFetchingSyncBlocks := false }

/-- The peer is active and no blocks are fetched from it; one that is being processed is not with
the client, which has a synopsis to start again with. -/
def leavesBehind (s : SyncNode) (d : NodeDelegate) (i : PeerId) : Bool :=
  i ∈ s.activeConnections && (s.peer i).inhibitFetchingSyncBlocks &&
    (d.getBlockchainSynopsis ItemHash.zero 0).isSome &&
    decide (∃ id ∈ (s.peer i).idsOfItemsBeingProcessed, id ∉ s.inProgress)

/-- The event leaves a block being processed. -/
def sticks (s : SyncNode) : SyncEvent → Bool
  | .backlog => s.backlogOvertakes
  | .fetchItemIds d i m =>
    restartsSync d (s.peer i) m && !hasAllItems d m && s.leavesBehind d i
  | .handledNormal d n outcome =>
    outcome = .unlinkable &&
      (s.normalBlocksInProgress[n]?).any fun x ↦ s.leavesBehind d x.originatingPeer
  | _ => false

variable {s s' : SyncNode} {d : NodeDelegate} {i : PeerId}

/-! ## What most handlers keep -/

theorem NotStuck.of_sameProcessing (hsame : SameProcessing s s') (hi : i ∈ s'.activeConnections)
    (h : s.NotStuck i) : s'.NotStuck i := by
  intro hfetching id hid
  rw [hsame.processed_eq] at hid
  rw [hsame.inProgress_eq]
  refine h (Bool.eq_false_iff.2 fun hinhibited ↦ ?_) id hid
  exact Bool.eq_false_iff.1 hfetching (hsame.inhibited i hi hinhibited)

theorem Processing.of_sameProcessing (hsame : SameProcessing s s')
    (hwaiting : ∀ x ∈ s'.normalBlocksInProgress, x.originatingPeer ∈ s'.connections)
    (h : s.Processing) : s'.Processing where
  noneStuck i hi := NotStuck.of_sameProcessing hsame hi (h.noneStuck i (hsame.active_subset hi))
  notMem_active i hi hactive :=
    h.notMem_active i (hsame.handshaking_subset hi) (hsame.active_subset hactive)
  processed_eq_empty i hi := by
    rw [hsame.processed_eq]
    exact h.processed_eq_empty i (hsame.handshaking_subset hi)
  waiting := hwaiting

theorem Processing.of_calm (hcalm : Calm s s') (h : s.Processing) : s'.Processing :=
  h.of_sameProcessing hcalm.toSameProcessing fun x hx ↦
    (hcalm.mem_connections _).2 ((hcalm.waiting x hx).elim (h.waiting x) id)

/-! ## Connections -/

theorem Processing.onConnectionClosed (h : s.Processing)
    (hwaiting : ∀ x ∈ s.normalBlocksInProgress, x.originatingPeer ≠ i) :
    (s.onConnectionClosed i).Processing := by
  refine h.of_sameProcessing (sameProcessing_onConnectionClosed s i) fun x hx ↦ ?_
  change x.originatingPeer ∈ (s.dropConnections [i]).connections
  rw [mem_connections_drop, List.mem_singleton]
  exact ⟨h.waiting x hx, hwaiting x hx⟩

/-- No block is being processed of a peer whose connection has just been made. -/
theorem Processing.newConnection (h : s.Processing) (hi : i ∉ s.connections)
    (hstep : s.step (.newConnection i) = some s') : s'.Processing := by
  rw [SyncNode.step, if_neg hi] at hstep
  obtain rfl := Option.some_inj.1 hstep
  have hother : ∀ j ∈ s.connections, (s.modifyPeer i fun _ ↦ {}).peer j = s.peer j :=
    fun j hj ↦ by
      have hji : j ≠ i := fun heq ↦ hi (heq ▸ hj)
      exact modifyPeer_of_ne s hji _
  refine ⟨fun j hj ↦ ?_, fun j hj hactive ↦ ?_, fun j hj ↦ ?_, fun x hx ↦ ?_⟩
  · have hpeer := hother j (mem_connections_of_active hj)
    have hnot := h.noneStuck j hj
    rwa [NotStuck, ← hpeer] at hnot
  · rcases List.mem_append.1 hj with hold | hnew
    · exact h.notMem_active j hold hactive
    · exact hi (List.mem_singleton.1 hnew ▸ mem_connections_of_active hactive)
  · rcases List.mem_append.1 hj with hold | hnew
    · have hpeer := hother j (mem_connections_of_handshaking hold)
      exact (congrArg Peer.idsOfItemsBeingProcessed hpeer).trans (h.processed_eq_empty j hold)
    · obtain rfl := List.mem_singleton.1 hnew
      exact congrArg Peer.idsOfItemsBeingProcessed (modifyPeer_self s j fun _ ↦ {})
  · have hconnected := h.waiting x hx
    simp only [connections, modifyPeer, List.mem_append] at hconnected ⊢
    tauto

/-- A peer goes from the handshake to the active ones. -/
theorem Processing.movePeerToActiveList (h : s.Processing) (hi : i ∈ s.handshakingConnections) :
    (s.movePeerToActiveList i).Processing := by
  refine ⟨fun j hj ↦ ?_, fun j hj hactive ↦ ?_, fun j hj ↦ ?_, fun x hx ↦ ?_⟩
  · rcases List.mem_append.1 hj with hold | hnew
    · exact h.noneStuck j (List.mem_of_mem_filter hold)
    · intro _ id hid
      obtain rfl := List.mem_singleton.1 hnew
      have hid : id ∈ (s.peer j).idsOfItemsBeingProcessed := hid
      rw [h.processed_eq_empty j hi] at hid
      exact absurd hid (Finset.notMem_empty id)
  · obtain ⟨hj, hne⟩ := List.mem_filter.1 hj
    rcases List.mem_append.1 hactive with hold | hnew
    · exact h.notMem_active j hj (List.mem_of_mem_filter hold)
    · exact of_decide_eq_true hne hnew
  · exact h.processed_eq_empty j (List.mem_of_mem_filter hj)
  · exact ((sameRequests_movePeerToActiveList
      (mem_connections_of_handshaking hi)).mem_connections _).2 (h.waiting x hx)

/-! ## Starting again -/

/-- Synchronization starts again, or the connection is closed. -/
theorem startSynchronizing_cases (h : s.startSynchronizingWithPeer d i = some s') :
    (∃ synopsis, d.getBlockchainSynopsis ItemHash.zero 0 = some synopsis ∧
        s' = (s.modifyPeer i (restarted d)).modifyPeer i fun p ↦
          { p with itemIdsRequestedFromPeer := some synopsis }) ∨
      d.getBlockchainSynopsis ItemHash.zero 0 = none ∧
        s' = (s.modifyPeer i (restarted d)).disconnect [i] := by
  obtain ⟨synopsis, hsynopsis, rfl⟩ := Option.map_eq_some_iff.1 h
  rw [modifyPeer_self, Peer.createBlockchainSynopsis_of_isEmpty d rfl] at hsynopsis
  have hsynopsis : d.getBlockchainSynopsis ItemHash.zero 0 = synopsis := Option.some_inj.1 hsynopsis
  cases hclient : d.getBlockchainSynopsis ItemHash.zero 0 with
  | none =>
    obtain rfl := hclient.symm.trans hsynopsis
    exact Or.inr ⟨rfl, rfl⟩
  | some ids =>
    obtain rfl := hclient.symm.trans hsynopsis
    exact Or.inl ⟨ids, rfl, rfl⟩

/-- It makes no difference that synchronization starts again if the peer is not active by the
end. -/
theorem SameProcessing.of_restarted (h : SameProcessing (s.modifyPeer i (restarted d)) s')
    (hi : i ∉ s'.activeConnections) : SameProcessing s s' := by
  refine ⟨h.inProgress_eq, h.handshaking_subset, h.active_subset, fun j ↦ ?_, fun j hj ↦ ?_⟩
  · rw [h.processed_eq]
    by_cases hji : j = i
    · subst hji
      rw [modifyPeer_self]
      rfl
    · rw [modifyPeer_of_ne _ hji]
  · have hji : j ≠ i := fun heq ↦ hi (heq ▸ hj)
    have hinhibited := h.inhibited j hj
    rwa [modifyPeer_of_ne _ hji] at hinhibited

theorem Processing.restarted (h : s.Processing)
    (hi : i ∈ s.activeConnections → ∀ id ∈ (s.peer i).idsOfItemsBeingProcessed,
      id ∈ s.inProgress) : (s.modifyPeer i (restarted d)).Processing := by
  refine ⟨fun j hj ↦ ?_, h.notMem_active, fun j hj ↦ ?_, h.waiting⟩
  · by_cases hji : j = i
    · subst hji
      intro _ id hid
      rw [modifyPeer_self] at hid
      exact hi hj id hid
    · have hnot := h.noneStuck j hj
      rwa [NotStuck, ← modifyPeer_of_ne s hji (SyncNode.restarted d)] at hnot
  · by_cases hji : j = i
    · subst hji
      rw [modifyPeer_self]
      exact h.processed_eq_empty j hj
    · rw [modifyPeer_of_ne _ hji]
      exact h.processed_eq_empty j hj

/-- What it means that no block is left behind. -/
theorem Processing.of_leavesBehind (h : s.Processing) (hleft : s.leavesBehind d i = false)
    (hclient : (d.getBlockchainSynopsis ItemHash.zero 0).isSome = true)
    (hi : i ∈ s.activeConnections) :
    ∀ id ∈ (s.peer i).idsOfItemsBeingProcessed, id ∈ s.inProgress := by
  intro id hid
  by_contra hnot
  cases hinhibited : (s.peer i).inhibitFetchingSyncBlocks with
  | false => exact hnot (h.noneStuck i hi hinhibited id hid)
  | true =>
    refine Bool.eq_false_iff.1 hleft ?_
    simp only [leavesBehind, hi, hinhibited, hclient, decide_true, Bool.true_and,
      decide_eq_true_eq]
    exact ⟨id, hid, hnot⟩

/-- **Synchronization starts again** with a peer that leaves no block behind. -/
theorem Processing.startSynchronizing (h : s.Processing) (hi : i ∈ s.connections)
    (hleft : s.leavesBehind d i = false) (hstep : s.startSynchronizingWithPeer d i = some s') :
    s'.Processing := by
  rcases startSynchronizing_cases hstep with ⟨synopsis, hclient, rfl⟩ | ⟨-, rfl⟩
  · refine Processing.of_calm (calm_modifyPeer ⟨rfl, rfl, id⟩) (h.restarted fun hactive ↦ ?_)
    exact h.of_leavesBehind hleft (by rw [hclient]; rfl) hactive
  · have hconnected : i ∈ (s.modifyPeer i (SyncNode.restarted d)).connections := hi
    have hcalm := calm_disconnect_singleton hconnected
    refine h.of_sameProcessing (hcalm.toSameProcessing.of_restarted ?_) fun x hx ↦ ?_
    · simp [disconnect, dropConnections]
    · exact (hcalm.mem_connections _).2 (h.waiting x hx)

/-- Synchronization starts again with a peer that leaves a block behind. -/
theorem not_noneStuck_of_leavesBehind (hleft : s.leavesBehind d i = true)
    (hstep : s.startSynchronizingWithPeer d i = some s') : ¬ s'.NoneStuck := by
  simp only [leavesBehind, Bool.and_eq_true, decide_eq_true_eq] at hleft
  obtain ⟨⟨⟨hi, -⟩, hclient⟩, id, hid, hnot⟩ := hleft
  rcases startSynchronizing_cases hstep with ⟨synopsis, -, rfl⟩ | ⟨hnone, -⟩
  · intro hstuck
    refine hnot (hstuck i hi ?_ id ?_)
    · rw [modifyPeer_self, modifyPeer_self]
      rfl
    · rw [modifyPeer_self, modifyPeer_self]
      exact hid
  · rw [hnone] at hclient
    cases hclient

/-! ## Requests for ids -/

theorem leavesBehind_noteItemsNeeded {m : FetchItemIds} :
    (s.noteItemsNeeded d i m).leavesBehind d i = s.leavesBehind d i := by
  simp only [leavesBehind, noteItemsNeeded, modifyPeer_self]
  rfl

/-- A request for ids that leaves no block behind. -/
theorem Processing.onFetchBlockchainItemIds {m : FetchItemIds} (h : s.Processing)
    (hi : i ∈ s.connections) (hsticks : s.sticks (.fetchItemIds d i m) = false)
    (hstep : s.onFetchBlockchainItemIds d i m = some s') : s'.Processing := by
  obtain ⟨s₂, hrestart, rfl⟩ := Option.map_eq_some_iff.1 hstep
  have hnote := calm_noteItemsNeeded s d i m
  have hi := (hnote.mem_connections i).2 hi
  have hnoted := h.of_calm hnote
  split_ifs at hrestart with hrestarts
  · have hcalm := calm_startSynchronizing hi hrestart
    have hconnected : i ∈ s₂.connections := (hcalm.mem_connections i).2 hi
    split_ifs with hdisconnect
    · -- the peer is not active any more
      have hclosed := hcalm.trans (calm_disconnect_singleton hconnected)
      refine hnoted.of_sameProcessing (hclosed.toSameProcessing.of_restarted ?_) fun x hx ↦ ?_
      · simp [disconnect, dropConnections]
      · exact (hclosed.mem_connections _).2 ((hclosed.waiting x hx).elim (hnoted.waiting x) id)
    · refine hnoted.startSynchronizing hi ?_ hrestart
      rw [leavesBehind_noteItemsNeeded]
      cases hinhibited : (s.peer i).inhibitFetchingSyncBlocks with
      | false => simp [leavesBehind, hinhibited]
      | true =>
        have hall : hasAllItems d m = false := by simpa [hinhibited] using hdisconnect
        simpa [sticks, hrestarts, hall] using hsticks
  · obtain rfl := Option.some_inj.1 hrestart
    split_ifs
    · exact hnoted.of_calm (calm_disconnect_singleton hi)
    · exact hnoted

/-- A request for ids that leaves a block behind. -/
theorem not_noneStuck_onFetchBlockchainItemIds {m : FetchItemIds}
    (hsticks : s.sticks (.fetchItemIds d i m) = true)
    (hstep : s.onFetchBlockchainItemIds d i m = some s') : ¬ s'.NoneStuck := by
  simp only [sticks, Bool.and_eq_true, Bool.not_eq_true'] at hsticks
  obtain ⟨⟨hrestarts, hall⟩, hleft⟩ := hsticks
  rw [← leavesBehind_noteItemsNeeded (m := m)] at hleft
  rw [SyncNode.onFetchBlockchainItemIds, if_pos hrestarts, hall] at hstep
  obtain ⟨s₂, hrestart, rfl⟩ := Option.map_eq_some_iff.1 hstep
  exact not_noneStuck_of_leavesBehind hleft hrestart

/-! ## Blocks for the chain -/

/-- A block of normal operation that leaves no block behind. -/
theorem Processing.handledNormalBlock {n : ℕ} {outcome : HandleBlock} (h : s.Processing)
    (hsticks : s.sticks (.handledNormal d n outcome) = false)
    (hstep : s.handledNormalBlock d n outcome = some s') : s'.Processing := by
  obtain ⟨x, hx, hfinish⟩ := Option.bind_eq_some_iff.1 hstep
  have horiginating := h.waiting x (List.mem_of_getElem? hx)
  have hresume := calm_resumeNormalBlock s n
  dsimp only at hfinish
  split_ifs at hfinish with haccepted
  · have hcalm := hresume.trans (calm_acceptedBlock _ x.block.blockId)
    exact h.of_calm
      (hcalm.trans (calm_finishNormalBlock horiginating (by simp [haccepted]) hfinish))
  · by_cases hlinks : outcome = .unlinkable
    · subst hlinks
      refine (h.of_calm hresume).startSynchronizing horiginating ?_ hfinish
      change s.leavesBehind d x.originatingPeer = false
      simpa [sticks, hx] using hsticks
    · exact h.of_calm (hresume.trans (calm_finishNormalBlock horiginating hlinks hfinish))

/-- A block of normal operation that leaves a block behind. -/
theorem not_noneStuck_handledNormalBlock {n : ℕ} {outcome : HandleBlock}
    (hsticks : s.sticks (.handledNormal d n outcome) = true)
    (hstep : s.handledNormalBlock d n outcome = some s') : ¬ s'.NoneStuck := by
  simp only [sticks, Bool.and_eq_true, decide_eq_true_eq] at hsticks
  obtain ⟨rfl, hany⟩ := hsticks
  obtain ⟨x, hx, hfinish⟩ := Option.bind_eq_some_iff.1 hstep
  rw [hx] at hany
  dsimp only at hfinish
  rw [if_neg (by decide)] at hfinish
  refine not_noneStuck_of_leavesBehind ?_ hfinish
  exact hany

/-! ## The backlog -/

/-- What is being processed of a peer after a block has been taken off the lists. -/
theorem mem_processed_popFirst {id id' : ItemHash} {p : Peer}
    (h : id' ∈ (popFirst id p).idsOfItemsBeingProcessed) :
    id' ∈ p.idsOfItemsBeingProcessed ∨ id' = id ∧ p.idsOfItemsToGet.head? = some id := by
  rw [popFirst] at h
  split_ifs at h with hfirst
  · rcases Finset.mem_insert.1 h with rfl | hold
    · exact Or.inr ⟨rfl, hfirst⟩
    · exact Or.inl hold
  · exact Or.inl h

theorem inhibited_popFirst (id : ItemHash) (p : Peer) :
    (popFirst id p).inhibitFetchingSyncBlocks = p.inhibitFetchingSyncBlocks := by
  rw [popFirst]
  split_ifs <;> rfl

/-- A block is taken off the lists, and is with the client or not. -/
theorem Processing.popFirst {id : ItemHash} (h : s.Processing)
    (hpeer : s'.peer = (s.modifyActive (popFirst id)).peer)
    (hactive : s'.activeConnections = s.activeConnections)
    (hhandshaking : s'.handshakingConnections = s.handshakingConnections)
    (hconnections : s'.connections = s.connections)
    (hwaiting : s'.normalBlocksInProgress = s.normalBlocksInProgress)
    (hinProgress : s.inProgress ⊆ s'.inProgress)
    (hid : ∀ i ∈ s.activeConnections, (s.peer i).idsOfItemsToGet.head? = some id →
      (s.peer i).inhibitFetchingSyncBlocks = false → id ∈ s'.inProgress) : s'.Processing := by
  refine ⟨fun i hi hfetching id' hid' ↦ ?_, fun i hi ↦ ?_, fun i hi ↦ ?_, fun x hx ↦ ?_⟩
  · rw [hactive] at hi
    rw [hpeer, modifyActive_of_mem hi] at hid' hfetching
    rw [inhibited_popFirst] at hfetching
    rcases mem_processed_popFirst hid' with hold | ⟨rfl, hfirst⟩
    · exact hinProgress (h.noneStuck i hi hfetching id' hold)
    · exact hid i hi hfirst hfetching
  · rw [hactive]
    exact h.notMem_active i (hhandshaking ▸ hi)
  · rw [hhandshaking] at hi
    rw [hpeer, modifyActive_of_notMem (h.notMem_active i hi)]
    exact h.processed_eq_empty i hi
  · rw [hconnections]
    exact h.waiting x (hwaiting ▸ hx)

theorem calm_collectSyncItems (s : SyncNode) : Calm s s.collectSyncItems :=
  Calm.of_eq rfl rfl rfl rfl rfl rfl (List.Subset.refl _)

/-- A round of the backlog that does not overtake: what is taken off a list is with the client. -/
theorem Processing.backlogRound (h : s.Processing) (hnot : s.overtakes = false) :
    s.backlogRound.1.Processing := by
  have hcollected := h.of_calm (calm_collectSyncItems s)
  rw [SyncNode.backlogRound]
  dsimp only
  split
  next => exact hcollected
  next b hfind =>
    split_ifs with haccepted
    · refine hcollected.popFirst rfl rfl rfl rfl rfl (List.Subset.refl _)
        fun i hi hfirst hfetch ↦ ?_
      by_contra hid
      refine Bool.eq_false_iff.1 hnot ((Option.any_eq_true ..).2 ⟨b, hfind, ?_⟩)
      simp only [Bool.and_eq_true, decide_eq_true_eq, List.any_eq_true, Bool.not_eq_true']
      exact ⟨⟨haccepted, hid⟩, i, hi, hfirst, hfetch⟩
    · set s' : SyncNode := { s.collectSyncItems.modifyActive (SyncNode.popFirst b.blockId) with
        receivedSyncItems := s.collectSyncItems.receivedSyncItems.eraseP fun b ↦
          s.collectSyncItems.isPotentialFirstBlock b.blockId
        handleMessageCallsInProgress :=
          s.collectSyncItems.handleMessageCallsInProgress ++ [⟨b, false⟩] } with hs'
      have hinProgress : s'.inProgress = s.collectSyncItems.inProgress ++ [b.blockId] :=
        inProgress_concat rfl
      refine hcollected.popFirst rfl rfl rfl rfl rfl ?_ fun i hi hfirst hfetch ↦ ?_
      · rw [hinProgress]
        exact List.subset_append_left _ _
      · rw [hinProgress]
        exact List.mem_append_right _ (List.mem_singleton_self _)

/-- A round that overtakes is the last one, and leaves a block that is stuck. -/
theorem backlogRound_of_overtakes (h : s.overtakes = true) :
    s.backlogRound.2 = false ∧ ¬ s.backlogRound.1.NoneStuck := by
  obtain ⟨b, hfind, hovertakes⟩ := (Option.any_eq_true ..).1 h
  simp only [Bool.and_eq_true, decide_eq_true_eq, List.any_eq_true,
    Bool.not_eq_true'] at hovertakes
  obtain ⟨⟨haccepted, hid⟩, i, hi, hfirst, hfetch⟩ := hovertakes
  have hround : s.backlogRound =
      (s.collectSyncItems.modifyActive (SyncNode.popFirst b.blockId), false) := by
    have hfind : (s.collectSyncItems.receivedSyncItems.find? fun b ↦
        s.collectSyncItems.isPotentialFirstBlock b.blockId) = some b := hfind
    have haccepted : b.blockId ∈ s.collectSyncItems.mostRecentBlocksAccepted := haccepted
    rw [SyncNode.backlogRound]
    simp only [hfind, if_pos haccepted]
  rw [hround]
  refine ⟨rfl, fun hstuck ↦ hid ?_⟩
  have hi' : i ∈ s.collectSyncItems.activeConnections := hi
  have hfirst' : (s.collectSyncItems.peer i).idsOfItemsToGet.head? = some b.blockId := hfirst
  refine hstuck i hi ?_ b.blockId ?_
  · rw [modifyActive_of_mem hi', inhibited_popFirst]
    exact hfetch
  · rw [modifyActive_of_mem hi', SyncNode.popFirst, if_pos hfirst']
    exact Finset.mem_insert_self _ _

theorem calm_suspend (s : SyncNode) (suspended : Bool) :
    Calm s { s with suspendFetchingSyncBlocks := suspended } :=
  Calm.of_eq rfl rfl rfl rfl rfl rfl (List.Subset.refl _)

theorem Processing.backlogRounds {fuel : ℕ} (h : s.Processing)
    (hnot : roundsOvertake fuel s = false) : (backlogRounds fuel s).Processing := by
  induction fuel generalizing s with
  | zero => exact h
  | succ fuel ih =>
    rw [roundsOvertake, Bool.or_eq_false_iff] at hnot
    have hround := h.backlogRound hnot.1
    rw [SyncNode.backlogRounds]
    dsimp only
    split_ifs with hfull hprefetch hprocessed
    · exact hround.of_calm (calm_suspend _ true)
    · exact hround
    · refine ih hround ?_
      simpa [Nat.lt_of_not_le hfull, hprocessed] using hnot.2
    · exact hround

/-- Rounds one of which overtakes. -/
theorem not_noneStuck_backlogRounds {fuel : ℕ} (h : roundsOvertake fuel s = true) :
    ¬ (backlogRounds fuel s).NoneStuck := by
  induction fuel generalizing s with
  | zero => cases h
  | succ fuel ih =>
    rw [roundsOvertake] at h
    simp only [Bool.or_eq_true, Bool.and_eq_true, decide_eq_true_eq] at h
    rw [SyncNode.backlogRounds]
    dsimp only
    rcases h with hovertakes | ⟨⟨hroom, hprocessed⟩, hlater⟩
    · obtain ⟨hlast, hstuck⟩ := backlogRound_of_overtakes hovertakes
      simp only [hlast, Bool.false_eq_true, if_false]
      split_ifs
      · exact hstuck
      · exact hstuck
      · exact hstuck
    · rw [if_neg (Nat.not_le.2 hroom), if_pos hprocessed]
      exact ih hlater

/-- **The backlog is processed**, and nothing is overtaken. -/
theorem Processing.processBacklogOfSyncBlocks (h : s.Processing)
    (hnot : s.backlogOvertakes = false) : s.processBacklogOfSyncBlocks.Processing := by
  set s₁ : SyncNode := { s with
    handleMessageCallsInProgress := s.handleMessageCallsInProgress.filter (!·.ready) } with hs₁
  have hs₁ : s₁.Processing := by
    have hinProgress : s₁.inProgress = s.inProgress := by simp [inProgress, hs₁]
    have hsame : SameProcessing s s₁ :=
      SameProcessing.of_eq hinProgress (List.Subset.refl _) (List.Subset.refl _) rfl
    exact h.of_sameProcessing hsame h.waiting
  rw [SyncNode.processBacklogOfSyncBlocks]
  dsimp only
  split_ifs with hfull
  · exact hs₁
  · refine (hs₁.of_calm (calm_suspend _ false)).backlogRounds ?_
    simpa [backlogOvertakes, Nat.lt_of_not_le hfull] using hnot

/-- The backlog is processed, and something is overtaken. -/
theorem not_noneStuck_processBacklog (h : s.backlogOvertakes = true) :
    ¬ s.processBacklogOfSyncBlocks.NoneStuck := by
  simp only [backlogOvertakes, Bool.and_eq_true, decide_eq_true_eq] at h
  rw [SyncNode.processBacklogOfSyncBlocks]
  dsimp only
  rw [if_neg (Nat.not_le.2 h.1)]
  exact not_noneStuck_backlogRounds h.2

/-! ## Blocks the client is done with -/

theorem mem_inProgress {id : ItemHash} : id ∈ s.inProgress ↔
    ∃ c ∈ s.handleMessageCallsInProgress, c.ready = false ∧ c.block.blockId = id := by
  simp [inProgress, and_assoc]

/-- The other tasks are not over. -/
theorem mem_of_finishCall {n : ℕ} {calls calls' : List HandleMessageCall} {b : BlockMessage}
    (h : finishCall n calls = some (b, calls')) {c : HandleMessageCall} (hc : c ∈ calls) :
    c ∈ calls' ∨ c.block = b := by
  induction calls generalizing n calls' with
  | nil => cases hc
  | cons c' calls ih =>
    have hlater : ∀ m, (finishCall m calls).map (fun x ↦ (x.1, c' :: x.2)) = some (b, calls') →
        c ∈ calls' ∨ c.block = b := by
      intro m hm
      obtain ⟨⟨b', calls''⟩, hrest, heq⟩ := Option.map_eq_some_iff.1 hm
      obtain ⟨rfl, rfl⟩ := Prod.mk.inj heq
      rcases List.mem_cons.1 hc with rfl | hc
      · exact Or.inl List.mem_cons_self
      · exact (ih hrest hc).imp_left (List.mem_cons_of_mem _)
    rw [finishCall.eq_def] at h
    dsimp only at h
    split_ifs at h
    · exact hlater n h
    · cases n with
      | zero =>
        obtain ⟨rfl, rfl⟩ := Prod.mk.inj (Option.some_inj.1 h)
        rcases List.mem_cons.1 hc with rfl | hc
        · exact Or.inr rfl
        · exact Or.inl (List.mem_cons_of_mem _ hc)
      | succ n => exact hlater n h

/-- The other blocks are still with the client. -/
theorem mem_inProgress_of_finishCall {n : ℕ} {b : BlockMessage}
    (h : finishCall n s.handleMessageCallsInProgress = some (b, s'.handleMessageCallsInProgress))
    {id : ItemHash} (hid : id ∈ s.inProgress) (hne : id ≠ b.blockId) : id ∈ s'.inProgress := by
  obtain ⟨c, hc, hready, rfl⟩ := mem_inProgress.1 hid
  rcases mem_of_finishCall h hc with hc | rfl
  · exact mem_inProgress.2 ⟨c, hc, hready, rfl⟩
  · exact absurd rfl hne

/-- Synchronization starts again with peers of which no block is being processed. -/
theorem Processing.foldlM_startSynchronizing {peers : List PeerId} (h : s.Processing)
    (hpeers : ∀ i ∈ peers, i ∈ s.connections ∧ (s.peer i).idsOfItemsBeingProcessed = ∅)
    (hstep : peers.foldlM (·.startSynchronizingWithPeer d) s = some s') : s'.Processing := by
  induction peers generalizing s with
  | nil =>
    obtain rfl := Option.some.inj hstep
    exact h
  | cons i peers ih =>
    obtain ⟨s₁, hfirst, hrest⟩ := applied_cons.1 hstep
    obtain ⟨hi, hempty⟩ := hpeers i List.mem_cons_self
    have hcalm := calm_startSynchronizing hi hfirst
    refine ih (h.startSynchronizing hi (by simp [leavesBehind, hempty]) hfirst)
      (fun j hj ↦ ?_) hrest
    obtain ⟨hj, hempty'⟩ := hpeers j (List.mem_cons_of_mem _ hj)
    refine ⟨(hcalm.mem_connections j).2 hj, ?_⟩
    rw [hcalm.processed_eq]
    by_cases hji : j = i
    · subst hji
      rw [modifyPeer_self]
      exact hempty
    · rw [modifyPeer_of_ne _ hji]
      exact hempty'

/-- What is being processed of a peer after the client is done with a block. -/
theorem mem_processed_finishProcessing {b : BlockMessage} {p : Peer} {id : ItemHash}
    (h : id ∈ (finishProcessing b p).idsOfItemsBeingProcessed) :
    id ∈ p.idsOfItemsBeingProcessed ∧ id ≠ b.blockId := by
  rw [finishProcessing] at h
  split_ifs at h with hmem
  · exact (Finset.mem_erase.1 h).symm
  · exact ⟨h, fun heq ↦ hmem (heq ▸ h)⟩

theorem inhibited_finishProcessing (b : BlockMessage) (p : Peer) :
    (finishProcessing b p).inhibitFetchingSyncBlocks = p.inhibitFetchingSyncBlocks := by
  rw [finishProcessing]
  split_ifs <;> rfl

/-- The client is done with a block, which is not being processed any more of the peers that blocks
are fetched from. -/
theorem Processing.done {n : ℕ} {b : BlockMessage} (h : s.Processing)
    (hcall : finishCall n s.handleMessageCallsInProgress =
      some (b, s'.handleMessageCallsInProgress))
    (hactive : s'.activeConnections ⊆ s.activeConnections)
    (hhandshaking : s'.handshakingConnections ⊆ s.handshakingConnections)
    (hpeer : ∀ i ∈ s'.activeConnections, (s'.peer i).inhibitFetchingSyncBlocks = false →
      (s.peer i).inhibitFetchingSyncBlocks = false ∧
        ∀ id ∈ (s'.peer i).idsOfItemsBeingProcessed,
          id ∈ (s.peer i).idsOfItemsBeingProcessed ∧ id ≠ b.blockId)
    (hother : ∀ i ∈ s.handshakingConnections, s'.peer i = s.peer i)
    (hwaiting : ∀ x ∈ s'.normalBlocksInProgress, x.originatingPeer ∈ s'.connections) :
    s'.Processing := by
  refine ⟨fun i hi hfetching id hid ↦ ?_, fun i hi hi' ↦ ?_, fun i hi ↦ ?_, hwaiting⟩
  · obtain ⟨hfetching, hids⟩ := hpeer i hi hfetching
    obtain ⟨hid, hne⟩ := hids id hid
    exact mem_inProgress_of_finishCall hcall (h.noneStuck i (hactive hi) hfetching id hid) hne
  · exact h.notMem_active i (hhandshaking hi) (hactive hi')
  · rw [hother i (hhandshaking hi)]
    exact h.processed_eq_empty i (hhandshaking hi)

/-- The client has accepted a block. -/
theorem Processing.acceptedSyncBlock {n : ℕ} {b : BlockMessage} {calls : List HandleMessageCall}
    (h : s.Processing) (hcall : finishCall n s.handleMessageCallsInProgress = some (b, calls))
    (hstep : { s with handleMessageCallsInProgress := calls }.acceptedSyncBlock d b = some s') :
    s'.Processing := by
  obtain ⟨s₄, hfetch, hsync⟩ := Option.bind_eq_some_iff.1 hstep
  set s₁ : SyncNode := { ({ s with handleMessageCallsInProgress := calls } : SyncNode).acceptedBlock
    b.blockId with totalNumberOfUnfetchedItems := s.totalNumberOfUnfetchedItems - 1 } with hs₁
  set outdated := s₁.activeConnections.filter fun i ↦ s₁.isOutdated b.blockNum (s₁.peer i)
  have hcalm : Calm s₁ (s₁.disconnect outdated) := calm_disconnect fun _ ↦ mem_connections_of_filter
  set s₂ := s₁.disconnect outdated with hs₂
  have hdone : (s₂.modifyActive (finishProcessing b)).Processing := by
    refine h.done hcall hcalm.active_subset hcalm.handshaking_subset (fun i hi hfetching ↦ ?_)
      (fun i hi ↦ ?_) fun x hx ↦ (hcalm.mem_connections _).2 (h.waiting x hx)
    · have hi : i ∈ s₂.activeConnections := hi
      rw [modifyActive_of_mem hi, inhibited_finishProcessing] at hfetching
      rw [modifyActive_of_mem hi]
      exact ⟨hfetching, fun id hid ↦ mem_processed_finishProcessing hid⟩
    · have hnot : i ∉ s₂.activeConnections := fun hactive ↦
        h.notMem_active i hi (hcalm.active_subset hactive)
      rw [modifyActive_of_notMem hnot]
      rfl
  have hfetched : Calm (s₂.modifyActive (finishProcessing b)) s₄ :=
    calm_foldlM_fetchNextBatch (fun _ ↦ mem_connections_of_filter) hfetch
  refine (hdone.of_calm hfetched).foldlM_startSynchronizing (fun i hi ↦ ?_) hsync
  obtain ⟨hi, hempty⟩ : i ∈ s₂.activeConnections ∧ _ := List.mem_filter.1 hi
  refine ⟨(hfetched.mem_connections i).2 (mem_connections_of_active hi), ?_⟩
  have hnone : (s₂.peer i).idsOfItemsBeingProcessed = ∅ := (of_decide_eq_true hempty).2.1
  rw [hfetched.processed_eq, modifyActive_of_mem hi]
  refine Finset.eq_empty_of_forall_notMem fun id hid ↦ ?_
  have hmem := (mem_processed_finishProcessing hid).1
  rw [hnone] at hmem
  exact absurd hmem (Finset.notMem_empty id)

/-- The client has not accepted a block. -/
theorem Processing.refusedSyncBlock {n : ℕ} {b : BlockMessage} {calls : List HandleMessageCall}
    {outcome : HandleBlock} (h : s.Processing)
    (hcall : finishCall n s.handleMessageCallsInProgress = some (b, calls)) :
    ({ s with handleMessageCallsInProgress := calls }.refusedSyncBlock b outcome).Processing := by
  rw [SyncNode.refusedSyncBlock]
  split_ifs
  · -- no more blocks are fetched from the peers that have the block
    refine h.done hcall (List.Subset.refl _) (List.Subset.refl _) (fun i hi hfetching ↦ ?_)
      (fun i hi ↦ modifyActive_of_notMem (h.notMem_active i hi) _) h.waiting
    have hi : i ∈ s.activeConnections := hi
    rw [modifyActive_of_mem (s := { s with handleMessageCallsInProgress := calls }) hi]
      at hfetching ⊢
    dsimp only at hfetching ⊢
    split_ifs at hfetching ⊢ with hmem
    exact ⟨hfetching, fun id hid ↦ ⟨hid, fun heq ↦ hmem (heq ▸ hid)⟩⟩
  · set s₁ : SyncNode := { s with handleMessageCallsInProgress := calls }
    set offered := s₁.activeConnections.filter fun i ↦
      b.blockId ∈ (s₁.peer i).idsOfItemsBeingProcessed with hoffered
    have hcalm : Calm s₁ (s₁.disconnect offered) :=
      calm_disconnect fun _ ↦ mem_connections_of_filter
    refine h.done hcall hcalm.active_subset hcalm.handshaking_subset (fun i hi hfetching ↦ ?_)
      (fun i hi ↦ rfl) fun x hx ↦ (hcalm.mem_connections _).2 (h.waiting x hx)
    obtain ⟨hi, hnot⟩ := List.mem_filter.1 hi
    refine ⟨hfetching, fun id hid ↦ ⟨hid, fun heq ↦ of_decide_eq_true hnot ?_⟩⟩
    exact List.mem_filter.2 ⟨hi, decide_eq_true (heq ▸ hid)⟩

/-- **The client is done with a block of synchronization**, whichever it is and whatever comes of
it. -/
theorem Processing.sendSyncBlock {n : ℕ} {outcome : HandleBlock} (h : s.Processing)
    (hstep : s.sendSyncBlockToNodeDelegate d n outcome = some s') : s'.Processing := by
  obtain ⟨⟨b, calls⟩, hcall, hfinish⟩ := Option.bind_eq_some_iff.1 hstep
  dsimp only at hfinish
  split_ifs at hfinish
  · exact h.acceptedSyncBlock hcall hfinish
  · exact Option.some_inj.1 hfinish ▸ h.refusedSyncBlock hcall

/-! ## Messages -/

/-- A block that is received is not handed to the client yet. -/
theorem Processing.processBlockMessage {messageHash : ItemHash} {b : BlockMessage}
    (h : s.Processing) (hi : i ∈ s.connections)
    (hstep : s.processBlockMessage d i messageHash b = some s') : s'.Processing := by
  rw [SyncNode.processBlockMessage] at hstep
  split_ifs at hstep with hregular hsync
  · set s₁ := s.modifyPeer i fun p ↦
      { p with
        itemsRequestedFromPeer :=
          p.itemsRequestedFromPeer.filter (· ≠ ⟨blockMessageType, messageHash⟩) } with hs₁
    have hcalm : Calm s s₁ := calm_modifyPeer ⟨rfl, rfl, id⟩
    change s₁.processBlockDuringNormalOperation d ⟨i, messageHash, b⟩ = some s' at hstep
    rw [processBlockDuringNormalOperation] at hstep
    split_ifs at hstep
    · exact h.of_calm (hcalm.trans (calm_finishNormalBlock hi (by simp) hstep))
    · obtain rfl := Option.some_inj.1 hstep
      have hsame := hcalm.toSameProcessing
      refine h.of_sameProcessing ⟨hsame.1, hsame.2, hsame.3, hsame.4, hsame.5⟩ fun x hx ↦ ?_
      rcases List.mem_append.1 hx with hold | hnew
      · exact h.waiting x hold
      · obtain rfl := List.mem_singleton.1 hnew
        exact hi
  · set s₁ := s.modifyPeer i fun p ↦
      { p with
        syncItemsRequestedFromPeer :=
          p.syncItemsRequestedFromPeer.filter (· ≠ ⟨blockMessageType, b.blockId⟩) } with hs₁
    have hsame : SameProcessing s s₁ := sameProcessing_modifyPeer rfl id
    have hreceived : Processing { s₁ with
        activeSyncRequests := s₁.activeSyncRequests.erase b.blockId
        newReceivedSyncItems := b :: s₁.newReceivedSyncItems } :=
      h.of_sameProcessing ⟨hsame.1, hsame.2, hsame.3, hsame.4, hsame.5⟩ h.waiting
    dsimp only at hstep
    split_ifs at hstep
    · refine hreceived.of_calm (calm_fetchNextBatch ?_ hstep)
      exact hi
    · exact Option.some_inj.1 hstep ▸ hreceived
  · exact Option.some_inj.1 hstep ▸ h.of_calm (calm_disconnect_singleton hi)

theorem Processing.onFetchItems {m : FetchItems} (h : s.Processing)
    (hlistening : s.isListening i = true) : (s.onFetchItems d i m).Processing := by
  rw [SyncNode.onFetchItems]
  split
  · exact h
  · exact h.onConnectionClosed (ne_of_isListening hlistening)
  · exact h.of_calm (calm_modifyPeer ⟨rfl, rfl, id⟩)

theorem Processing.onItemNotAvailable {item : ItemId} (h : s.Processing) (hi : i ∈ s.connections) :
    (s.onItemNotAvailable i item).Processing := by
  rw [SyncNode.onItemNotAvailable]
  split_ifs
  · exact h.of_calm (calm_modifyPeer ⟨rfl, rfl, id⟩)
  · set s₁ := s.modifyPeer i fun p ↦
      { p with
        syncItemsRequestedFromPeer := p.syncItemsRequestedFromPeer.filter (· ≠ item) } with hs₁
    have hsame : s₁.Processing := h.of_sameProcessing (sameProcessing_modifyPeer rfl id) h.waiting
    dsimp only
    split_ifs
    · exact hsame.of_calm (calm_modifyPeer ⟨rfl, rfl, fun _ ↦ rfl⟩)
    · exact hsame.of_calm (calm_disconnect_singleton hi)
  · exact h

theorem Processing.fetchSyncItems (h : s.Processing) : s.fetchSyncItems.Processing := by
  rw [SyncNode.fetchSyncItems]
  split_ifs
  · exact h
  · refine List.foldlRecOn _ _ h fun s h x _ ↦ ?_
    have hsame := sameProcessing_modifyPeer (s := s) (i := x.1) (f := fun p ↦
      { p with
        syncItemsRequestedFromPeer :=
          p.syncItemsRequestedFromPeer ++ x.2.map (⟨blockMessageType, ·⟩) }) rfl id
    exact h.of_sameProcessing ⟨hsame.1, hsame.2, hsame.3, hsame.4, hsame.5⟩ h.waiting

/-! ## Runs -/

/-- **An event that leaves no block behind keeps all of them from being stuck.** -/
theorem Processing.step {e : SyncEvent} (h : s.Processing) (hsticks : s.sticks e = false)
    (hstep : s.step e = some s') : s'.Processing := by
  cases e with
  | newConnection i =>
    by_cases hi : i ∈ s.connections
    · rw [SyncNode.step, if_pos hi] at hstep
      cases hstep
    · exact h.newConnection hi hstep
  | newPeerJustAdded d i =>
    rw [SyncNode.step] at hstep
    split_ifs at hstep with hi
    have hconnected := mem_connections_of_handshaking hi
    have hmoved := sameRequests_movePeerToActiveList hconnected
    refine (h.movePeerToActiveList hi).startSynchronizing ((hmoved.mem_connections i).2 hconnected)
      ?_ hstep
    have hempty : ((s.movePeerToActiveList i).peer i).idsOfItemsBeingProcessed = ∅ :=
      h.processed_eq_empty i hi
    simp [leavesBehind, hempty]
  | fetchItemIds d i m =>
    rw [SyncNode.step] at hstep
    split_ifs at hstep with hi
    exact h.onFetchBlockchainItemIds (mem_connections_of_isListening hi) hsticks hstep
  | inventory d i m =>
    rw [SyncNode.step] at hstep
    split_ifs at hstep with hi
    exact h.of_calm (calm_onBlockchainItemIdsInventory (mem_connections_of_isListening hi) hstep)
  | fetchItems d i m =>
    rw [SyncNode.step] at hstep
    split_ifs at hstep with hi
    exact Option.some_inj.1 hstep ▸ h.onFetchItems hi
  | block d i messageHash b =>
    rw [SyncNode.step] at hstep
    split_ifs at hstep with hi
    exact h.processBlockMessage (mem_connections_of_isListening hi) hstep
  | itemNotAvailable i requestedItem =>
    rw [SyncNode.step] at hstep
    split_ifs at hstep with hi
    exact Option.some_inj.1 hstep ▸ h.onItemNotAvailable (mem_connections_of_isListening hi)
  | handledNormal d n outcome => exact h.handledNormalBlock hsticks hstep
  | backlog => exact Option.some_inj.1 hstep ▸ h.processBacklogOfSyncBlocks hsticks
  | handled d n outcome => exact h.sendSyncBlock hstep
  | fetchSyncItems => exact Option.some_inj.1 hstep ▸ h.fetchSyncItems
  | timeout i =>
    rw [SyncNode.step] at hstep
    split_ifs at hstep with hi
    exact Option.some_inj.1 hstep ▸ h.of_calm (calm_movePeerToTerminatingList hi)
  | connectionClosed i =>
    rw [SyncNode.step] at hstep
    split_ifs at hstep with hi
    exact Option.some_inj.1 hstep ▸ h.onConnectionClosed (ne_of_isListening hi)
  | broadcast messageHash b =>
    exact Option.some_inj.1 hstep ▸ h.of_calm (calm_broadcast s messageHash b)
  | elsewhere i advertised requested =>
    exact Option.some_inj.1 hstep ▸ h.of_calm (calm_modifyPeer ⟨rfl, rfl, id⟩)

/-- **An event that leaves a block behind makes it stuck.** -/
theorem not_noneStuck_of_sticks {e : SyncEvent} (hsticks : s.sticks e = true)
    (hstep : s.step e = some s') : ¬ s'.NoneStuck := by
  cases e with
  | fetchItemIds d i m =>
    rw [SyncNode.step] at hstep
    split_ifs at hstep
    exact not_noneStuck_onFetchBlockchainItemIds hsticks hstep
  | handledNormal d n outcome => exact not_noneStuck_handledNormalBlock hsticks hstep
  | backlog => exact Option.some_inj.1 hstep ▸ not_noneStuck_processBacklog hsticks
  | _ => cases hsticks

theorem Unconnected.processing (h : s.Unconnected) : s.Processing := by
  have hnone := h.connections_eq
  simp only [connections, List.append_eq_nil_iff] at hnone
  obtain ⟨⟨⟨hhandshaking, hactive⟩, -⟩, -⟩ := hnone
  refine ⟨?_, ?_, ?_, ?_⟩ <;>
    simp [NoneStuck, hhandshaking, hactive, h.normalBlocksInProgress_eq]

/-- **No block is stuck** in every state of a run exactly if none of its events leaves a block
behind. -/
theorem none_stuck_iff {s t : SyncNode} {events : List SyncEvent} (hs : s.Unconnected)
    (h : applied SyncNode.step s events = some t) :
    (∀ run, run <+: events → ∀ s' ∈ applied SyncNode.step s run, s'.NoneStuck) ↔
      Throughout SyncNode.step (fun s e ↦ s.sticks e = false) s events :=
  forall_prefix_iff_throughout (G := Processing)
    (fun _ _ _ hgood hstep hq ↦ hgood.step hq hstep)
    (fun _ _ _ _ hstep hq ↦ not_noneStuck_of_sticks (by simpa using hq) hstep)
    (fun _ hgood ↦ hgood.noneStuck) hs.processing h

end SyncNode

/-! ## Blocks that are stuck -/

namespace SyncProcessingRuns

open SyncRuns

/-- A peer's block is accepted, and the next one is rejected. -/
def completed : List SyncEvent :=
  orderly ++ [.block (client 3) 0 (messageHash 4) (block 4), .backlog,
    .handled (client 3) 0 .rejected]

/-- The client cannot switch to a block of synchronization, and the peer then sends another one that
does not link. -/
def restarted : List SyncEvent :=
  connected ++ [.block (client 2) 0 (messageHash 3) (block 3), .backlog,
    .handled (client 2) 0 .olderThanUndoHistory, .elsewhere 0 [advertised 9] [advertised 9],
    .block (client 2) 0 (messageHash 9) (block 9), .handledNormal (client 2) 0 .unlinkable]

/-- The run comes to its end, and no block is stuck in any state. -/
theorem completed_noneStuck : (applied SyncNode.step start completed).isSome = true ∧
    ∀ run, run <+: completed → ∀ s' ∈ applied SyncNode.step start run, s'.NoneStuck := by
  have happlied : (applied SyncNode.step start completed).isSome = true := by decide +kernel
  obtain ⟨t, ht⟩ := Option.isSome_iff_exists.1 happlied
  exact ⟨happlied, (SyncNode.none_stuck_iff ⟨rfl, rfl, rfl⟩ ht).2 (by decide +kernel)⟩

/-- **Blocks that are stuck**: one comes in normal operation before it comes in its turn; and one is
being processed when synchronization with its peer starts again. -/
theorem blocks_stuck :
    (∃ t, applied SyncNode.step start overtaken = some t ∧ ¬ t.NoneStuck) ∧
      ∃ t, applied SyncNode.step start restarted = some t ∧ ¬ t.NoneStuck := by
  have hruns : ∀ run ∈ [overtaken, restarted],
      (applied SyncNode.step start run).any (fun t ↦ ¬ t.NoneStuck) = true := by decide +kernel
  have hstuck : ∀ run ∈ [overtaken, restarted],
      ∃ t, applied SyncNode.step start run = some t ∧ ¬ t.NoneStuck := by
    intro run hrun
    obtain ⟨t, ht, hstuck⟩ := (Option.any_eq_true ..).1 (hruns run hrun)
    exact ⟨t, ht, of_decide_eq_true hstuck⟩
  exact ⟨hstuck _ (by simp), hstuck _ (by simp)⟩

end SyncProcessingRuns

end Graphene
