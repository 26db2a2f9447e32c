import Graphene.Net.SyncNode
import Graphene.Lib.Consecutive
import Graphene.Lib.Transitions
import Mathlib.Data.Finset.Card
import Mathlib.Algebra.Group.Nat.Defs

/-!
# The list of a peer

The ids on the list of a peer are those of the blocks right behind the ones that are being
processed, and these are right behind the last block that the client has seen.  A synopsis is made
up from that.

The list loses its first id when a block is handed to the client, and the last block seen moves on
when the client is done with it, in an order that is not that of the list.  So the invariant is
about the list together with the blocks in progress, and what it says of the list alone follows.

* `Peer.Contiguous` — what is to hold of the list of a peer.
* `Peer.InOrder` — the same together with the blocks that are being processed, in the order in which
  they were handed to the client.
* `SyncNode.Orderly` — the events that keep it.
* `sync_list_contiguous` — after every run of such events the lists are contiguous.
* `sync_list_breaks` — four runs that leave a list that is not.
-/

set_option autoImplicit false

namespace Graphene

open Transitions

namespace Peer

/-! ## What is to hold -/

/-- The list of a peer is that of the blocks that come next, each of them once. -/
structure Contiguous (p : Peer) : Prop where
  /-- The numbers are consecutive. -/
  consecutive : ∃ n, Consecutive n (p.idsOfItemsToGet.map ItemHash.num)
  /-- They begin behind those of the blocks that are being processed. -/
  front_eq : ∀ id ∈ p.idsOfItemsToGet.head?,
    id.num = p.lastBlockDelegateHasSeen.num + p.idsOfItemsBeingProcessed.card + 1
  /-- No id is on the list twice. -/
  nodup : p.idsOfItemsToGet.Nodup
  /-- No id on it is being processed. -/
  disjoint : ∀ id ∈ p.idsOfItemsToGet, id ∉ p.idsOfItemsBeingProcessed

/-- The blocks of the peer's that are being processed, out of `calls`. -/
def pending (calls : List ItemHash) (p : Peer) : List ItemHash :=
  calls.filter (· ∈ p.idsOfItemsBeingProcessed)

/-- The last block that was seen, those being processed and those on the list follow each other. -/
structure Lined (calls : List ItemHash) (p : Peer) : Prop where
  /-- The numbers. -/
  consecutive : Consecutive (p.lastBlockDelegateHasSeen.num + 1)
    ((p.pending calls ++ p.idsOfItemsToGet).map ItemHash.num)
  /-- All that is being processed was handed to the client. -/
  card_eq : p.idsOfItemsBeingProcessed.card = (p.pending calls).length

/-- What is kept of a peer: there is nothing on the list, or all is in order. -/
def InOrder (calls : List ItemHash) (p : Peer) : Prop := p.idsOfItemsToGet = [] ∨ p.Lined calls

variable {p p' : Peer} {calls : List ItemHash} {id : ItemHash}

theorem mem_pending : id ∈ p.pending calls ↔ id ∈ calls ∧ id ∈ p.idsOfItemsBeingProcessed := by
  simp [pending]

namespace Lined

theorem nodup (h : p.Lined calls) : (p.pending calls ++ p.idsOfItemsToGet).Nodup :=
  List.Nodup.of_map _ h.consecutive.nodup

theorem pending_nodup (h : p.Lined calls) : (p.pending calls).Nodup :=
  (List.nodup_append.1 h.nodup).1

theorem toFinset_pending (h : p.Lined calls) :
    (p.pending calls).toFinset = p.idsOfItemsBeingProcessed := by
  refine Finset.eq_of_subset_of_card_le (fun id hid ↦ ?_) ?_
  · exact (mem_pending.1 (List.mem_toFinset.1 hid)).2
  · rw [List.toFinset_card_of_nodup h.pending_nodup, h.card_eq]

/-- What is being processed was handed to the client. -/
theorem mem_pending_of_mem (h : p.Lined calls) (hid : id ∈ p.idsOfItemsBeingProcessed) :
    id ∈ p.pending calls := by
  rw [← h.toFinset_pending] at hid
  exact List.mem_toFinset.1 hid

theorem contiguous (h : p.Lined calls) : p.Contiguous := by
  have hconsecutive := h.consecutive
  rw [List.map_append, consecutive_append, List.length_map] at hconsecutive
  obtain ⟨-, hids⟩ := hconsecutive
  obtain ⟨-, hnodup, hdisjoint⟩ := List.nodup_append.1 h.nodup
  refine ⟨⟨_, hids⟩, fun id hid ↦ ?_, hnodup, fun id hid hmem ↦ ?_⟩
  · obtain ⟨rest, hrest⟩ : ∃ rest, p.idsOfItemsToGet = id :: rest := List.head?_eq_some_iff.1 hid
    rw [hrest, List.map_cons, consecutive_cons] at hids
    have hcard := h.card_eq
    omega
  · exact hdisjoint id (h.mem_pending_of_mem hmem) id hid rfl

end Lined

theorem InOrder.contiguous (h : p.InOrder calls) : p.Contiguous := by
  rcases h with hempty | hlined
  · refine ⟨⟨0, ?_⟩, ?_, ?_, ?_⟩ <;> simp [hempty, Consecutive.nil]
  · exact hlined.contiguous

/-! ## What keeps the order -/

/-- The list is the same, and so is what comes before it. -/
structure SameList (p p' : Peer) : Prop where
  /-- The list. -/
  idsOfItemsToGet_eq : p'.idsOfItemsToGet = p.idsOfItemsToGet
  /-- What is being processed. -/
  idsOfItemsBeingProcessed_eq : p'.idsOfItemsBeingProcessed = p.idsOfItemsBeingProcessed
  /-- The number of the last block that was seen. -/
  num_eq : p'.lastBlockDelegateHasSeen.num = p.lastBlockDelegateHasSeen.num

theorem SameList.refl (p : Peer) : p.SameList p := ⟨rfl, rfl, rfl⟩

theorem SameList.trans {p'' : Peer} (h : p.SameList p') (h' : p'.SameList p'') : p.SameList p'' :=
  ⟨h'.1.trans h.1, h'.2.trans h.2, h'.3.trans h.3⟩

theorem SameList.inOrder (hsame : p.SameList p') (h : p.InOrder calls) : p'.InOrder calls := by
  rcases h with hempty | hlined
  · exact Or.inl (hsame.idsOfItemsToGet_eq.trans hempty)
  · have hpending : p'.pending calls = p.pending calls := by
      rw [pending, hsame.idsOfItemsBeingProcessed_eq, pending]
    refine Or.inr ⟨?_, ?_⟩
    · rw [hpending, hsame.num_eq, hsame.idsOfItemsToGet_eq]
      exact hlined.consecutive
    · rw [hpending, hsame.idsOfItemsBeingProcessed_eq]
      exact hlined.card_eq

/-- The peer without any blocks being processed, whose list comes right behind the last one that was
seen. -/
theorem InOrder.of_consecutive (hempty : p.idsOfItemsBeingProcessed = ∅)
    (h : Consecutive (p.lastBlockDelegateHasSeen.num + 1) (p.idsOfItemsToGet.map ItemHash.num)) :
    p.InOrder calls := by
  have hpending : p.pending calls = [] := by simp [pending, hempty]
  refine Or.inr ⟨?_, ?_⟩
  · rw [hpending]
    exact h
  · rw [hpending, hempty]
    rfl

/-- A block that was not handed to the client before is handed to it. -/
theorem InOrder.popFirst (h : p.InOrder calls) (hfresh : id ∉ calls) :
    (SyncNode.popFirst id p).InOrder (calls ++ [id]) := by
  rcases h with hempty | hlined
  · refine Or.inl ?_
    rw [SyncNode.popFirst]
    split
    · simp [hempty]
    · exact hempty
  · have hnot : id ∉ p.idsOfItemsBeingProcessed := fun hmem ↦
      hfresh (mem_pending.1 (hlined.mem_pending_of_mem hmem)).1
    rw [SyncNode.popFirst]
    split
    next hfirst =>
      obtain ⟨rest, hrest⟩ := List.head?_eq_some_iff.1 hfirst
      set p' : Peer := { p with
        idsOfItemsToGet := p.idsOfItemsToGet.tail
        idsOfItemsBeingProcessed := insert id p.idsOfItemsBeingProcessed } with hp'
      have hpending : p'.pending (calls ++ [id]) = p.pending calls ++ [id] := by
        have hcalls : calls.filter (· ∈ insert id p.idsOfItemsBeingProcessed) =
            calls.filter (· ∈ p.idsOfItemsBeingProcessed) :=
          List.filter_congr fun x hx ↦ by
            have hne : x ≠ id := fun heq ↦ hfresh (heq ▸ hx)
            simp [hne]
        rw [pending, List.filter_append, hp', hcalls, pending]
        simp
      refine Or.inr ⟨?_, ?_⟩
      · rw [hpending, hp', hrest, List.tail_cons, List.append_assoc, List.singleton_append,
          ← hrest]
        exact hlined.consecutive
      · rw [hpending, hp', Finset.card_insert_of_notMem hnot, hlined.card_eq, List.length_append]
        rfl
    next =>
      have hpending : p.pending (calls ++ [id]) = p.pending calls := by
        simp [pending, List.filter_append, hnot]
      refine Or.inr ⟨?_, ?_⟩
      · rw [hpending]
        exact hlined.consecutive
      · rw [hpending]
        exact hlined.card_eq

/-- The client is done with the first of the blocks that were handed to it. -/
theorem InOrder.finishProcessing {b : BlockMessage} (h : p.InOrder (b.blockId :: calls)) :
    (SyncNode.finishProcessing b p).InOrder calls := by
  rcases h with hempty | hlined
  · refine Or.inl ?_
    rw [SyncNode.finishProcessing]
    split <;> exact hempty
  · rw [SyncNode.finishProcessing]
    split
    next hmem =>
      have hpending : p.pending (b.blockId :: calls) = b.blockId :: p.pending calls := by
        simp [pending, hmem]
      have hnodup := hlined.pending_nodup
      rw [hpending, List.nodup_cons] at hnodup
      set p' : Peer := { p.sawBlock b.blockId b.timestamp with
        idsOfItemsBeingProcessed := p.idsOfItemsBeingProcessed.erase b.blockId } with hp'
      have hpending' : p'.pending calls = p.pending calls := by
        rw [pending, pending]
        refine List.filter_congr fun x hx ↦ ?_
        have hne : x ∈ p.idsOfItemsBeingProcessed → x ≠ b.blockId := fun hx' heq ↦
          hnodup.1 (heq ▸ mem_pending.2 ⟨hx, hx'⟩)
        simp only [hp', Finset.mem_erase, decide_eq_decide]
        exact ⟨And.right, fun hx' ↦ ⟨hne hx', hx'⟩⟩
      have hconsecutive := hlined.consecutive
      rw [hpending, List.cons_append, List.map_cons, consecutive_cons] at hconsecutive
      refine Or.inr ⟨?_, ?_⟩
      · rw [hpending']
        change Consecutive (b.blockId.num + 1) _
        rw [hconsecutive.1]
        exact hconsecutive.2
      · rw [hpending', hp', Finset.card_erase_of_mem hmem, hlined.card_eq, hpending,
          List.length_cons, Nat.add_sub_cancel]
    next hmem =>
      have hpending : p.pending (b.blockId :: calls) = p.pending calls := by
        simp [pending, hmem]
      refine Or.inr ⟨?_, ?_⟩
      · rw [← hpending]
        exact hlined.consecutive
      · rw [← hpending]
        exact hlined.card_eq

/-! ## Ids that are offered -/

theorem flushItems_spec (d : NodeDelegate) (itemType : UInt32) {ids : List ItemHash}
    (h : Consecutive (p.lastBlockDelegateHasSeen.num + 1) (ids.map ItemHash.num)) :
    (flushItems d itemType p ids).1.idsOfItemsBeingProcessed = p.idsOfItemsBeingProcessed ∧
      Consecutive ((flushItems d itemType p ids).1.lastBlockDelegateHasSeen.num + 1)
        ((flushItems d itemType p ids).2.map ItemHash.num) := by
  induction ids generalizing p with
  | nil => exact ⟨rfl, Consecutive.nil _⟩
  | cons id ids ih =>
    rw [flushItems]
    split
    · rw [List.map_cons, consecutive_cons] at h
      obtain ⟨hprocessed, hconsecutive⟩ := ih (p := p.sawBlock id (d.getBlockTime id))
        (h.1 ▸ h.2)
      exact ⟨hprocessed, hconsecutive⟩
    · exact ⟨rfl, h⟩

theorem flushItems_eq_nil {d : NodeDelegate} {itemType : UInt32} {ids : List ItemHash}
    (h : ∀ id ∈ ids, d.hasItem ⟨itemType, id⟩ = true) : (flushItems d itemType p ids).2 = [] := by
  induction ids generalizing p with
  | nil => rfl
  | cons id ids ih =>
    rw [flushItems, if_pos (h id List.mem_cons_self)]
    exact ih fun id' hid' ↦ h id' (List.mem_cons_of_mem _ hid')

/-- The ids of a reply fit what there is of the peer: they are all known, or come where nothing is
being processed and the first one is known, or the next one; or they meet the list. -/
def Fits (d : NodeDelegate) (itemType : UInt32) (isFirstItemForOtherPeer : Bool) (p : Peer) :
    List ItemHash → Prop
  | [] => True
  | front :: rest =>
    if p.idsOfItemsToGet = [] then
      (isFirstItemForOtherPeer = false ∧ ∀ id ∈ front :: rest, d.hasItem ⟨itemType, id⟩ = true) ∨
        p.idsOfItemsBeingProcessed = ∅ ∧
          (isFirstItemForOtherPeer = false ∧ d.hasItem ⟨itemType, front⟩ = true ∨
            front.num = p.lastBlockDelegateHasSeen.num + 1)
    else front ∈ p.idsOfItemsToGet ∨ p.idsOfItemsBeingProcessed = ∅ ∨ rest = []

instance (d : NodeDelegate) (itemType : UInt32) (isFirst : Bool) (p : Peer) :
    ∀ ids, Decidable (p.Fits d itemType isFirst ids)
  | [] => inferInstanceAs (Decidable True)
  | _ :: _ => inferInstanceAs (Decidable (ite _ _ _))

/-- What the ids do to an empty list. -/
theorem InOrder.merge_of_isEmpty {d : NodeDelegate} {itemType : UInt32} {isFirst : Bool}
    {front : ItemHash} {rest : List ItemHash} (hempty : p.idsOfItemsToGet = [])
    (hconsecutive : Consecutive front.num ((front :: rest).map ItemHash.num))
    (hfits : p.Fits d itemType isFirst (front :: rest)) :
    (p.mergeItemHashes d itemType isFirst (front :: rest)).InOrder calls := by
  rw [Fits, if_pos hempty] at hfits
  simp only [mergeItemHashes, hempty, List.isEmpty_nil, if_true]
  rcases hfits with ⟨hfirst, hknown⟩ | ⟨hprocessed, ⟨hfirst, hknown⟩ | hnext⟩
  · refine Or.inl ?_
    simp only [hfirst, Bool.false_eq_true, if_false]
    exact flushItems_eq_nil hknown
  · simp only [hfirst, Bool.false_eq_true, if_false, flushItems, hknown, if_true]
    rw [List.map_cons, consecutive_cons] at hconsecutive
    obtain ⟨hsame, hleft⟩ := flushItems_spec d itemType
      (p := p.sawBlock front (d.getBlockTime front)) hconsecutive.2
    exact InOrder.of_consecutive (hsame.trans hprocessed) hleft
  · rw [hnext] at hconsecutive
    cases isFirst with
    | true => exact InOrder.of_consecutive hprocessed hconsecutive
    | false =>
      obtain ⟨hsame, hleft⟩ := flushItems_spec d itemType hconsecutive
      exact InOrder.of_consecutive (hsame.trans hprocessed) hleft

/-- The list up to the id that a reply begins with, if it is there. -/
theorem rdropWhile_ne (front : ItemHash) (ids : List ItemHash) :
    (ids.rdropWhile (· ≠ front) = [] ∧ front ∉ ids) ∨
      ∃ init dropped, ids = init ++ front :: dropped ∧
        ids.rdropWhile (· ≠ front) = init ++ [front] := by
  induction ids using List.reverseRecOn with
  | nil => exact Or.inl ⟨rfl, List.not_mem_nil⟩
  | append_singleton ids id ih =>
    by_cases hid : id = front
    · refine Or.inr ⟨ids, [], by rw [hid], ?_⟩
      rw [List.rdropWhile_concat_neg _ _ _ (by simpa using hid), hid]
    · rw [List.rdropWhile_concat_pos _ _ _ (by simpa using hid)]
      rcases ih with ⟨hnil, hnot⟩ | ⟨init, dropped, hids, hkept⟩
      · refine Or.inl ⟨hnil, ?_⟩
        simp [hnot, Ne.symm hid]
      · exact Or.inr ⟨init, dropped ++ [id], by simp [hids], hkept⟩

/-- What the ids do to a list that is not empty. -/
theorem InOrder.merge_of_ne_nil {d : NodeDelegate} {itemType : UInt32} {isFirst : Bool}
    {front : ItemHash} {rest : List ItemHash} (h : p.InOrder calls) (hne : p.idsOfItemsToGet ≠ [])
    (hconsecutive : Consecutive front.num ((front :: rest).map ItemHash.num))
    (hfits : p.Fits d itemType isFirst (front :: rest)) :
    (p.mergeItemHashes d itemType isFirst (front :: rest)).InOrder calls := by
  rw [Fits, if_neg hne] at hfits
  obtain hlined := h.resolve_left hne
  rw [mergeItemHashes, if_neg (by simpa using hne)]
  rcases rdropWhile_ne front p.idsOfItemsToGet with ⟨hkept, hnot⟩ | ⟨init, dropped, hids, hkept⟩
  · simp only [hkept, List.isEmpty_nil, if_true]
    rcases hfits.resolve_left hnot with hprocessed | rfl
    · rw [List.map_cons, consecutive_cons] at hconsecutive
      exact InOrder.of_consecutive hprocessed hconsecutive.2
    · exact Or.inl rfl
  · simp only [hkept, List.isEmpty_iff, List.append_eq_nil_iff, List.cons_ne_nil, and_false,
      if_false, List.dropLast_concat]
    have hbefore := hlined.consecutive
    rw [hids, ← List.append_assoc, List.map_append, consecutive_append, List.map_cons,
      consecutive_cons] at hbefore
    refine Or.inr ⟨?_, hlined.card_eq⟩
    change Consecutive _ ((p.pending calls ++ (init ++ front :: rest)).map ItemHash.num)
    rw [← List.append_assoc, List.map_append, consecutive_append]
    exact ⟨hbefore.1, hbefore.2.1 ▸ hconsecutive⟩

/-- **Ids that fit are put behind the list.** -/
theorem InOrder.mergeItemHashes (d : NodeDelegate) (itemType : UInt32) (isFirst : Bool)
    (ids : List ItemHash) (h : p.InOrder calls)
    (hconsecutive : ∀ front ∈ ids.head?, Consecutive front.num (ids.map ItemHash.num))
    (hfits : p.Fits d itemType isFirst ids) :
    (p.mergeItemHashes d itemType isFirst ids).InOrder calls := by
  cases ids with
  | nil => exact h
  | cons front rest =>
    by_cases hempty : p.idsOfItemsToGet = []
    · exact InOrder.merge_of_isEmpty hempty (hconsecutive front rfl) hfits
    · exact h.merge_of_ne_nil hempty (hconsecutive front rfl) hfits

end Peer

/-- If the client is done with a block of synchronization, that is the first of those it has, and
the client has accepted it. -/
def SyncEvent.Successful : SyncEvent → Prop
  | .handled _ n outcome => n = 0 ∧ outcome = .accepted
  | _ => True

instance : DecidablePred SyncEvent.Successful
  | .handled _ n outcome => inferInstanceAs (Decidable (n = 0 ∧ outcome = .accepted))
  | .newConnection _ | .newPeerJustAdded _ _ | .fetchItemIds _ _ _ | .inventory _ _ _
  | .fetchItems _ _ _ | .block _ _ _ _ | .itemNotAvailable _ _ | .handledNormal _ _ _ | .backlog
  | .fetchSyncItems | .timeout _ | .connectionClosed _ | .broadcast _ _ | .elsewhere _ _ _ =>
    inferInstanceAs (Decidable True)

namespace SyncNode

/-! ## Events that are in order -/

/-- The block is on the list of an active peer. -/
def isWanted (s : SyncNode) (b : BlockMessage) : Bool :=
  s.activeConnections.any fun i ↦ b.blockId ∈ (s.peer i).idsOfItemsToGet

/-- The blocks that were received and are on the list of an active peer. -/
def wanted (s : SyncNode) : List BlockMessage :=
  s.collectSyncItems.receivedSyncItems.filter s.isWanted

/-- The blocks that are wanted were received once, and not handed to the client before. -/
structure Fresh (s : SyncNode) : Prop where
  /-- Each was received once. -/
  nodup : (s.wanted.map BlockMessage.blockId).Nodup
  /-- None was accepted lately. -/
  not_accepted : ∀ b ∈ s.wanted, b.blockId ∉ s.mostRecentBlocksAccepted
  /-- None is being processed. -/
  not_inProgress : ∀ b ∈ s.wanted, b.blockId ∉ s.inProgress

instance (s : SyncNode) : Decidable s.Fresh :=
  decidable_of_iff ((s.wanted.map BlockMessage.blockId).Nodup ∧
    (∀ b ∈ s.wanted, b.blockId ∉ s.mostRecentBlocksAccepted) ∧
    ∀ b ∈ s.wanted, b.blockId ∉ s.inProgress)
    ⟨fun h ↦ ⟨h.1, h.2.1, h.2.2⟩, fun h ↦ ⟨h.1, h.2, h.3⟩⟩

/-- The active peers that have advertised a block have no list, or have seen no other block of its
number. -/
def UpToDateOn (s : SyncNode) (x : NormalBlock) : Prop :=
  ∀ i ∈ s.activeConnections,
    ⟨blockMessageType, x.messageHash⟩ ∈ (s.peer i).inventoryPeerAdvertisedToUs →
      (s.peer i).idsOfItemsToGet = [] ∨
        x.block.blockId.num = (s.peer i).lastBlockDelegateHasSeen.num

instance (s : SyncNode) (x : NormalBlock) : Decidable (s.UpToDateOn x) :=
  inferInstanceAs (Decidable (∀ _ ∈ _, _ → _ ∨ _))

/-- The events that keep the lists contiguous.  A reply with ids does not reach number `2 ^ 32` and
fits what there is of the peer; the last block seen is not set to another while the list is not
empty, neither by a block that is served nor by one that the peer advertised; and the blocks in the
backlog are fresh. -/
def Orderly (s : SyncNode) : SyncEvent → Prop
  | .inventory d i m =>
    ∀ synopsis ∈ (s.peer i).itemIdsRequestedFromPeer,
      isValidResponse synopsis m.itemHashesAvailable = true →
        hasNoMoreItems d (s.peer i) m = false → ∀ front ∈ m.itemHashesAvailable.head?,
          front.num + m.itemHashesAvailable.length ≤ 2 ^ 32 ∧
            (s.peer i).Fits d m.itemType (s.isFirstItemForOtherPeer i front) m.itemHashesAvailable
  | .fetchItems d i m =>
    (s.peer i).idsOfItemsToGet = [] ∨ m.itemType ≠ blockMessageType ∨
      ∀ b ∈ (s.messagesFor d m).getLast?.bind NetMessage.block?,
        b.blockId.num = (s.peer i).lastBlockDelegateHasSeen.num
  | .block _ i messageHash b =>
    ⟨blockMessageType, messageHash⟩ ∈ (s.peer i).itemsRequestedFromPeer →
      b.blockId ∈ s.mostRecentBlocksAccepted → s.UpToDateOn ⟨i, messageHash, b⟩
  | .handledNormal _ n outcome =>
    outcome = .accepted → ∀ x ∈ s.normalBlocksInProgress[n]?, s.UpToDateOn x
  | .backlog => s.Fresh
  | _ => True

instance (s : SyncNode) : DecidablePred s.Orderly
  | .inventory _ _ _ => inferInstanceAs (Decidable (∀ _ ∈ _, _ → _ → ∀ _ ∈ _, _ ∧ _))
  | .fetchItems _ _ _ => inferInstanceAs (Decidable (_ ∨ _ ∨ ∀ _ ∈ _, _))
  | .block _ _ _ _ => inferInstanceAs (Decidable (_ → _ → _))
  | .handledNormal _ _ _ => inferInstanceAs (Decidable (_ → ∀ _ ∈ _, _))
  | .backlog => inferInstanceAs (Decidable s.Fresh)
  | .newConnection _ | .newPeerJustAdded _ _ | .fetchItemIds _ _ _ | .itemNotAvailable _ _
  | .handled _ _ _ | .fetchSyncItems | .timeout _ | .connectionClosed _ | .broadcast _ _
  | .elsewhere _ _ _ => inferInstanceAs (Decidable True)

/-! ## What most handlers keep -/

/-- All lists are in order. -/
def InOrder (s : SyncNode) : Prop := ∀ i ∈ s.activeConnections, (s.peer i).InOrder s.inProgress

/-- Nothing is handed to the client, and the lists of the active peers stay the same or become
empty. -/
structure Keeps (s s' : SyncNode) : Prop where
  /-- The blocks that are being processed. -/
  inProgress_eq : s'.inProgress = s.inProgress
  /-- The lists. -/
  sameList : ∀ i ∈ s'.activeConnections, (s'.peer i).idsOfItemsToGet = [] ∨
    i ∈ s.activeConnections ∧ (s.peer i).SameList (s'.peer i)

variable {s s' s'' : SyncNode} {d : NodeDelegate} {i : PeerId}

theorem Keeps.refl (s : SyncNode) : Keeps s s :=
  ⟨rfl, fun _ hi ↦ Or.inr ⟨hi, Peer.SameList.refl _⟩⟩

theorem Keeps.trans (h : Keeps s s') (h' : Keeps s' s'') : Keeps s s'' := by
  refine ⟨h'.inProgress_eq.trans h.inProgress_eq, fun i hi ↦ ?_⟩
  rcases h'.sameList i hi with hempty | ⟨hi', hsame'⟩
  · exact Or.inl hempty
  · rcases h.sameList i hi' with hempty | ⟨hi, hsame⟩
    · exact Or.inl (hsame'.idsOfItemsToGet_eq.trans hempty)
    · exact Or.inr ⟨hi, hsame.trans hsame'⟩

theorem Keeps.inOrder (hkeeps : Keeps s s') (h : s.InOrder) : s'.InOrder := by
  intro i hi
  rw [hkeeps.inProgress_eq]
  rcases hkeeps.sameList i hi with hempty | ⟨hi', hsame⟩
  · exact Or.inl hempty
  · exact hsame.inOrder (h i hi')

/-- Only the data of one peer changes. -/
theorem keeps_modifyPeer {f : Peer → Peer}
    (h : (f (s.peer i)).idsOfItemsToGet = [] ∨ (s.peer i).SameList (f (s.peer i))) :
    Keeps s (s.modifyPeer i f) := by
  refine ⟨rfl, fun j hj ↦ ?_⟩
  by_cases hji : j = i
  · subst hji
    rw [modifyPeer_self]
    exact h.imp_right fun hsame ↦ ⟨hj, hsame⟩
  · rw [modifyPeer_of_ne _ hji]
    exact Or.inr ⟨hj, Peer.SameList.refl _⟩

/-- Peers go from the active list to another one. -/
theorem keeps_dropConnections (s : SyncNode) (peers : List PeerId) :
    Keeps s (s.dropConnections peers) :=
  ⟨rfl, fun _ hi ↦ Or.inr ⟨List.mem_of_mem_filter hi, Peer.SameList.refl _⟩⟩

theorem keeps_disconnect (s : SyncNode) (peers : List PeerId) : Keeps s (s.disconnect peers) :=
  ⟨rfl, (keeps_dropConnections s peers).sameList⟩

theorem keeps_countUnfetchedItems (s : SyncNode) : Keeps s s.countUnfetchedItems :=
  ⟨rfl, (Keeps.refl s).sameList⟩

theorem keeps_fetchNextBatch (h : s.fetchNextBatchOfItemIdsFromPeer d i = some s') :
    Keeps s s' := by
  obtain ⟨synopsis, -, rfl⟩ := Option.map_eq_some_iff.1 h
  cases synopsis with
  | none => exact keeps_disconnect s _
  | some synopsis => exact keeps_modifyPeer (Or.inr ⟨rfl, rfl, rfl⟩)

theorem keeps_startSynchronizing (h : s.startSynchronizingWithPeer d i = some s') : Keeps s s' :=
  Keeps.trans (keeps_modifyPeer (Or.inl rfl)) (keeps_fetchNextBatch h)

theorem keeps_foldlM {f : SyncNode → PeerId → Option SyncNode}
    (hf : ∀ s i s', f s i = some s' → Keeps s s') {peers : List PeerId}
    (h : peers.foldlM f s = some s') : Keeps s s' :=
  applied_inv (fun _ i _ hkeeps hnext ↦ Keeps.trans hkeeps (hf _ i _ hnext)) (Keeps.refl s) h

/-! ## Replies with ids -/

/-- The numbers in a reply that is valid are consecutive, if they do not pass the last one. -/
theorem consecutive_of_isValidResponse {synopsis ids : List ItemHash} {front : ItemHash}
    (h : isValidResponse synopsis ids = true) (hfront : front ∈ ids.head?)
    (hbound : front.num + ids.length ≤ 2 ^ 32) : Consecutive front.num (ids.map ItemHash.num) := by
  obtain ⟨rest, rfl⟩ := List.head?_eq_some_iff.1 hfront
  obtain ⟨hall, -⟩ := Bool.and_eq_true_iff.1 h
  rw [consecutive_iff_getElem]
  intro k hk
  rw [List.length_map] at hk
  have hnumber := List.all_eq_true.1 hall ((front :: rest)[k], k) (by
    rw [List.mem_zipIdx_iff_getElem?]
    exact List.getElem?_eq_getElem hk)
  have hk' : k < 2 ^ 32 := by omega
  rw [List.getElem_map, ItemHash.num, of_decide_eq_true hnumber, UInt32.toNat_add,
    UInt32.toNat_ofNat_of_lt' hk']
  exact Nat.mod_eq_of_lt (show front.num + k < 2 ^ 32 by omega)

/-- What follows on a reply once its ids are on the list. -/
theorem keeps_afterInventory {m : Inventory} (h : s.afterInventory d i m = some s') :
    Keeps s s' := by
  rw [afterInventory] at h
  split_ifs at h
  · exact Option.some_inj.1 h ▸ keeps_disconnect s _
  · exact Option.some_inj.1 h ▸ keeps_countUnfetchedItems s
  · exact (keeps_countUnfetchedItems s).trans (keeps_fetchNextBatch h)
  · exact Option.some_inj.1 h ▸ keeps_countUnfetchedItems s
  · exact (keeps_countUnfetchedItems s).trans (keeps_fetchNextBatch h)

/-- A reply that fits, after the request has been taken off. -/
theorem InOrder.acceptInventory {m : Inventory} (h : s.InOrder)
    (hfits : hasNoMoreItems d (s.peer i) m = false → ∀ front ∈ m.itemHashesAvailable.head?,
      Consecutive front.num (m.itemHashesAvailable.map ItemHash.num) ∧
        (s.peer i).Fits d m.itemType (s.isFirstItemForOtherPeer i front) m.itemHashesAvailable)
    (hstep : s.acceptInventory d i m = some s') : s'.InOrder := by
  rw [SyncNode.acceptInventory] at hstep
  split_ifs at hstep with hnoMore
  · obtain rfl := Option.some_inj.1 hstep
    have hkeeps := (keeps_modifyPeer (s := s) (i := i)
      (f := fun p ↦ { p with weNeedSyncItemsFromPeer := false }) (Or.inr ⟨rfl, rfl, rfl⟩)).trans
      (keeps_countUnfetchedItems _)
    exact hkeeps.inOrder h
  · refine (keeps_afterInventory hstep).inOrder fun j hj ↦ ?_
    by_cases hji : j = i
    · subst hji
      rw [modifyPeer_self]
      have hfits := hfits (Bool.eq_false_iff.2 hnoMore)
      have hmerged := Peer.InOrder.mergeItemHashes d m.itemType
        (m.itemHashesAvailable.head?.any (s.isFirstItemForOtherPeer j)) m.itemHashesAvailable
        (h j hj) (fun front hfront ↦ (hfits front hfront).1) ?_
      · change Peer.InOrder s.inProgress _
        refine Peer.SameList.inOrder ?_ hmerged
        exact ⟨rfl, rfl, rfl⟩
      · cases hids : m.itemHashesAvailable with
        | nil => trivial
        | cons front rest =>
          rw [hids] at hfits
          exact (hfits front rfl).2
    · rw [modifyPeer_of_ne _ hji]
      exact h j hj

/-- **A reply that fits keeps the lists in order.** -/
theorem InOrder.onBlockchainItemIdsInventory {m : Inventory} (h : s.InOrder)
    (horderly : s.Orderly (.inventory d i m))
    (hstep : s.onBlockchainItemIdsInventory d i m = some s') : s'.InOrder := by
  rw [SyncNode.onBlockchainItemIdsInventory] at hstep
  split at hstep
  next => exact Option.some_inj.1 hstep ▸ h
  next synopsis hsynopsis =>
    split_ifs at hstep with hvalid
    · exact Option.some_inj.1 hstep ▸ (keeps_disconnect s _).inOrder h
    · have hvalid : isValidResponse synopsis m.itemHashesAvailable = true := by simpa using hvalid
      set s₁ := s.modifyPeer i fun p ↦ { p with itemIdsRequestedFromPeer := none } with hs₁
      have hkeeps : Keeps s s₁ := keeps_modifyPeer (Or.inr ⟨rfl, rfl, rfl⟩)
      refine (hkeeps.inOrder h).acceptInventory (fun hnoMore front hfront ↦ ?_) hstep
      rw [hs₁, modifyPeer_self] at hnoMore ⊢
      obtain ⟨hbound, hfits⟩ := horderly synopsis hsynopsis hvalid hnoMore front hfront
      refine ⟨consecutive_of_isValidResponse hvalid hfront hbound, ?_⟩
      have hfirst : s₁.isFirstItemForOtherPeer i front = s.isFirstItemForOtherPeer i front := by
        refine List.any_congr rfl fun j ↦ ?_
        by_cases hji : j = i
        · simp [hji]
        · rw [hs₁, modifyPeer_of_ne _ hji]
      rw [← hs₁, hfirst]
      obtain ⟨rest, hrest⟩ := List.head?_eq_some_iff.1 hfront
      rw [hrest] at hfits ⊢
      exact hfits

theorem keeps_onFetchBlockchainItemIds {m : FetchItemIds}
    (h : s.onFetchBlockchainItemIds d i m = some s') : Keeps s s' := by
  obtain ⟨s₂, hrestart, rfl⟩ := Option.map_eq_some_iff.1 h
  have hnote : Keeps s (s.noteItemsNeeded d i m) := keeps_modifyPeer (Or.inr ⟨rfl, rfl, rfl⟩)
  have hneeds : Keeps s s₂ := by
    split_ifs at hrestart
    · exact hnote.trans (keeps_startSynchronizing hrestart)
    · exact Option.some_inj.1 hrestart ▸ hnote
  split_ifs
  · exact hneeds.trans (keeps_disconnect _ _)
  · exact hneeds

/-! ## Requests for items and blocks of normal operation -/

theorem keeps_onConnectionClosed (s : SyncNode) (i : PeerId) : Keeps s (s.onConnectionClosed i) :=
  ⟨rfl, (keeps_disconnect s _).sameList⟩

/-- What is sent of the items does not change which block was seen last, or there is no list. -/
theorem keeps_onFetchItems {m : FetchItems} (horderly : s.Orderly (.fetchItems d i m)) :
    Keeps s (s.onFetchItems d i m) := by
  rw [onFetchItems]
  split_ifs with htype
  · split
    next => exact Keeps.refl s
    next => exact keeps_onConnectionClosed s i
    next b hlast =>
      refine keeps_modifyPeer ?_
      rcases horderly with hempty | hne | hnum
      · exact Or.inl hempty
      · exact absurd htype hne
      · exact Or.inr ⟨rfl, rfl, hnum b (by rw [hlast]; rfl)⟩
  · exact Keeps.refl s

theorem keeps_broadcast (s : SyncNode) (messageHash : ItemHash) (b : BlockMessage) :
    Keeps s (s.broadcast messageHash b) :=
  ⟨rfl, (Keeps.refl s).sameList⟩

theorem keeps_ageMessageCache (s : SyncNode) : Keeps s s.ageMessageCache :=
  ⟨rfl, (Keeps.refl s).sameList⟩

/-- Every active peer's list stays as it is, or is empty. -/
theorem keeps_modifyActive {f : Peer → Peer} (h : ∀ i ∈ s.activeConnections,
    (f (s.peer i)).idsOfItemsToGet = [] ∨ (s.peer i).SameList (f (s.peer i))) :
    Keeps s (s.modifyActive f) := by
  refine ⟨rfl, fun i (hi : i ∈ s.activeConnections) ↦ ?_⟩
  rw [modifyActive_of_mem hi]
  exact (h i hi).imp_right fun hsame ↦ ⟨hi, hsame⟩

/-- A block of normal operation does not change which block was seen last. -/
theorem keeps_finishNormalBlock {x : NormalBlock} {outcome : HandleBlock}
    (hadvertised : outcome = .accepted → s.UpToDateOn x)
    (h : s.finishNormalBlock d x outcome = some s') : Keeps s s' := by
  cases outcome with
  | accepted =>
    obtain rfl := Option.some_inj.1 h
    refine (keeps_modifyActive fun j hj ↦ ?_).trans ((keeps_broadcast _ _ _).trans
      ((keeps_ageMessageCache _).trans (keeps_disconnect _ _)))
    split
    next hmem => exact (hadvertised rfl j hj hmem).imp_right fun hnum ↦ ⟨rfl, rfl, hnum⟩
    next => exact Or.inr (Peer.SameList.refl _)
  | unlinkable => exact keeps_startSynchronizing h
  | olderThanUndoHistory => exact Option.some_inj.1 h ▸ keeps_disconnect s _
  | rejected => exact Option.some_inj.1 h ▸ keeps_disconnect s _

theorem keeps_handledNormalBlock {n : ℕ} {outcome : HandleBlock}
    (horderly : s.Orderly (.handledNormal d n outcome))
    (h : s.handledNormalBlock d n outcome = some s') : Keeps s s' := by
  obtain ⟨x, hx, hfinish⟩ := Option.bind_eq_some_iff.1 h
  dsimp only at hfinish
  split_ifs at hfinish with haccepted
  · refine Keeps.trans ?_ (keeps_finishNormalBlock ?_ hfinish)
    · exact ⟨rfl, (Keeps.refl s).sameList⟩
    · exact fun _ ↦ horderly haccepted x hx
  · refine Keeps.trans ?_ (keeps_finishNormalBlock (fun h ↦ absurd h haccepted) hfinish)
    exact ⟨rfl, (Keeps.refl s).sameList⟩

/-- **A block that is received keeps the lists in order.** -/
theorem keeps_processBlockMessage {messageHash : ItemHash} {b : BlockMessage}
    (horderly : s.Orderly (.block d i messageHash b))
    (h : s.processBlockMessage d i messageHash b = some s') : Keeps s s' := by
  rw [processBlockMessage] at h
  split_ifs at h with hrequested hsync
  · set f : Peer → Peer := fun p ↦ { p with
      itemsRequestedFromPeer :=
        p.itemsRequestedFromPeer.filter (· ≠ ⟨blockMessageType, messageHash⟩) } with hf
    have hkeeps : Keeps s (s.modifyPeer i f) := keeps_modifyPeer (Or.inr ⟨rfl, rfl, rfl⟩)
    refine hkeeps.trans ?_
    dsimp only at h
    rw [processBlockDuringNormalOperation] at h
    split_ifs at h with hknown
    · refine keeps_finishNormalBlock (fun _ j hj hmem ↦ ?_) h
      have hlist := horderly hrequested hknown j hj
      by_cases hji : j = i
      · subst hji
        rw [modifyPeer_self] at hmem ⊢
        exact hlist hmem
      · rw [modifyPeer_of_ne _ hji] at hmem ⊢
        exact hlist hmem
    · exact Option.some_inj.1 h ▸ ⟨rfl, (Keeps.refl _).sameList⟩
  · set f : Peer → Peer := fun p ↦ { p with
      syncItemsRequestedFromPeer :=
        p.syncItemsRequestedFromPeer.filter (· ≠ ⟨blockMessageType, b.blockId⟩) } with hf
    have hkeeps : Keeps s (s.modifyPeer i f) := keeps_modifyPeer (Or.inr ⟨rfl, rfl, rfl⟩)
    have hreceived : Keeps (s.modifyPeer i f) { s.modifyPeer i f with
        activeSyncRequests := (s.modifyPeer i f).activeSyncRequests.erase b.blockId
        newReceivedSyncItems := b :: (s.modifyPeer i f).newReceivedSyncItems } :=
      ⟨rfl, (Keeps.refl _).sameList⟩
    dsimp only at h
    split_ifs at h
    · exact hkeeps.trans (hreceived.trans (keeps_fetchNextBatch h))
    · exact Option.some_inj.1 h ▸ hkeeps.trans hreceived
  · exact Option.some_inj.1 h ▸ keeps_disconnect s _

theorem keeps_onItemNotAvailable (s : SyncNode) (i : PeerId) (requestedItem : ItemId) :
    Keeps s (s.onItemNotAvailable i requestedItem) := by
  rw [onItemNotAvailable]
  split_ifs
  · exact keeps_modifyPeer (Or.inr ⟨rfl, rfl, rfl⟩)
  · have hkeeps := keeps_modifyPeer (s := s) (i := i) (f := fun p ↦ { p with
      syncItemsRequestedFromPeer := p.syncItemsRequestedFromPeer.filter (· ≠ requestedItem) })
      (Or.inr ⟨rfl, rfl, rfl⟩)
    dsimp only
    split_ifs
    · exact hkeeps.trans (keeps_modifyPeer (Or.inr ⟨rfl, rfl, rfl⟩))
    · exact hkeeps.trans (keeps_disconnect _ _)
  · exact Keeps.refl s

/-! ## The backlog -/

/-- What the rounds of the backlog keep. -/
structure Ready (s : SyncNode) : Prop where
  /-- The lists are in order. -/
  inOrder : s.InOrder
  /-- What was received is fresh. -/
  fresh : s.Fresh

theorem Ready.collectSyncItems (h : s.Ready) : s.collectSyncItems.Ready := by
  have hreceived : s.collectSyncItems.collectSyncItems.receivedSyncItems =
      s.collectSyncItems.receivedSyncItems := List.nil_append _
  have hwanted : s.collectSyncItems.wanted = s.wanted := by
    rw [wanted, hreceived]
    rfl
  exact ⟨h.inOrder, hwanted ▸ h.fresh.nodup, hwanted ▸ h.fresh.not_accepted,
    hwanted ▸ h.fresh.not_inProgress⟩

theorem popFirst_subset (id : ItemHash) (p : Peer) :
    (popFirst id p).idsOfItemsToGet ⊆ p.idsOfItemsToGet := by
  rw [popFirst]
  split
  · exact List.tail_subset _
  · exact List.Subset.refl _

theorem isWanted_of_isPotentialFirstBlock {b : BlockMessage}
    (h : s.isPotentialFirstBlock b.blockId = true) : s.isWanted b = true := by
  obtain ⟨i, hi, hhead⟩ := List.any_eq_true.1 h
  exact List.any_eq_true.2 ⟨i, hi, decide_eq_true (List.mem_of_mem_head? (of_decide_eq_true hhead))⟩

/-- A block that was not handed to the client before is handed to it. -/
theorem InOrder.hand {b : BlockMessage} (h : s.InOrder) (hfresh : b.blockId ∉ s.inProgress)
    (hactive : s'.activeConnections = s.activeConnections)
    (hpeer : s'.peer = (s.modifyActive (popFirst b.blockId)).peer)
    (hinProgress : s'.inProgress = s.inProgress ++ [b.blockId]) : s'.InOrder := by
  intro i hi
  rw [hactive] at hi
  rw [hpeer, modifyActive_of_mem hi, hinProgress]
  exact (h i hi).popFirst hfresh

/-- A round of the backlog: the block that is handed to the client is taken off the lists that begin
with it, and what is left is as fresh as before. -/
theorem Ready.backlogRound (h : s.Ready) : s.backlogRound.1.Ready := by
  rw [SyncNode.backlogRound]
  have hready := h.collectSyncItems
  have hnew : s.collectSyncItems.newReceivedSyncItems = [] := rfl
  generalize s.collectSyncItems = s at hready hnew
  have hwanted : s.wanted = s.receivedSyncItems.filter s.isWanted := by
    rw [wanted, SyncNode.collectSyncItems, hnew]
    rfl
  dsimp only
  split
  next => exact hready
  next b hfind =>
    obtain ⟨hfirst, as, bs, hreceived, hnot⟩ := List.find?_eq_some_iff_append.1 hfind
    have hb : s.isWanted b = true := isWanted_of_isPotentialFirstBlock hfirst
    rw [hreceived, List.filter_append, List.filter_cons_of_pos hb] at hwanted
    have hmem : b ∈ s.wanted := by
      rw [hwanted]
      exact List.mem_append_right _ List.mem_cons_self
    have hleft : s.receivedSyncItems.eraseP (fun b ↦ s.isPotentialFirstBlock b.blockId) =
        as ++ bs := by
      rw [hreceived, List.eraseP_append_right _ fun a ha ↦ by simpa using hnot a ha]
      exact congrArg (as ++ ·) (List.eraseP_cons_of_pos hfirst)
    rw [if_neg (hready.fresh.not_accepted b hmem), hleft]
    set s' : SyncNode := { s.modifyActive (popFirst b.blockId) with
      receivedSyncItems := as ++ bs
      handleMessageCallsInProgress := s.handleMessageCallsInProgress ++ [⟨b, false⟩] } with hs'
    have hinProgress : s'.inProgress = s.inProgress ++ [b.blockId] := inProgress_concat rfl
    -- what is wanted afterwards was wanted before, besides the block itself
    have hless : ∀ a, s'.isWanted a = true → s.isWanted a = true := by
      intro a ha
      obtain ⟨i, hi, hlist⟩ := List.any_eq_true.1 ha
      have hi : i ∈ s.activeConnections := hi
      have hlist := of_decide_eq_true hlist
      change a.blockId ∈ ((s.modifyActive (popFirst b.blockId)).peer i).idsOfItemsToGet at hlist
      rw [modifyActive_of_mem hi] at hlist
      exact List.any_eq_true.2 ⟨i, hi, decide_eq_true (popFirst_subset _ _ hlist)⟩
    have hsub : s'.wanted.Sublist (as.filter s.isWanted ++ bs.filter s.isWanted) := by
      have hwanted' : s'.wanted = (as ++ bs).filter s'.isWanted := by
        rw [wanted, SyncNode.collectSyncItems, hs']
        change (s.newReceivedSyncItems.reverse ++ (as ++ bs)).filter _ = _
        rw [hnew]
        rfl
      rw [hwanted', ← List.filter_append]
      exact List.monotone_filter_right _ hless
    have hnodup := hready.fresh.nodup
    rw [hwanted, List.map_append, List.map_cons, List.nodup_middle, List.nodup_cons,
      ← List.map_append] at hnodup
    have hstill : ∀ a ∈ s'.wanted, a ∈ s.wanted ∧ a.blockId ≠ b.blockId := by
      intro a ha
      have hmem' := hsub.subset ha
      refine ⟨?_, fun heq ↦ hnodup.1 (heq ▸ List.mem_map_of_mem hmem')⟩
      rw [hwanted]
      exact ((List.sublist_cons_self b _).append_left _).subset hmem'
    refine ⟨hready.inOrder.hand (hready.fresh.not_inProgress b hmem) rfl rfl hinProgress,
      (hsub.map _).nodup hnodup.2, fun a ha ↦ hready.fresh.not_accepted a (hstill a ha).1,
      fun a ha ↦ ?_⟩
    rw [hinProgress, List.mem_append, List.mem_singleton]
    exact not_or.2 ⟨hready.fresh.not_inProgress a (hstill a ha).1, (hstill a ha).2⟩

theorem Ready.backlogRounds (h : s.Ready) (fuel : ℕ) : (backlogRounds fuel s).InOrder := by
  induction fuel generalizing s with
  | zero => exact h.inOrder
  | succ fuel ih =>
    have hready := h.backlogRound
    rw [SyncNode.backlogRounds]
    dsimp only
    split_ifs
    · exact hready.inOrder
    · exact hready.inOrder
    · exact ih hready
    · exact hready.inOrder

/-- **Processing the backlog keeps the lists in order.** -/
theorem InOrder.processBacklogOfSyncBlocks (h : s.InOrder) (horderly : s.Orderly .backlog) :
    s.processBacklogOfSyncBlocks.InOrder := by
  rw [SyncNode.processBacklogOfSyncBlocks]
  dsimp only
  split_ifs
  · exact Keeps.inOrder ⟨by simp [inProgress], (Keeps.refl s).sameList⟩ h
  · set s₁ : SyncNode := { s with
      handleMessageCallsInProgress := s.handleMessageCallsInProgress.filter (!·.ready)
      suspendFetchingSyncBlocks := false } with hs₁
    have hinProgress : s₁.inProgress = s.inProgress := by simp [inProgress, hs₁]
    refine Ready.backlogRounds (s := s₁) ⟨?_, horderly.nodup, horderly.not_accepted,
      fun b hb ↦ ?_⟩ _
    · exact Keeps.inOrder ⟨hinProgress, (Keeps.refl s).sameList⟩ h
    · rw [hinProgress]
      exact horderly.not_inProgress b hb

/-! ## Blocks the client is done with -/

/-- The block of the first task that is not over. -/
theorem finishCall_zero {calls calls' : List HandleMessageCall} {b : BlockMessage}
    (h : finishCall 0 calls = some (b, calls')) :
    (calls.filter (!·.ready)).map (fun c ↦ c.block.blockId) =
      b.blockId :: (calls'.filter (!·.ready)).map fun c ↦ c.block.blockId := by
  induction calls generalizing calls' with
  | nil => cases h
  | cons c calls ih =>
    rw [finishCall] at h
    split_ifs at h with hready
    · obtain ⟨⟨b', calls''⟩, hrest, heq⟩ := Option.map_eq_some_iff.1 h
      obtain ⟨rfl, rfl⟩ := Prod.mk.inj heq
      simpa [hready] using ih hrest
    · obtain ⟨rfl, rfl⟩ := Prod.mk.inj (Option.some_inj.1 h)
      simp [hready]

/-- **A block that the client accepts keeps the lists in order.** -/
theorem InOrder.sendSyncBlockToNodeDelegate (h : s.InOrder)
    (hstep : s.sendSyncBlockToNodeDelegate d 0 .accepted = some s') : s'.InOrder := by
  obtain ⟨⟨b, calls⟩, hcall, haccepted⟩ := Option.bind_eq_some_iff.1 hstep
  obtain ⟨s₂, hfetch, hsync⟩ := Option.bind_eq_some_iff.1 haccepted
  refine ((keeps_foldlM (fun _ _ _ ↦ keeps_fetchNextBatch) hfetch).trans
    (keeps_foldlM (fun _ _ _ ↦ keeps_startSynchronizing) hsync)).inOrder fun i hi ↦ ?_
  have horder := h i (List.mem_of_mem_filter hi)
  rw [inProgress, finishCall_zero hcall] at horder
  exact (congrArg (Peer.InOrder _) (if_pos hi)).mpr horder.finishProcessing

/-! ## Asking for blocks -/

theorem keeps_requestSyncItems (s : SyncNode) (i : PeerId) (items : List ItemHash) :
    Keeps s (s.requestSyncItemsFromPeer i items) := by
  have hkeeps := keeps_modifyPeer (s := s) (i := i) (f := fun p ↦ { p with
    syncItemsRequestedFromPeer :=
      p.syncItemsRequestedFromPeer ++ items.map (⟨blockMessageType, ·⟩) }) (Or.inr ⟨rfl, rfl, rfl⟩)
  exact ⟨hkeeps.inProgress_eq, hkeeps.sameList⟩

theorem keeps_fetchSyncItems (s : SyncNode) : Keeps s s.fetchSyncItems := by
  rw [fetchSyncItems]
  split
  · exact Keeps.refl s
  · exact List.foldlRecOn _ _ (Keeps.refl s) fun _ hkeeps x _ ↦
      hkeeps.trans (keeps_requestSyncItems _ x.1 x.2)

/-! ## Runs -/

theorem keeps_movePeerToTerminatingList (s : SyncNode) (i : PeerId) :
    Keeps s (s.movePeerToTerminatingList i) :=
  ⟨rfl, (keeps_dropConnections s [i]).sameList⟩

/-- Synchronization begins with a peer that is added to the active ones. -/
theorem keeps_newPeerJustAdded
    (h : (s.movePeerToActiveList i).startSynchronizingWithPeer d i = some s') : Keeps s s' := by
  rw [startSynchronizingWithPeer] at h
  refine Keeps.trans ?_ (keeps_fetchNextBatch h)
  refine ⟨rfl, fun j hj ↦ ?_⟩
  by_cases hji : j = i
  · subst hji
    exact Or.inl (by rw [modifyPeer_self])
  · rw [modifyPeer_of_ne _ hji]
    have hj : j ∈ (s.dropConnections [i]).activeConnections ++ [i] := hj
    rcases List.mem_append.1 hj with hactive | hself
    · exact (keeps_dropConnections s [i]).sameList j hactive
    · exact absurd (List.mem_singleton.1 hself) hji

/-- An event that happens only if `c` holds. -/
theorem of_guard {c : Prop} [Decidable c] {o : Option SyncNode}
    (h : (if c then o else none) = some s') : o = some s' := by
  split_ifs at h
  exact h

/-- **Every orderly event keeps the lists in order.** -/
theorem InOrder.step {e : SyncEvent} (h : s.InOrder) (hsuccess : e.Successful)
    (horderly : s.Orderly e) (hstep : s.step e = some s') : s'.InOrder := by
  cases e with
  | newConnection i =>
    rw [SyncNode.step] at hstep
    split_ifs at hstep
    obtain rfl := Option.some_inj.1 hstep
    have hkeeps := keeps_modifyPeer (s := s) (i := i) (f := fun _ ↦ {}) (Or.inl rfl)
    exact Keeps.inOrder ⟨hkeeps.inProgress_eq, hkeeps.sameList⟩ h
  | newPeerJustAdded d i => exact (keeps_newPeerJustAdded (of_guard hstep)).inOrder h
  | fetchItemIds d i m => exact (keeps_onFetchBlockchainItemIds (of_guard hstep)).inOrder h
  | inventory d i m => exact h.onBlockchainItemIdsInventory horderly (of_guard hstep)
  | fetchItems d i m =>
    exact Option.some_inj.1 (of_guard hstep) ▸ (keeps_onFetchItems horderly).inOrder h
  | block d i messageHash b =>
    exact (keeps_processBlockMessage horderly (of_guard hstep)).inOrder h
  | itemNotAvailable i requestedItem =>
    exact Option.some_inj.1 (of_guard hstep) ▸ (keeps_onItemNotAvailable s i _).inOrder h
  | handledNormal d n outcome => exact (keeps_handledNormalBlock horderly hstep).inOrder h
  | backlog => exact Option.some_inj.1 hstep ▸ h.processBacklogOfSyncBlocks horderly
  | handled d n outcome =>
    obtain ⟨rfl, rfl⟩ := hsuccess
    exact h.sendSyncBlockToNodeDelegate hstep
  | fetchSyncItems => exact Option.some_inj.1 hstep ▸ (keeps_fetchSyncItems s).inOrder h
  | timeout i =>
    exact Option.some_inj.1 (of_guard hstep) ▸ (keeps_movePeerToTerminatingList s i).inOrder h
  | connectionClosed i =>
    exact Option.some_inj.1 (of_guard hstep) ▸ (keeps_onConnectionClosed s i).inOrder h
  | broadcast messageHash b =>
    exact Option.some_inj.1 hstep ▸ (keeps_broadcast s messageHash b).inOrder h
  | elsewhere i advertised requested =>
    exact Option.some_inj.1 hstep ▸ (keeps_modifyPeer (Or.inr ⟨rfl, rfl, rfl⟩)).inOrder h

/-- The list of every active peer is contiguous. -/
def ListsContiguous (s : SyncNode) : Prop := ∀ i ∈ s.activeConnections, (s.peer i).Contiguous

/-- **The lists stay contiguous** along every run from empty lists in which the client accepts the
blocks of synchronization and every event is orderly. -/
theorem sync_list_contiguous {s t : SyncNode} {events : List SyncEvent}
    (hstart : ∀ i ∈ s.activeConnections, (s.peer i).idsOfItemsToGet = [])
    (hsuccess : ∀ e ∈ events, e.Successful) (horderly : Throughout SyncNode.step Orderly s events)
    (h : applied SyncNode.step s events = some t) : t.ListsContiguous := by
  have hs : s.InOrder := fun i hi ↦ Or.inl (hstart i hi)
  have ht : t.InOrder := horderly.inv hsuccess (fun _ _ _ hs hsuccess hq hstep ↦
    hs.step hsuccess hq hstep) hs h
  exact fun i hi ↦ (ht i hi).contiguous

end SyncNode

/-! ## Four runs -/

namespace SyncRuns

/-- The id of a block of the chain. -/
def blockId (n : ℕ) : ItemHash := ⟨UInt32.ofNat n, 7⟩

/-- A block of the chain. -/
def block (n : ℕ) : BlockMessage := ⟨blockId n, UInt32.ofNat n, UInt32.ofNat n⟩

/-- The hash of the message with a block. -/
def messageHash (n : ℕ) : ItemHash := ⟨UInt32.ofNat n, 8⟩

/-- The item that the message with a block is. -/
def advertised (n : ℕ) : ItemId := ⟨blockMessageType, messageHash n⟩

/-- The halving of a synopsis: every block from `low` up to `high` that is reached, where the chain
that is summarized ends at `trueHigh`. -/
def halve (high trueHigh : ℕ) : ℕ → ℕ → List ItemHash
  | 0, _ => []
  | fuel + 1, low =>
    blockId low ::
      if low + (trueHigh - low + 2) / 2 ≤ high then
        halve high trueHigh fuel (low + (trueHigh - low + 2) / 2)
      else []

/-- A client with the blocks of the chain up to `head`. -/
def client (head : ℕ) : NodeDelegate where
  hasItem item := item.itemType = blockMessageType ∧ item.itemHash.rest = 7 ∧
    1 ≤ item.itemHash.num ∧ item.itemHash.num ≤ head
  getItem item :=
    if item.itemType = blockMessageType ∧ item.itemHash.rest = 7 ∧ 1 ≤ item.itemHash.num ∧
      item.itemHash.num ≤ head then some (.block (block item.itemHash.num)) else none
  getBlockTime id := id.number
  getBlockchainNow := 1000
  getBlockIds synopsis :=
    let last := ((synopsis.filter fun id ↦ id.rest = 7 ∧ id.num ≤ head).getLast?.map
      ItemHash.num).getD 1
    (List.range' last (head + 1 - last)).map blockId
  getBlockchainSynopsis reference after :=
    let high := if reference = ItemHash.zero then head else reference.num
    some (if high = 0 then [] else halve high (high + after.toNat) (high + 1) 1)

/-- A node without connections. -/
def start : SyncNode where
  peer _ := {}

/-- The ids of the blocks from `first` to `last`, with `remaining` more behind them. -/
def ids (first last remaining : ℕ) : SyncNode.Inventory where
  totalRemainingItemCount := UInt32.ofNat remaining
  itemType := blockMessageType
  itemHashesAvailable := (List.range' first (last + 1 - first)).map blockId

/-- A peer connects to a node with two blocks, which starts to synchronize with it. -/
def connect (i : PeerId) : List SyncEvent := [.newConnection i, .newPeerJustAdded (client 2) i]

/-- A node with two blocks synchronizes with a peer that has five. -/
def connected : List SyncEvent :=
  connect 0 ++ [.inventory (client 2) 0 (ids 2 5 0), .fetchSyncItems]

/-- It gets the first of them. -/
def orderly : List SyncEvent :=
  connected ++ [.block (client 2) 0 (messageHash 3) (block 3), .backlog,
    .handled (client 3) 0 .accepted]

/-- The peer asks for a block that comes before. -/
def served : List SyncEvent :=
  connected ++ [.fetchItems (client 2) 0 ⟨blockMessageType, [blockId 1]⟩]

/-- The next block is broadcast, by this peer and another. -/
def broadcasted : List SyncEvent :=
  connected ++ connect 1 ++ [.inventory (client 2) 1 (ids 2 2 0),
    .elsewhere 0 [advertised 3] [], .elsewhere 1 [advertised 3] [advertised 3],
    .block (client 2) 1 (messageHash 3) (block 3), .handledNormal (client 3) 0 .accepted]

/-- A second reply comes while the block that the first one ended with is being processed. -/
def overlapping : List SyncEvent :=
  connect 0 ++ [.inventory (client 2) 0 (ids 2 3 2)] ++ connect 1 ++
    [.inventory (client 2) 1 (ids 2 3 0), .fetchSyncItems,
      .block (client 2) 1 (messageHash 3) (block 3), .backlog,
      .inventory (client 2) 0 (ids 3 5 0)]

/-- The next block comes from another peer in normal operation, before it comes in its turn. -/
def overtaken : List SyncEvent :=
  connected ++ connect 1 ++ [.inventory (client 2) 1 (ids 2 2 0),
    .elsewhere 1 [advertised 3] [advertised 3],
    .block (client 2) 1 (messageHash 3) (block 3), .handledNormal (client 3) 0 .accepted,
    .block (client 3) 0 (messageHash 3) (block 3), .backlog,
    .block (client 3) 0 (messageHash 4) (block 4), .backlog, .handled (client 4) 0 .accepted]

/-- Along an orderly run the list is contiguous. -/
theorem orderly_contiguous :
    ∃ t, applied SyncNode.step start orderly = some t ∧ t.ListsContiguous := by
  have happlied : (applied SyncNode.step start orderly).isSome = true := by decide +kernel
  obtain ⟨t, ht⟩ := Option.isSome_iff_exists.1 happlied
  exact ⟨t, ht, SyncNode.sync_list_contiguous (by simp [start]) (by decide +kernel)
    (by decide +kernel) ht⟩

/-- What `Contiguous` relates, of an active peer: the number the list begins with, that of the last
block that was seen and how many blocks are being processed. -/
def numbers (s : SyncNode) : Option (ℕ × ℕ × ℕ) :=
  if 0 ∈ s.activeConnections then
    (s.peer 0).idsOfItemsToGet.head?.map fun id ↦
      (id.num, (s.peer 0).lastBlockDelegateHasSeen.num, (s.peer 0).idsOfItemsBeingProcessed.card)
  else none

theorem not_listsContiguous {run : List SyncEvent} {a b c : ℕ}
    (h : (applied SyncNode.step start run).bind numbers = some (a, b, c)) (hne : a ≠ b + c + 1) :
    ∃ t, applied SyncNode.step start run = some t ∧ ¬ t.ListsContiguous := by
  obtain ⟨t, ht, hnumbers⟩ := Option.bind_eq_some_iff.1 h
  refine ⟨t, ht, fun hlists ↦ ?_⟩
  rw [numbers] at hnumbers
  split_ifs at hnumbers with hactive
  obtain ⟨id, hid, heq⟩ := Option.map_eq_some_iff.1 hnumbers
  obtain ⟨rfl, rfl, rfl⟩ : id.num = a ∧ _ = b ∧ _ = c := by simpa using heq
  exact hne ((hlists 0 hactive).front_eq id hid)

/-- **Lists that are not contiguous**, each after a run that begins without connections and in which
the client accepts every block: a peer is served a block it asks for; the next block is broadcast; a
reply comes while a block is being processed; and a block comes in normal operation before it comes
in its turn, after which it is being processed for ever. -/
theorem sync_list_breaks :
    (∀ run ∈ [served, broadcasted, overlapping, overtaken], ∀ e ∈ run, e.Successful) ∧
      ∀ run ∈ [served, broadcasted, overlapping, overtaken],
        ∃ t, applied SyncNode.step start run = some t ∧ ¬ t.ListsContiguous := by
  refine ⟨by decide +kernel, ?_⟩
  simp only [List.forall_mem_cons, List.not_mem_nil, false_imp_iff, implies_true, and_true]
  have hserved : (applied SyncNode.step start served).bind numbers = some (3, 1, 0) := by
    decide +kernel
  have hbroadcasted : (applied SyncNode.step start broadcasted).bind numbers = some (3, 3, 0) := by
    decide +kernel
  have hoverlapping : (applied SyncNode.step start overlapping).bind numbers = some (3, 2, 1) := by
    decide +kernel
  have hovertaken : (applied SyncNode.step start overtaken).bind numbers = some (5, 4, 1) := by
    decide +kernel
  exact ⟨not_listsContiguous hserved (by decide), not_listsContiguous hbroadcasted (by decide),
    not_listsContiguous hoverlapping (by decide), not_listsContiguous hovertaken (by decide)⟩

end SyncRuns

end Graphene
