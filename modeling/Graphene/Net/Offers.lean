import Graphene.Net.Inventory

/-!
# No peer is told twice

A node tells its peers which items it has.  It remembers for two minutes what it has told each of
them, and so tells nobody of the same item again within that time.

* `InventoryNode.Remembers` — what a step forgets of what peers have been told: only what is old.
* `InventoryNode.Remembers.step` — every step is one.
* `InventoryNode.told_after` — what a round has told a peer is remembered after it.
* `InventoryNode.not_told_again` — so that two rounds that tell a peer of an item are more than two
  minutes apart, whatever happens between them.
-/

set_option autoImplicit false

namespace Graphene

namespace InventoryNode

open Transitions

variable {s s' : InventoryNode} {now : ℕ} {i : PeerId} {x : ItemId}

/-- What a peer has been told, and when. -/
def told (s : InventoryNode) (i : PeerId) : TimestampedItems := (s.peer i).inventoryAdvertisedToPeer

/-- The time before which what has been told is forgotten. -/
def oldest (now : ℕ) : ℕ := toSeconds (now - minutes maxInventorySizeInMinutes)

/-- A step forgets only what is old.  Connections that become active are new. -/
structure Remembers (now : ℕ) (s s' : InventoryNode) : Prop where
  /-- No connection is forgotten in their count. -/
  connections : s.connections ≤ s'.connections
  /-- Active ones have been numbered. -/
  active : ∀ i ∈ s'.activeConnections, i ∈ s.activeConnections ∨ i < s'.connections
  /-- What they have been told is remembered, if it is not old. -/
  told : ∀ i < s.connections, ∀ e ∈ s.told i, oldest now ≤ e.2 → e ∈ s'.told i

namespace Remembers

theorem refl (now : ℕ) (s : InventoryNode) : Remembers now s s :=
  ⟨le_rfl, fun _ hi ↦ .inl hi, fun _ _ _ he _ ↦ he⟩

theorem trans {s₁ : InventoryNode} (h : Remembers now s s₁) (h' : Remembers now s₁ s') :
    Remembers now s s' := by
  refine ⟨h.connections.trans h'.connections, fun i hi ↦ ?_, fun i hi e he hold ↦ ?_⟩
  · rcases h'.active i hi with hi | hi
    · exact (h.active i hi).imp id fun hlt ↦ hlt.trans_le h'.connections
    · exact .inr hi
  · exact h'.told i (hi.trans_le h.connections) e (h.told i hi e he hold) hold

/-- What does not touch it. -/
theorem of_eq (hconnections : s'.connections = s.connections)
    (hactive : ∀ i ∈ s'.activeConnections, i ∈ s.activeConnections)
    (hpeer : s'.peer = s.peer) : Remembers now s s' :=
  ⟨hconnections.ge, fun i hi ↦ .inl (hactive i hi), fun i _ e he _ ↦ by
    rwa [InventoryNode.told, hpeer]⟩

theorem modifyPeer {f : InventoryPeer → InventoryPeer}
    (h : ∀ p, (f p).inventoryAdvertisedToPeer = p.inventoryAdvertisedToPeer) :
    Remembers now s (s.modifyPeer i f) := by
  refine ⟨le_rfl, fun _ hj ↦ .inl hj, fun j _ e he _ ↦ ?_⟩
  rcases eq_or_ne j i with rfl | hne
  · simpa [InventoryNode.told, InventoryNode.modifyPeer, h] using he
  · simpa [InventoryNode.told, InventoryNode.modifyPeer, Function.update_of_ne hne] using he

theorem mem_clearOldInventory {p : InventoryPeer} {e : ItemId × ℕ}
    (he : e ∈ p.inventoryAdvertisedToPeer) (hold : oldest now ≤ e.2) :
    e ∈ (p.clearOldInventory now).inventoryAdvertisedToPeer :=
  List.mem_filter.2 ⟨he, decide_eq_true hold⟩

theorem clearPeer : Remembers now s (s.modifyPeer i fun p ↦ p.clearOldInventory now) := by
  refine ⟨le_rfl, fun _ hj ↦ .inl hj, fun j _ e he hold ↦ ?_⟩
  rcases eq_or_ne j i with rfl | hne
  · simpa [InventoryNode.told, InventoryNode.modifyPeer] using mem_clearOldInventory he hold
  · simpa [InventoryNode.told, InventoryNode.modifyPeer, Function.update_of_ne hne] using he

theorem modifyActive {f : InventoryPeer → InventoryPeer}
    (h : ∀ p, ∀ e ∈ p.inventoryAdvertisedToPeer, oldest now ≤ e.2 →
      e ∈ (f p).inventoryAdvertisedToPeer) : Remembers now s (s.modifyActive f) := by
  refine ⟨le_rfl, fun _ hj ↦ .inl hj, fun j _ e he hold ↦ ?_⟩
  rw [InventoryNode.told, InventoryNode.modifyActive]
  dsimp only
  split_ifs
  · exact h _ e he hold
  · exact he

/-! ## The handlers -/

theorem insertItemToFetch : Remembers now s (s.insertItemToFetch now x) :=
  of_eq rfl (fun _ hi ↦ hi) rfl

theorem onItemHash (h : s.onItemHash now i x = some s') : Remembers now s s' := by
  have hoffered : Remembers now s (s.modifyPeer i fun p ↦ { p with
      inventoryPeerAdvertisedToUs := p.inventoryPeerAdvertisedToUs.add x (toSeconds now) }) :=
    modifyPeer fun _ ↦ rfl
  rw [InventoryNode.onItemHash] at h
  split at h
  case isTrue =>
    obtain rfl := Option.some.inj h
    exact refl now s
  case isFalse =>
    split at h
    case isTrue => cases h
    case isFalse =>
      dsimp only at h
      split at h
      case isTrue =>
        obtain rfl := Option.some.inj h
        exact hoffered
      case isFalse =>
        split at h
        case isTrue =>
          obtain rfl := Option.some.inj h
          exact hoffered.trans (of_eq rfl (fun _ hi ↦ hi) rfl)
        case isFalse =>
          obtain rfl := Option.some.inj h
          exact hoffered.trans insertItemToFetch

theorem onItemHashes (xs : List ItemId) :
    Remembers now s (InventoryNode.onItemHashes now i xs s) := by
  induction xs generalizing s with
  | nil => exact refl now s
  | cons x xs ih =>
    rw [InventoryNode.onItemHashes]
    split
    · exact refl now s
    · exact (onItemHash ‹_›).trans ih

theorem onItemNotAvailable : Remembers now s (s.onItemNotAvailable now i x) := by
  rw [InventoryNode.onItemNotAvailable]
  split_ifs
  · have hgiven : Remembers now s (s.modifyPeer i fun p ↦
        { p with
          itemsRequestedFromPeer := p.itemsRequestedFromPeer.filter (· ≠ x)
          inventoryPeerAdvertisedToUs := p.inventoryPeerAdvertisedToUs.filter (·.1 ≠ x) }) :=
      modifyPeer fun _ ↦ rfl
    dsimp only
    split_ifs
    · exact hgiven.trans insertItemToFetch
    · exact hgiven
  · exact refl now s

theorem endConnection : Remembers now s (s.endConnection i) :=
  of_eq rfl (fun _ hj ↦ (List.mem_filter.1 hj).1) rfl

theorem endConnections (is : List PeerId) :
    Remembers now s (is.foldl InventoryNode.endConnection s) := by
  induction is generalizing s with
  | nil => exact refl now s
  | cons i is ih => exact endConnection.trans ih

theorem onConnectionClosed : Remembers now s (s.onConnectionClosed now i) := by
  have hreschedule (xs : List ItemId) (t : InventoryNode) :
      Remembers now t (reschedule now xs t) := by
    induction xs generalizing t with
    | nil => exact refl now t
    | cons x xs ih =>
      rw [reschedule]
      split_ifs
      · exact insertItemToFetch.trans (ih _)
      · exact ih t
  have hdropped : Remembers now s (s.dropConnection i) :=
    of_eq rfl (fun _ hj ↦ (List.mem_filter.1 hj).1) rfl
  exact hdropped.trans (hreschedule _ _)

theorem handled (x : HandledItem) (handling : Handling) :
    Remembers now s (s.handled now x handling) := by
  rw [InventoryNode.handled]
  split_ifs
  · cases handling with
    | accepted containedTransactions =>
      refine Remembers.trans ?_ (endConnections _)
      have hclear (t : InventoryNode) : Remembers now t
          (t.modifyActive fun p ↦ p.clearOldInventory now) :=
        modifyActive fun p e he hold ↦ mem_clearOldInventory he hold
      obtain ⟨hconnections, hactive, htold⟩ := hclear { s with
        itemsToFetch := s.itemsToFetch.filter fun y ↦
          y.item ∉ containedTransactions.map (fun id ↦ (⟨trxMessageType, id⟩ : ItemId)) }
      exact ⟨hconnections, hactive, htold⟩
    | rejected => exact endConnections _
    | unlinkable => exact refl now s
  · cases handling with
    | accepted | rejected | unlinkable => exact of_eq rfl (fun _ hi ↦ hi) rfl

/-- The requests of a round leave it alone. -/
theorem fetchItems : Remembers now s (s.fetchItems now) := by
  have hrun (oldest : ℕ) (xs : List PrioritizedItem) (f : FetchRound) (i : PeerId) :
      ((FetchRound.run now oldest xs f).2.peer i).inventoryAdvertisedToPeer =
        (f.peer i).inventoryAdvertisedToPeer := by
    induction xs generalizing f with
    | nil => rfl
    | cons x xs ih =>
      rw [FetchRound.run]
      split_ifs
      · exact ih f
      · split
        next j _ =>
          rw [ih]
          rcases eq_or_ne i j with rfl | hne
          · simp [FetchRound.request]
          · simp [FetchRound.request, Function.update_of_ne hne]
        next => exact ih f
  refine ⟨le_rfl, fun _ hi ↦ .inl hi, fun i _ e he _ ↦ ?_⟩
  simpa [InventoryNode.told, InventoryNode.fetchItems, hrun, startRound] using he

theorem mem_add {t : TimestampedItems} {e : ItemId × ℕ} {time : ℕ} (he : e ∈ t) :
    e ∈ t.add x time := by
  unfold TimestampedItems.add
  split_ifs
  · exact he
  · exact List.mem_append_left _ he

theorem mem_foldl_add {t : TimestampedItems} {e : ItemId × ℕ} (he : e ∈ t) (time : ℕ)
    (xs : List ItemId) : e ∈ xs.foldl (fun t x ↦ t.add x time) t := by
  induction xs generalizing t with
  | nil => exact he
  | cons x xs ih =>
    exact ih (mem_add he)

theorem advertiseInventory : Remembers now s (s.advertiseInventory now) := by
  have h : Remembers now s (s.modifyActive (advertiseTo now s.newInventory)) :=
    modifyActive fun _ _ he hold ↦ mem_clearOldInventory (mem_foldl_add he _ _) hold
  exact ⟨h.connections, h.active, h.told⟩

theorem movePeerToActiveList : Remembers now s s.movePeerToActiveList := by
  refine ⟨Nat.le_succ _, fun i hi ↦ ?_, fun i hi e he _ ↦ ?_⟩
  · rcases List.mem_append.1 hi with hi | hi
    · exact .inl hi
    · rw [List.mem_singleton.1 hi]
      exact .inr (Nat.lt_succ_self _)
  · simpa [InventoryNode.told, InventoryNode.movePeerToActiveList,
      Function.update_of_ne hi.ne] using he

/-! ## Every step -/

theorem peerStep {e : PeerEvent} (h : s.peerStep now i e = some s') : Remembers now s s' := by
  cases e with
  | itemIdsInventory =>
    obtain rfl := Option.some.inj h
    exact clearPeer.trans (onItemHashes _)
  | itemNotAvailable =>
    obtain rfl := Option.some.inj h
    exact onItemNotAvailable
  | received x =>
    rw [InventoryNode.peerStep] at h
    split_ifs at h
    · obtain rfl := Option.some.inj h
      have hmodify : Remembers now s (s.modifyPeer i fun p ↦
          { p with itemsRequestedFromPeer := p.itemsRequestedFromPeer.filter (· ≠ x) }) :=
        modifyPeer fun _ ↦ rfl
      exact ⟨hmodify.connections, hmodify.active, hmodify.told⟩
    · obtain rfl := Option.some.inj h
      exact endConnection
  | disconnected =>
    obtain rfl := Option.some.inj h
    exact endConnection
  | closed =>
    obtain rfl := Option.some.inj h
    exact onConnectionClosed
  | synchronizing | needsSyncItems =>
    obtain rfl := Option.some.inj h
    exact modifyPeer fun _ ↦ rfl

/-- **A step forgets only what is old.** -/
theorem step {e : InventoryEvent} (h : s.step (now, e) = some s') : Remembers now s s' := by
  cases e with
  | connected =>
    obtain rfl := Option.some.inj h
    exact movePeerToActiveList
  | fromPeer i e =>
    rw [InventoryNode.step] at h
    split_ifs at h
    exact peerStep h
  | handled n handling =>
    obtain ⟨x, -, rfl⟩ := Option.map_eq_some_iff.1 h
    have htaken : Remembers now s { s with inProgress := s.inProgress.eraseIdx n } :=
      of_eq rfl (fun _ hi ↦ hi) rfl
    exact htaken.trans (handled x handling)
  | broadcast | pruneFailed | blockInterval =>
    obtain rfl := Option.some.inj h
    exact of_eq rfl (fun _ hi ↦ hi) rfl
  | fetchItems =>
    obtain rfl := Option.some.inj h
    exact fetchItems
  | advertiseInventory =>
    obtain rfl := Option.some.inj h
    exact advertiseInventory

end Remembers

/-! ## Every run -/

/-- Active connections have been numbered. -/
def Numbered (s : InventoryNode) : Prop := ∀ i ∈ s.activeConnections, i < s.connections

theorem numbered_applied {es : List (ℕ × InventoryEvent)} (h : applied step start es = some s) :
    s.Numbered := by
  have hkeeps : ∀ (t : InventoryNode) e t', t.Numbered → t.step e = some t' → t'.Numbered := by
    intro t e t' ht hstep i hi
    have hremembers := Remembers.step hstep
    exact (hremembers.active i hi).elim
      (fun hold ↦ (ht i hold).trans_le hremembers.connections) id
  exact applied_inv hkeeps (fun i hi ↦ by simp [start] at hi) h

/-- What a round has told a peer is remembered after it. -/
theorem told_after (h : (i, x) ∈ s.advertisements) :
    (x, toSeconds now) ∈ (s.advertiseInventory now).told i := by
  obtain ⟨j, hj, hmem⟩ := List.mem_flatMap.1 h
  obtain ⟨y, hy, heq⟩ := List.mem_map.1 hmem
  obtain ⟨rfl, rfl⟩ := Prod.mk.inj heq
  have hnew : ∀ (t : TimestampedItems) (ys : List ItemId), y ∈ ys → t.has y = false →
      (y, toSeconds now) ∈ ys.foldl (fun t x ↦ t.add x (toSeconds now)) t := by
    intro t ys hys ht
    induction ys generalizing t with
    | nil => simp at hys
    | cons z ys ih =>
      rcases eq_or_ne y z with rfl | hne
      · have hadd : (y, toSeconds now) ∈ t.add y (toSeconds now) := by
          simp [TimestampedItems.add, ht]
        exact Remembers.mem_foldl_add hadd _ _
      · refine ih _ ((List.mem_cons.1 hys).resolve_left hne) ?_
        change (t.add z (toSeconds now)).has y = false
        unfold TimestampedItems.add
        split_ifs
        · exact ht
        · simp only [TimestampedItems.has, List.any_append, Bool.or_eq_false_iff] at ht ⊢
          exact ⟨ht, by simp [hne.symm]⟩
  have hnot : (s.peer j).inventoryAdvertisedToPeer.has y = false := by
    rw [itemsToAdvertise] at hy
    split_ifs at hy
    · simp at hy
    · have := (List.mem_filter.1 hy).2
      simp only [Bool.and_eq_true, Bool.not_eq_true'] at this
      exact this.1
  rw [told, advertiseInventory, modifyActive]
  dsimp only
  rw [if_pos hj]
  refine Remembers.mem_clearOldInventory (hnew _ _ hy hnot) ?_
  exact Nat.div_le_div_right (Nat.sub_le _ _)

/-- What has been told is remembered until it is old. -/
theorem remembered_applied {es : List (ℕ × InventoryEvent)} {e : ItemId × ℕ}
    (h : applied step s es = some s') (hi : i < s.connections) (he : e ∈ s.told i)
    (hold : ∀ f ∈ es, oldest f.1 ≤ e.2) : e ∈ s'.told i := by
  induction es generalizing s with
  | nil =>
    obtain rfl := Option.some.inj h
    exact he
  | cons f es ih =>
    obtain ⟨s₁, hstep, hrest⟩ := applied_cons.1 h
    have hremembers := Remembers.step hstep
    exact ih hrest (hi.trans_le hremembers.connections)
      (hremembers.told i hi e he (hold f List.mem_cons_self))
      fun g hg ↦ hold g (List.mem_cons_of_mem _ hg)

/-- **No peer is told twice**: two rounds that tell a peer of an item are more than two minutes
apart, whatever happens before and between them; the clock does not go back. -/
theorem not_told_again (es es' : List (ℕ × InventoryEvent)) (s s' : InventoryNode) (t t' : ℕ)
    (i : PeerId) (x : ItemId) (h : applied step start es = some s)
    (h' : applied step (s.advertiseInventory t) es' = some s')
    (hclock : ∀ e ∈ es', e.1 ≤ t') (hx : (i, x) ∈ s.advertisements)
    (hx' : (i, x) ∈ s'.advertisements) : t + minutes maxInventorySizeInMinutes < t' := by
  by_contra hsoon
  rw [not_lt] at hsoon
  have hactive : i ∈ s.activeConnections := by
    obtain ⟨j, hj, hmem⟩ := List.mem_flatMap.1 hx
    obtain ⟨y, -, heq⟩ := List.mem_map.1 hmem
    exact (Prod.mk.inj heq).1 ▸ hj
  have hremembered : (x, toSeconds t) ∈ s'.told i := by
    refine remembered_applied h' (numbered_applied h i hactive) (told_after hx) fun e he ↦ ?_
    refine Nat.div_le_div_right ?_
    have := hclock e he
    omega
  obtain ⟨j, -, hmem⟩ := List.mem_flatMap.1 hx'
  obtain ⟨y, hy, heq⟩ := List.mem_map.1 hmem
  obtain ⟨rfl, rfl⟩ := Prod.mk.inj heq
  rw [itemsToAdvertise] at hy
  split_ifs at hy
  · simp at hy
  · have hnot : (s'.peer j).inventoryAdvertisedToPeer.has y = false := by
      have := (List.mem_filter.1 hy).2
      simp only [Bool.and_eq_true, Bool.not_eq_true'] at this
      exact this.1
    rw [TimestampedItems.has, List.any_eq_false] at hnot
    exact hnot _ hremembered (by simp)

/-- A client broadcasts an item of which one peer has been told. -/
def broadcastOnce : List (ℕ × InventoryEvent) :=
  [(0, .connected), (0, .fromPeer 0 (.needsSyncItems false)),
    (0, .broadcast ⟨trxMessageType, ⟨7, 0⟩⟩)]

/-- It does so again, once it has been forgotten. -/
def broadcastAgain : List (ℕ × InventoryEvent) :=
  [(130000000, .advertiseInventory), (130000001, .broadcast ⟨trxMessageType, ⟨7, 0⟩⟩)]

/-- The peer is told twice. -/
theorem not_told_again_broadcastAgain :
    ∃ s s', applied step start broadcastOnce = some s ∧
      applied step (s.advertiseInventory 500000) broadcastAgain = some s' ∧
      (0, ⟨trxMessageType, ⟨7, 0⟩⟩) ∈ s.advertisements ∧
      (0, ⟨trxMessageType, ⟨7, 0⟩⟩) ∈ s'.advertisements ∧
      500000 + minutes maxInventorySizeInMinutes < 130000001 := by
  have hs : (applied step start broadcastOnce).isSome := by decide +kernel
  obtain ⟨s, hs⟩ := Option.isSome_iff_exists.1 hs
  have hs' : (applied step (s.advertiseInventory 500000) broadcastAgain).isSome := by
    obtain rfl := Option.some.inj hs
    decide +kernel
  obtain ⟨s', hs'⟩ := Option.isSome_iff_exists.1 hs'
  have hx : (0, ⟨trxMessageType, ⟨7, 0⟩⟩) ∈ s.advertisements := by
    obtain rfl := Option.some.inj hs
    decide +kernel
  have hx' : (0, ⟨trxMessageType, ⟨7, 0⟩⟩) ∈ s'.advertisements := by
    obtain rfl := Option.some.inj hs
    obtain rfl := Option.some.inj hs'
    decide +kernel
  exact ⟨s, s', hs, hs', hx, hx', not_told_again broadcastOnce broadcastAgain s s' 500000 130000001
    0 _ hs hs' (by decide) hx hx'⟩

end InventoryNode

end Graphene
