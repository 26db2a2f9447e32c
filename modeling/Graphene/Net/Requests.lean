import Graphene.Net.Inventory

/-!
# No item is requested twice

What a node wants is either to be fetched or has been requested from one peer.  This file proves it
of every run, as long as no peer that is being disconnected gives back an item that has since been
requested from another.

* `InventoryNode.Disciplined` — the invariant: one peer at most has been asked for an item, which
  then is not to be fetched, and none has been asked for too many.
* `InventoryNode.Shrinks` — what only forgets items and connections keeps it.
* `InventoryNode.FetchRound.Ok`, `InventoryNode.FetchRound.Ok.run` — so does the loop that requests
  them, as it goes.
* `InventoryNode.requests_disciplined` — it holds after every run.
-/

set_option autoImplicit false

namespace Graphene

namespace InventoryNode

open Transitions

variable {s s' : InventoryNode} {now : ℕ} {i j : PeerId} {x : ItemId}

/-! ## The invariant -/

/-- One peer at most has been asked for an item, which then is not to be fetched. -/
structure Disciplined (s : InventoryNode) : Prop where
  /-- A connection is active once. -/
  active_nodup : s.activeConnections.Nodup
  /-- It has been numbered. -/
  active_lt : ∀ i ∈ s.activeConnections, i < s.connections
  /-- An item is to be fetched once. -/
  fetch_nodup : (s.itemsToFetch.map PrioritizedItem.item).Nodup
  /-- No peer has been asked for too many items. -/
  bounded : ∀ i ∈ s.activeConnections,
    (s.peer i).itemsRequestedFromPeer.length ≤ maxItemsPerPeer
  /-- No two peers have been asked for the same item. -/
  once : ∀ i ∈ s.activeConnections, ∀ j ∈ s.activeConnections,
    ∀ x ∈ (s.peer i).itemsRequestedFromPeer, x ∈ (s.peer j).itemsRequestedFromPeer → i = j
  /-- An item that has been requested is not to be fetched. -/
  separate : ∀ i ∈ s.activeConnections, ∀ x ∈ (s.peer i).itemsRequestedFromPeer,
    x ∉ s.itemsToFetch.map PrioritizedItem.item

theorem isRequested_iff : s.isRequested x = true ↔
    ∃ i ∈ s.activeConnections, x ∈ (s.peer i).itemsRequestedFromPeer := by
  simp [isRequested]

theorem isToBeFetched_iff :
    s.isToBeFetched x = true ↔ x ∈ s.itemsToFetch.map PrioritizedItem.item := by
  simp [isToBeFetched]

/-- Only connections and items are forgotten. -/
structure Shrinks (s s' : InventoryNode) : Prop where
  /-- No connection becomes active. -/
  active : s'.activeConnections.Sublist s.activeConnections
  /-- None is forgotten in their count. -/
  connections : s.connections ≤ s'.connections
  /-- No item has to be fetched. -/
  fetch : (s'.itemsToFetch.map PrioritizedItem.item).Sublist
    (s.itemsToFetch.map PrioritizedItem.item)
  /-- None is requested. -/
  requested : ∀ i ∈ s'.activeConnections,
    (s'.peer i).itemsRequestedFromPeer.Sublist (s.peer i).itemsRequestedFromPeer

theorem Shrinks.refl (s : InventoryNode) : Shrinks s s :=
  ⟨.refl _, le_rfl, .refl _, fun _ _ ↦ .refl _⟩

theorem Shrinks.trans {s₁ : InventoryNode} (h : Shrinks s s₁) (h' : Shrinks s₁ s') :
    Shrinks s s' where
  active := h'.active.trans h.active
  connections := h.connections.trans h'.connections
  fetch := h'.fetch.trans h.fetch
  requested i hi := (h'.requested i hi).trans (h.requested i (h'.active.subset hi))

theorem Disciplined.shrink (hs : s.Disciplined) (h : Shrinks s s') : s'.Disciplined where
  active_nodup := h.active.nodup hs.active_nodup
  active_lt i hi := (hs.active_lt i (h.active.subset hi)).trans_le h.connections
  fetch_nodup := h.fetch.nodup hs.fetch_nodup
  bounded i hi := (h.requested i hi).length_le.trans (hs.bounded i (h.active.subset hi))
  once i hi j hj x hx hx' := hs.once i (h.active.subset hi) j (h.active.subset hj) x
    ((h.requested i hi).subset hx) ((h.requested j hj).subset hx')
  separate i hi x hx hfetch := hs.separate i (h.active.subset hi) x
    ((h.requested i hi).subset hx) (h.fetch.subset hfetch)

/-! ## What shrinks -/

theorem shrinks_modifyPeer {f : InventoryPeer → InventoryPeer}
    (h : (f (s.peer i)).itemsRequestedFromPeer.Sublist (s.peer i).itemsRequestedFromPeer) :
    Shrinks s (s.modifyPeer i f) := by
  refine ⟨.refl _, le_rfl, .refl _, fun j _ ↦ ?_⟩
  rcases eq_or_ne j i with rfl | hne
  · simpa [modifyPeer] using h
  · simp [modifyPeer, Function.update_of_ne hne]

theorem shrinks_modifyActive {f : InventoryPeer → InventoryPeer}
    (h : ∀ p, (f p).itemsRequestedFromPeer = p.itemsRequestedFromPeer) :
    Shrinks s (s.modifyActive f) := by
  refine ⟨.refl _, le_rfl, .refl _, fun j hj ↦ ?_⟩
  have hj' : j ∈ s.activeConnections := hj
  simp [modifyActive, hj', h]

theorem shrinks_dropConnection (s : InventoryNode) (i : PeerId) :
    Shrinks s (s.dropConnection i) :=
  ⟨List.filter_sublist, le_rfl, .refl _, fun _ _ ↦ .refl _⟩

theorem shrinks_endConnection (s : InventoryNode) (i : PeerId) : Shrinks s (s.endConnection i) :=
  ⟨List.filter_sublist, le_rfl, .refl _, fun _ _ ↦ .refl _⟩

theorem shrinks_endConnections (s : InventoryNode) (is : List PeerId) :
    Shrinks s (is.foldl endConnection s) := by
  induction is generalizing s with
  | nil => exact .refl s
  | cons i is ih => exact (shrinks_endConnection s i).trans (ih _)

theorem shrinks_received (s : InventoryNode) (i : PeerId) (x : ItemId) :
    Shrinks s (s.received i x) := by
  have h : Shrinks s (s.modifyPeer i fun p ↦
      { p with itemsRequestedFromPeer := p.itemsRequestedFromPeer.filter (· ≠ x) }) :=
    shrinks_modifyPeer List.filter_sublist
  exact ⟨h.active, h.connections, h.fetch, h.requested⟩

theorem shrinks_handled (s : InventoryNode) (now : ℕ) (x : HandledItem) (handling : Handling) :
    Shrinks s (s.handled now x handling) := by
  rw [handled]
  split_ifs with htype
  · cases handling with
    | accepted containedTransactions peersToDisconnect =>
      refine Shrinks.trans ?_ (shrinks_endConnections _ _)
      have hfetch : Shrinks s { s with
          itemsToFetch := s.itemsToFetch.filter fun y ↦
            y.item ∉ containedTransactions.map (fun id ↦ (⟨trxMessageType, id⟩ : ItemId)) } :=
        ⟨.refl _, le_rfl, List.filter_sublist.map _, fun _ _ ↦ .refl _⟩
      refine hfetch.trans ?_
      obtain ⟨hactive, hconnections, hitems, hrequested⟩ := shrinks_modifyActive (s := { s with
          itemsToFetch := s.itemsToFetch.filter fun y ↦
            y.item ∉ containedTransactions.map (fun id ↦ (⟨trxMessageType, id⟩ : ItemId)) })
        (f := fun p ↦ p.clearOldInventory now) fun _ ↦ rfl
      exact ⟨hactive, hconnections, hitems, hrequested⟩
    | rejected peersToDisconnect => exact shrinks_endConnections _ _
    | unlinkable => exact .refl s
  · cases handling with
    | accepted => exact ⟨.refl _, le_rfl, .refl _, fun _ _ ↦ .refl _⟩
    | rejected | unlinkable => exact ⟨.refl _, le_rfl, .refl _, fun _ _ ↦ .refl _⟩

/-! ## What is to be fetched -/

theorem insertSorted_perm (x : PrioritizedItem) (xs : List PrioritizedItem) :
    (insertSorted x xs).Perm (x :: xs) := by
  induction xs with
  | nil => exact .refl _
  | cons y ys ih =>
    rw [insertSorted]
    split
    · exact .refl _
    · exact (ih.cons y).trans (.swap x y ys)

/-- An item that has not been requested can be put among those to be fetched. -/
theorem Disciplined.insertItemToFetch (hs : s.Disciplined) (hx : s.isRequested x = false) :
    (s.insertItemToFetch now x).Disciplined := by
  rw [InventoryNode.insertItemToFetch]
  split_ifs with hpresent
  · exact ⟨hs.active_nodup, hs.active_lt, hs.fetch_nodup, hs.bounded, hs.once, hs.separate⟩
  · have hnew : x ∉ s.itemsToFetch.map PrioritizedItem.item := by
      rw [← isToBeFetched_iff]
      rw [Bool.or_eq_true, not_or] at hpresent
      exact hpresent.1
    have hperm := (insertSorted_perm ⟨x, s.itemsToFetchSequenceCounter, now⟩ s.itemsToFetch).map
      PrioritizedItem.item
    refine ⟨hs.active_nodup, hs.active_lt, ?_, hs.bounded, hs.once, fun i hi y hy hfetch ↦ ?_⟩
    · exact hperm.nodup_iff.2 (List.nodup_cons.2 ⟨hnew, hs.fetch_nodup⟩)
    · rcases List.mem_cons.1 (hperm.mem_iff.1 hfetch) with rfl | hold
      · exact Bool.eq_false_iff.1 hx (isRequested_iff.2 ⟨i, hi, hy⟩)
      · exact hs.separate i hi y hy hold

theorem Disciplined.heardAgain (hs : s.Disciplined) (now : ℕ) (x : ItemId) :
    (s.heardAgain now x).Disciplined := by
  have hitems : (s.heardAgain now x).itemsToFetch.map PrioritizedItem.item =
      s.itemsToFetch.map PrioritizedItem.item := by
    rw [InventoryNode.heardAgain, List.map_map]
    refine List.map_congr_left fun y _ ↦ ?_
    rw [Function.comp_apply]
    split <;> rfl
  exact hs.shrink ⟨.refl _, le_rfl, hitems ▸ .refl _, fun _ _ ↦ .refl _⟩

theorem isRequested_of_requested_eq {f : InventoryPeer → InventoryPeer}
    (h : (f (s.peer i)).itemsRequestedFromPeer = (s.peer i).itemsRequestedFromPeer) (x : ItemId) :
    (s.modifyPeer i f).isRequested x = s.isRequested x := by
  rw [Bool.eq_iff_iff, isRequested_iff, isRequested_iff]
  refine exists_congr fun j ↦ and_congr_right fun _ ↦ ?_
  rcases eq_or_ne j i with rfl | hne
  · simp [modifyPeer, h]
  · simp [modifyPeer, Function.update_of_ne hne]

theorem Disciplined.onItemHash (hs : s.Disciplined) (h : s.onItemHash now i x = some s') :
    s'.Disciplined := by
  have hoffered : (s.modifyPeer i fun p ↦ { p with
      inventoryPeerAdvertisedToUs := p.inventoryPeerAdvertisedToUs.add x (toSeconds now)
      }).Disciplined := hs.shrink (shrinks_modifyPeer (.refl _))
  rw [InventoryNode.onItemHash] at h
  split at h
  case isTrue =>
    obtain rfl := Option.some.inj h
    exact hs
  case isFalse =>
    split at h
    case isTrue => cases h
    case isFalse =>
      dsimp only at h
      split at h
      case isTrue =>
        obtain rfl := Option.some.inj h
        exact hoffered
      case isFalse hnew =>
        split at h
        case isTrue =>
          obtain rfl := Option.some.inj h
          exact hoffered.heardAgain now x
        case isFalse =>
          obtain rfl := Option.some.inj h
          rw [Bool.or_eq_true, not_or, Bool.not_eq_true] at hnew
          refine hoffered.insertItemToFetch ?_
          rw [isRequested_of_requested_eq rfl]
          exact hnew.1

theorem Disciplined.onItemHashes (hs : s.Disciplined) (xs : List ItemId) :
    (onItemHashes now i xs s).Disciplined := by
  induction xs generalizing s with
  | nil => exact hs
  | cons x xs ih =>
    rw [InventoryNode.onItemHashes]
    split
    · exact hs
    · exact ih (hs.onItemHash ‹_›)

theorem Disciplined.onItemIdsInventory (hs : s.Disciplined) (itemType : UInt32)
    (hashes : List ItemHash) : (s.onItemIdsInventory now i itemType hashes).Disciplined :=
  (hs.shrink (shrinks_modifyPeer (.refl _))).onItemHashes _

/-! ## What is given back -/

/-- An item is given back that no active peer has been asked for, but for the one that gives it
back. -/
theorem Disciplined.onItemNotAvailable (hs : s.Disciplined)
    (hback : i ∉ s.activeConnections → x ∈ (s.peer i).itemsRequestedFromPeer →
      s.isRequested x = false) : (s.onItemNotAvailable now i x).Disciplined := by
  rw [InventoryNode.onItemNotAvailable]
  split_ifs with hx
  · have hrest := hs.shrink (shrinks_modifyPeer (s := s) (i := i) (f := fun p ↦
      { p with
        itemsRequestedFromPeer := p.itemsRequestedFromPeer.filter (· ≠ x)
        inventoryPeerAdvertisedToUs := p.inventoryPeerAdvertisedToUs.filter (·.1 ≠ x) })
      List.filter_sublist)
    dsimp only
    split_ifs
    · refine hrest.insertItemToFetch (Bool.eq_false_iff.2 fun hrequested ↦ ?_)
      obtain ⟨j, hj, hxj⟩ := isRequested_iff.1 hrequested
      rcases eq_or_ne j i with rfl | hne
      · simp [modifyPeer] at hxj
      · have hxj' : x ∈ (s.peer j).itemsRequestedFromPeer := by
          simpa [modifyPeer, Function.update_of_ne hne] using hxj
        by_cases hi : i ∈ s.activeConnections
        · exact hne (hs.once j hj i hi x hxj' hx)
        · exact Bool.eq_false_iff.1 (hback hi hx) (isRequested_iff.2 ⟨j, hj, hxj'⟩)
    · exact hrest
  · exact hs

theorem Disciplined.reschedule (hs : s.Disciplined) (xs : List ItemId)
    (hback : ∀ x ∈ xs, s.isRequested x = false) : (reschedule now xs s).Disciplined := by
  induction xs generalizing s with
  | nil => exact hs
  | cons x xs ih =>
    rw [InventoryNode.reschedule]
    have hrest : ∀ y ∈ xs, s.isRequested y = false := fun y hy ↦
      hback y (List.mem_cons_of_mem x hy)
    split_ifs
    · exact ih (hs.insertItemToFetch (hback x List.mem_cons_self)) hrest
    · exact ih hs hrest

theorem Disciplined.onConnectionClosed (hs : s.Disciplined)
    (hback : i ∉ s.activeConnections → ∀ x ∈ (s.peer i).itemsRequestedFromPeer,
      s.isRequested x = false) : (s.onConnectionClosed now i).Disciplined := by
  refine (hs.shrink (shrinks_dropConnection s i)).reschedule _ fun x hx ↦
    Bool.eq_false_iff.2 fun hrequested ↦ ?_
  obtain ⟨j, hj, hxj⟩ := isRequested_iff.1 hrequested
  obtain ⟨hj', hne⟩ := List.mem_filter.1 hj
  by_cases hi : i ∈ s.activeConnections
  · exact of_decide_eq_true hne (hs.once j hj' i hi x hxj hx)
  · exact Bool.eq_false_iff.1 (hback hi x hx) (isRequested_iff.2 ⟨j, hj', hxj⟩)

theorem Disciplined.movePeerToActiveList (hs : s.Disciplined) :
    s.movePeerToActiveList.Disciplined := by
  have hold : ∀ i ∈ s.activeConnections, s.movePeerToActiveList.peer i = s.peer i := fun i hi ↦
    Function.update_of_ne (hs.active_lt i hi).ne _ _
  have hnew : (s.movePeerToActiveList.peer s.connections).itemsRequestedFromPeer = [] := by
    simp [InventoryNode.movePeerToActiveList]
  have hmem : ∀ i ∈ s.movePeerToActiveList.activeConnections,
      i ∈ s.activeConnections ∨ i = s.connections := fun i hi ↦ by
    simpa [InventoryNode.movePeerToActiveList] using hi
  refine ⟨?_, fun i hi ↦ ?_, hs.fetch_nodup, fun i hi ↦ ?_, fun i hi j hj x hx hx' ↦ ?_,
    fun i hi x hx ↦ ?_⟩
  · refine List.nodup_append.2 ⟨hs.active_nodup, List.nodup_singleton _, fun i hi j hj ↦ ?_⟩
    rw [List.mem_singleton.1 hj]
    exact (hs.active_lt i hi).ne
  · show i < s.connections + 1
    rcases hmem i hi with hi | rfl
    · exact (hs.active_lt i hi).trans (Nat.lt_succ_self _)
    · exact Nat.lt_succ_self _
  · rcases hmem i hi with hi | rfl
    · rw [hold i hi]
      exact hs.bounded i hi
    · simp [hnew]
  · rcases hmem i hi with hi | rfl
    · rcases hmem j hj with hj | rfl
      · rw [hold i hi] at hx
        rw [hold j hj] at hx'
        exact hs.once i hi j hj x hx hx'
      · simp [hnew] at hx'
    · simp [hnew] at hx
  · rcases hmem i hi with hi | rfl
    · rw [hold i hi] at hx
      exact hs.separate i hi x hx
    · simp [hnew] at hx

/-! ## What is requested -/

namespace FetchRound

variable {f : FetchRound} {active : List PeerId} {wanted wanted' : ItemId → Prop}

theorem insertByCount_perm (e : PeerId × List ItemId) (es : List (PeerId × List ItemId)) :
    (insertByCount e es).Perm (e :: es) := by
  induction es with
  | nil => exact .refl _
  | cons e' es ih =>
    rw [insertByCount]
    split
    · exact .refl _
    · exact (ih.cons e').trans (.swap e e' es)

/-- The invariant of the loop; `wanted` are the items that have not been requested. -/
structure Ok (active : List PeerId) (wanted : ItemId → Prop) (f : FetchRound) : Prop where
  /-- A peer that was idle is listed once. -/
  nodup : (f.itemsByPeer.map Prod.fst).Nodup
  /-- It is active, and has been asked for just what it is listed with. -/
  listed : ∀ e ∈ f.itemsByPeer, e.1 ∈ active ∧ (f.peer e.1).itemsRequestedFromPeer = e.2
  /-- No peer has been asked for too many items. -/
  bounded : ∀ i ∈ active, (f.peer i).itemsRequestedFromPeer.length ≤ maxItemsPerPeer
  /-- No two peers have been asked for the same item. -/
  once : ∀ i ∈ active, ∀ j ∈ active, ∀ x ∈ (f.peer i).itemsRequestedFromPeer,
    x ∈ (f.peer j).itemsRequestedFromPeer → i = j
  /-- An item that is wanted has not been requested. -/
  separate : ∀ i ∈ active, ∀ x ∈ (f.peer i).itemsRequestedFromPeer, ¬ wanted x

theorem Ok.mono (hf : f.Ok active wanted) (h : ∀ x, wanted' x → wanted x) : f.Ok active wanted' :=
  ⟨hf.nodup, hf.listed, hf.bounded, hf.once, fun i hi x hx hx' ↦ hf.separate i hi x hx (h x hx')⟩

/-- The peer that is found is listed, with few items. -/
theorem findPeer_eq_some (h : f.findPeer now x = some i) :
    ∃ items, (i, items) ∈ f.itemsByPeer ∧ items.length < maxItemsPerPeer := by
  obtain ⟨⟨j, items⟩, hfind, rfl⟩ := Option.map_eq_some_iff.1 h
  have hcond := List.find?_some hfind
  simp only [Bool.and_eq_true, decide_eq_true_eq] at hcond
  exact ⟨items, List.mem_of_find?_eq_some hfind, hcond.1.1⟩

/-- **One more request** keeps it: the item is not wanted any more. -/
theorem Ok.request (hf : f.Ok active wanted) (hx : wanted x) (h : f.findPeer now x = some i) :
    (f.request i x).Ok active fun y ↦ wanted y ∧ y ≠ x := by
  obtain ⟨items, hmem, hfew⟩ := findPeer_eq_some h
  obtain ⟨hi, hitems⟩ := hf.listed _ hmem
  have hself : ((f.request i x).peer i).itemsRequestedFromPeer = items ++ [x] := by
    simp [FetchRound.request, hitems]
  have hother : ∀ j, j ≠ i → (f.request i x).peer j = f.peer j := fun j hne ↦
    Function.update_of_ne hne _ _
  obtain ⟨e, he⟩ : ∃ e, f.itemsByPeer.find? (·.1 = i) = some e := by
    rw [← Option.isSome_iff_exists, List.find?_isSome]
    exact ⟨_, hmem, decide_eq_true rfl⟩
  have heq : e.2 = items := by
    have hei : e.1 = i := by simpa using List.find?_some he
    rw [← (hf.listed e (List.mem_of_find?_eq_some he)).2, hei, hitems]
  have hperm : (f.request i x).itemsByPeer.Perm
      ((i, items ++ [x]) :: f.itemsByPeer.filter (·.1 ≠ i)) := by
    rw [FetchRound.request, he]
    dsimp only
    rw [heq]
    exact insertByCount_perm _ _
  refine ⟨?_, fun e he ↦ ?_, fun j hj ↦ ?_, fun j hj k hk y hy hy' ↦ ?_, fun j hj y hy ↦ ?_⟩
  · rw [(hperm.map Prod.fst).nodup_iff, List.map_cons, List.nodup_cons]
    refine ⟨fun hin ↦ ?_, (List.filter_sublist.map Prod.fst).nodup hf.nodup⟩
    obtain ⟨e, he, hei⟩ := List.mem_map.1 hin
    exact of_decide_eq_true (List.mem_filter.1 he).2 hei
  · rcases List.mem_cons.1 (hperm.mem_iff.1 he) with rfl | he
    · exact ⟨hi, hself⟩
    · obtain ⟨hin, hne⟩ := List.mem_filter.1 he
      rw [hother e.1 (of_decide_eq_true hne)]
      exact hf.listed e hin
  · rcases eq_or_ne j i with rfl | hne
    · rw [hself, List.length_append]
      exact hfew
    · rw [hother j hne]
      exact hf.bounded j hj
  · -- the item was wanted, so that nobody else has been asked for it
    have hnew : ∀ j ∈ active, ∀ y ∈ ((f.request i x).peer j).itemsRequestedFromPeer,
        y ∈ (f.peer j).itemsRequestedFromPeer ∨ (j = i ∧ y = x) := by
      intro j hj y hy
      rcases eq_or_ne j i with rfl | hne
      · rw [hself, List.mem_append, List.mem_singleton] at hy
        rw [hitems]
        exact hy.imp id fun hyx ↦ ⟨rfl, hyx⟩
      · rw [hother j hne] at hy
        exact .inl hy
    rcases hnew j hj y hy with hold | ⟨rfl, rfl⟩
    · rcases hnew k hk y hy' with hold' | ⟨rfl, rfl⟩
      · exact hf.once j hj k hk y hold hold'
      · exact absurd hx (hf.separate j hj y hold)
    · rcases hnew k hk y hy' with hold' | ⟨rfl, -⟩
      · exact absurd hx (hf.separate k hk y hold')
      · rfl
  · rintro ⟨hwanted, hne⟩
    rcases eq_or_ne j i with rfl | hji
    · rw [hself, List.mem_append, List.mem_singleton] at hy
      rcases hy with hy | hy
      · exact hf.separate j hj y (hitems ▸ hy) hwanted
      · exact hne hy
    · rw [hother j hji] at hy
      exact hf.separate j hj y hy hwanted

/-- **The loop keeps it**: what is left, and what was passed over before (`kept`), is wanted. -/
theorem Ok.run (now oldest : ℕ) (kept : ItemId → Prop) (xs : List PrioritizedItem)
    (hnodup : (xs.map PrioritizedItem.item).Nodup)
    (hkept : ∀ x ∈ xs.map PrioritizedItem.item, ¬ kept x)
    (hf : f.Ok active fun y ↦ kept y ∨ y ∈ xs.map PrioritizedItem.item) :
    ((run now oldest xs f).1.map PrioritizedItem.item).Sublist (xs.map PrioritizedItem.item) ∧
      (run now oldest xs f).2.Ok active fun y ↦
        kept y ∨ y ∈ (run now oldest xs f).1.map PrioritizedItem.item := by
  induction xs generalizing f kept with
  | nil => exact ⟨.refl _, hf⟩
  | cons x xs ih =>
    rw [List.map_cons, List.nodup_cons] at hnodup
    rw [List.map_cons] at hkept hf
    have hrest : ∀ y ∈ xs.map PrioritizedItem.item, ¬ kept y := fun y hy ↦
      hkept y (List.mem_cons_of_mem _ hy)
    rw [FetchRound.run]
    split_ifs with hold
    · obtain ⟨hsub, hok⟩ := ih kept hnodup.2 hrest
        (hf.mono fun y hy ↦ hy.imp id (List.mem_cons_of_mem _))
      exact ⟨hsub.cons _, hok⟩
    · split
      next i hfind =>
        obtain ⟨hsub, hok⟩ := ih kept hnodup.2 hrest
          ((hf.request (.inr List.mem_cons_self) hfind).mono fun y hy ↦ by
            refine ⟨hy.imp id (List.mem_cons_of_mem _), ?_⟩
            rintro rfl
            rcases hy with hy | hy
            · exact hkept _ List.mem_cons_self hy
            · exact hnodup.1 hy)
        exact ⟨hsub.cons _, hok⟩
      next =>
        obtain ⟨hsub, hok⟩ := ih (fun y ↦ kept y ∨ y = x.item) hnodup.2
          (fun y hy hy' ↦ hy'.elim (hrest y hy) fun heq ↦ hnodup.1 (heq ▸ hy))
          (hf.mono fun y hy ↦ by
            rw [List.mem_cons]
            tauto)
        refine ⟨hsub.cons_cons _, hok.mono fun y hy ↦ ?_⟩
        rw [List.map_cons, List.mem_cons] at hy
        tauto

end FetchRound

theorem Disciplined.startRound (hs : s.Disciplined) :
    s.startRound.Ok s.activeConnections fun y ↦ y ∈ s.itemsToFetch.map PrioritizedItem.item := by
  refine ⟨?_, fun e he ↦ ?_, hs.bounded, hs.once, hs.separate⟩
  · rw [InventoryNode.startRound, List.map_map]
    exact List.Nodup.map (fun _ _ h ↦ h) (hs.active_nodup.filter _)
  · obtain ⟨i, hi, rfl⟩ := List.mem_map.1 he
    obtain ⟨hactive, hidle⟩ := List.mem_filter.1 hi
    rw [InventoryPeer.idle, Bool.and_eq_true] at hidle
    exact ⟨hactive, List.isEmpty_iff.1 hidle.1⟩

theorem Disciplined.fetchItems (hs : s.Disciplined) : (s.fetchItems now).Disciplined := by
  obtain ⟨hsub, hok⟩ := FetchRound.Ok.run now (s.oldestTimestampToFetch now)
    (fun _ ↦ False) s.itemsToFetch hs.fetch_nodup (fun _ _ h ↦ h)
    (hs.startRound.mono fun y hy ↦ hy.resolve_left id)
  exact ⟨hs.active_nodup, hs.active_lt, hsub.nodup hs.fetch_nodup, hok.bounded, hok.once,
    fun i hi x hx hfetch ↦ hok.separate i hi x hx (.inr hfetch)⟩

/-! ## Every run -/

/-- A peer that is not active any more gives nothing back that has been requested from another. -/
def GivesBack (s : InventoryNode) : ℕ × InventoryEvent → Prop
  | (_, .fromPeer i (.itemNotAvailable x)) => i ∉ s.activeConnections →
    x ∈ (s.peer i).itemsRequestedFromPeer → s.isRequested x = false
  | (_, .fromPeer i .closed) => i ∉ s.activeConnections →
    ∀ x ∈ (s.peer i).itemsRequestedFromPeer, s.isRequested x = false
  | _ => True

instance (s : InventoryNode) : ∀ e, Decidable (s.GivesBack e)
  | (_, .fromPeer _ (.itemNotAvailable _)) => inferInstanceAs (Decidable (_ → _ → _))
  | (_, .fromPeer _ .closed) => inferInstanceAs (Decidable (_ → ∀ _ ∈ _, _))
  | (_, .fromPeer _ (.itemIdsInventory ..)) | (_, .fromPeer _ (.received _))
  | (_, .fromPeer _ .disconnected) | (_, .fromPeer _ (.synchronizing _))
  | (_, .fromPeer _ (.needsSyncItems _)) | (_, .connected) | (_, .handled ..) | (_, .broadcast _)
  | (_, .fetchItems) | (_, .advertiseInventory) | (_, .pruneFailed) | (_, .blockInterval _) =>
    inferInstanceAs (Decidable True)

theorem Disciplined.peerStep (hs : s.Disciplined) {e : PeerEvent}
    (hback : s.GivesBack (now, .fromPeer i e)) (h : s.peerStep now i e = some s') :
    s'.Disciplined := by
  cases e with
  | itemIdsInventory =>
    obtain rfl := Option.some.inj h
    exact hs.onItemIdsInventory _ _
  | itemNotAvailable =>
    obtain rfl := Option.some.inj h
    exact hs.onItemNotAvailable hback
  | received x =>
    rw [InventoryNode.peerStep] at h
    split_ifs at h
    · obtain rfl := Option.some.inj h
      exact hs.shrink (shrinks_received s i x)
    · obtain rfl := Option.some.inj h
      exact hs.shrink (shrinks_endConnection s i)
  | disconnected =>
    obtain rfl := Option.some.inj h
    exact hs.shrink (shrinks_endConnection s i)
  | closed =>
    obtain rfl := Option.some.inj h
    exact hs.onConnectionClosed hback
  | synchronizing | needsSyncItems =>
    obtain rfl := Option.some.inj h
    exact hs.shrink (shrinks_modifyPeer (.refl _))

theorem Disciplined.step (hs : s.Disciplined) {e : ℕ × InventoryEvent} (hback : s.GivesBack e)
    (h : s.step e = some s') : s'.Disciplined := by
  obtain ⟨now, e⟩ := e
  cases e with
  | connected =>
    obtain rfl := Option.some.inj h
    exact hs.movePeerToActiveList
  | fromPeer i e =>
    rw [InventoryNode.step] at h
    split_ifs at h
    exact hs.peerStep hback h
  | handled n handling =>
    obtain ⟨x, -, rfl⟩ := Option.map_eq_some_iff.1 h
    refine Disciplined.shrink ?_ (shrinks_handled _ now x handling)
    exact ⟨hs.active_nodup, hs.active_lt, hs.fetch_nodup, hs.bounded, hs.once, hs.separate⟩
  | broadcast =>
    obtain rfl := Option.some.inj h
    exact ⟨hs.active_nodup, hs.active_lt, hs.fetch_nodup, hs.bounded, hs.once, hs.separate⟩
  | fetchItems =>
    obtain rfl := Option.some.inj h
    exact hs.fetchItems
  | advertiseInventory =>
    obtain rfl := Option.some.inj h
    obtain ⟨hactive, hconnections, hfetch, hrequested⟩ := shrinks_modifyActive (s := s)
      (f := advertiseTo now s.newInventory) fun _ ↦ rfl
    exact hs.shrink ⟨hactive, hconnections, hfetch, hrequested⟩
  | pruneFailed | blockInterval =>
    obtain rfl := Option.some.inj h
    exact ⟨hs.active_nodup, hs.active_lt, hs.fetch_nodup, hs.bounded, hs.once, hs.separate⟩

theorem start_disciplined : start.Disciplined :=
  ⟨List.nodup_nil, by simp [start], List.nodup_nil, by simp [start], by simp [start],
    by simp [start]⟩

/-- **No item is requested twice**: over every run in which no peer that is being disconnected gives
back what has since been requested from another, one active peer at most has been asked for an item,
which then is not to be fetched, and no peer for more items than one. -/
theorem requests_disciplined (es : List (ℕ × InventoryEvent)) (s : InventoryNode)
    (hback : Throughout step GivesBack start es) (h : applied step start es = some s) :
    s.Disciplined :=
  hback.inv (P := fun _ ↦ True) (fun _ _ ↦ trivial)
    (fun _ _ _ hs _ hq hstep ↦ hs.step hq hstep) start_disciplined h

/-! ## A run -/

/-- A transaction. -/
def offer : ItemId := ⟨trxMessageType, ⟨7, 0⟩⟩

/-- Two peers offer a transaction.  The first one is disconnected after it has been asked for it, so
that the second one is, which sends it. -/
def offered : List (ℕ × InventoryEvent) :=
  [(1000000, .connected), (1000000, .connected),
    (2000000, .fromPeer 0 (.itemIdsInventory trxMessageType [offer.itemHash])),
    (2000001, .fromPeer 1 (.itemIdsInventory trxMessageType [offer.itemHash])),
    (2000002, .fetchItems), (2000003, .fromPeer 0 .disconnected),
    (2000004, .fromPeer 0 .closed), (2000005, .fetchItems),
    (2000006, .fromPeer 1 (.received offer)), (2000007, .handled 0 (.accepted [] [])),
    (2000008, .advertiseInventory)]

/-- No item is requested twice there. -/
theorem requests_disciplined_offered :
    ∃ s, applied step start offered = some s ∧ s.Disciplined := by
  have hsome : (applied step start offered).isSome := by decide +kernel
  obtain ⟨s, hs⟩ := Option.isSome_iff_exists.1 hsome
  exact ⟨s, hs, requests_disciplined offered s (by decide +kernel) hs⟩

/-- A peer that is being disconnected gives back what has been requested from another: two peers
have been asked for it in the end. -/
example : ∃ s, applied step start
    (offered.take 6 ++ [(2000004, .fromPeer 1 (.itemIdsInventory trxMessageType
        [offer.itemHash])), (2000005, .fetchItems), (2000006, .connected),
      (2000007, .fromPeer 2 (.itemIdsInventory trxMessageType [offer.itemHash])),
      (2000008, .fromPeer 0 .closed), (2000009, .fetchItems)]) = some s ∧
    offer ∈ (s.peer 1).itemsRequestedFromPeer ∧ offer ∈ (s.peer 2).itemsRequestedFromPeer :=
  ⟨_, rfl, by decide +kernel, by decide +kernel⟩

end InventoryNode

end Graphene
