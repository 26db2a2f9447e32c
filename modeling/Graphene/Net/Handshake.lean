import Graphene.Lib.Transitions
import Mathlib.Data.List.TakeDrop
import Mathlib.Order.Nat

/-!
# Shaking hands

Two nodes that have connected say hello to each other.  Each accepts the other or rejects it, asks
it for addresses once it has been answered, and puts the connection on its active list, or ends it,
once it has got them.  This file has the two ends of a connection, and the messages between them.

A node says hello from a task of its own, which waits for what the chain says of its head block,
while the loop that reads messages runs already.  So the hello may come after answers to what was
read; the handlers do not expect that, and put a connection on the active list that has not been
accepted, as the first example below shows.  What is proved here is about runs in which each end
says hello before anything else happens on it (`HelloFirst`).

* `HandshakeEnd` — one end, with what it has sent and how much it has read of what the other has.
* `HandshakeEnd.onMessage` — the handlers; what a node decides is left open.
* `Handshake.step` — all that can happen on either end, in any order.
* `HandshakeEnd.Talks`, `HandshakeEnd.Hears` — what an end has sent, and what it makes of what it
  has read; `Handshake.Sound` — the invariant.
* `Handshake.active_agrees` — a connection that is active on one end has been accepted by both.
* `Handshake.handshake_completes` — when no message is left, both ends have it active or both have
  closed it, unless one of them was told to end it.
-/

set_option autoImplicit false

namespace Graphene

open Transitions

/-! ## One end -/

/-- `our_connection_state` and `their_connection_state`, once there is a connection. -/
inductive NegotiationState where
  /-- `just_connected`. -/
  | justConnected
  /-- `connection_accepted`. -/
  | connectionAccepted
  /-- `connection_rejected`. -/
  | connectionRejected
deriving DecidableEq

/-- The messages, without what they carry. -/
inductive HandshakeMessage where
  /-- `hello_message`. -/
  | hello
  /-- `connection_accepted_message`. -/
  | connectionAccepted
  /-- `connection_rejected_message`, and whether it is because of `connected_to_self`. -/
  | connectionRejected (connectedToSelf : Bool)
  /-- `address_request_message`. -/
  | addressRequest
  /-- `address_message`. -/
  | address
  /-- `closing_connection_message`. -/
  | closingConnection
  /-- `fetch_blockchain_item_ids_message`. -/
  | fetchBlockchainItemIds
deriving DecidableEq

/-- The list that a connection is on. -/
inductive ConnectionList where
  /-- `_handshaking_connections`. -/
  | handshaking
  /-- `_active_connections`. -/
  | active
  /-- `_closing_connections`. -/
  | closing
  /-- `_terminating_connections`. -/
  | terminating
  /-- None. -/
  | none
deriving DecidableEq

/-- What a node makes of a hello. -/
inductive HelloDecision where
  /-- The signature is wrong, the chain is another, or the software is too old. -/
  | disconnect
  /-- The peer is connected, is this node, is not allowed, or there are enough others. -/
  | reject (connectedToSelf : Bool)
  /-- It is accepted. -/
  | accept
deriving DecidableEq

/-- What a node makes of a message, where that depends on more than the connection. -/
structure HandshakeDecision where
  /-- What it makes of a hello. -/
  hello : HelloDecision := .accept
  /-- It needs none of the blocks of a peer that asks for some and needs none either. -/
  inhibited : Bool := false
  /-- It does not have the last block of a peer that asks for more, and asks in turn. -/
  restart : Bool := false
  /-- It has no synopsis for the peer: `block_older_than_undo_history`. -/
  noSynopsis : Bool := false
deriving DecidableEq

/-- One end of a connection. -/
structure HandshakeEnd where
  /-- The `direction`: the other end has connected to this one. -/
  inbound : Bool
  /-- `send_hello_message` has run. -/
  saidHello : Bool := false
  /-- `our_state`: what the other end has made of us. -/
  ourState : NegotiationState := .justConnected
  /-- `their_state`: what we have made of it. -/
  theirState : NegotiationState := .justConnected
  /-- The list that it is on. -/
  place : ConnectionList := .handshaking
  /-- `we_have_requested_close`. -/
  weHaveRequestedClose : Bool := false
  /-- `they_have_requested_close`. -/
  theyHaveRequestedClose : Bool := false
  /-- The socket has been closed. -/
  socketClosed : Bool := false
  /-- It has begun to synchronize with the other. -/
  syncing : Bool := false
  /-- What has been sent. -/
  sent : List HandshakeMessage := []
  /-- How many of the messages of the other end have been read. -/
  received : ℕ := 0

/-- What a message answers to a hello. -/
def HandshakeMessage.reply? : HandshakeMessage → Option NegotiationState
  | .connectionAccepted => some .connectionAccepted
  | .connectionRejected _ => some .connectionRejected
  | _ => none

theorem HandshakeMessage.reply?_ne_just (m : HandshakeMessage) :
    m.reply? ≠ some .justConnected := by
  cases m <;> simp [reply?]

namespace HandshakeEnd

variable (a : HandshakeEnd)

/-- `send_message`. -/
def send (m : HandshakeMessage) : HandshakeEnd :=
  if a.socketClosed then a else { a with sent := a.sent ++ [m] }

/-- `close_connection`. -/
def closeConnection : HandshakeEnd := { a with socketClosed := true }

/-- `disconnect_from_peer`. -/
def disconnectFromPeer : HandshakeEnd :=
  let a := { a with place := .closing }
  if a.theyHaveRequestedClose then a.closeConnection
  else { a with weHaveRequestedClose := true }.send .closingConnection

/-- `start_synchronizing_with_peer`. -/
def startSynchronizing (noSynopsis : Bool) : HandshakeEnd :=
  let a := { a with syncing := true }
  if noSynopsis then a.disconnectFromPeer else a.send .fetchBlockchainItemIds

/-- The connection is moved to the active list, and `new_peer_just_added`. -/
def moveToActive (noSynopsis : Bool) : HandshakeEnd :=
  { a with place := .active }.startSynchronizing noSynopsis

/-- `send_hello_message`. -/
def sendHello : HandshakeEnd := { a with saidHello := true }.send .hello

/-- `on_connection_closed`. -/
def onConnectionClosed : HandshakeEnd := { a.closeConnection with place := .none }

/-- `on_hello_message`. -/
def onHello (d : HelloDecision) : HandshakeEnd :=
  if a.theirState = .justConnected then
    match d with
    | .disconnect =>
      ({ a with theirState := .connectionRejected }.send (.connectionRejected false))
        |>.disconnectFromPeer
    | .reject connectedToSelf =>
      { a with theirState := .connectionRejected }.send (.connectionRejected connectedToSelf)
    | .accept => { a with theirState := .connectionAccepted }.send .connectionAccepted
  else a.disconnectFromPeer

/-- `on_connection_accepted_message`. -/
def onConnectionAccepted : HandshakeEnd :=
  { a with ourState := .connectionAccepted }.send .addressRequest

/-- `on_connection_rejected_message`; an exception ends the connection. -/
def onConnectionRejected (connectedToSelf : Bool) : HandshakeEnd :=
  if a.ourState = .justConnected then
    let a := if connectedToSelf then { a with place := .closing }.closeConnection else a
    { a with ourState := .connectionRejected }.send .addressRequest
  else a.onConnectionClosed

/-- `on_address_request_message`. -/
def onAddressRequest : HandshakeEnd := a.send .address

/-- `on_address_message`. -/
def onAddress (noSynopsis : Bool) : HandshakeEnd :=
  if a.place = .handshaking then
    if a.ourState = .connectionRejected then a.disconnectFromPeer
    else if a.theirState = .connectionRejected then a.disconnectFromPeer
    else a.moveToActive noSynopsis
  else a

/-- `on_closing_connection_message`. -/
def onClosingConnection : HandshakeEnd :=
  let a := { a with theyHaveRequestedClose := true }
  if a.weHaveRequestedClose then a.closeConnection else a

/-- `on_fetch_blockchain_item_ids_message`. -/
def onFetchBlockchainItemIds (inhibited restart noSynopsis : Bool) : HandshakeEnd :=
  let a := if restart then a.startSynchronizing noSynopsis else a
  if inhibited then a.disconnectFromPeer
  else if a.inbound = true ∧ a.place = .handshaking then a.moveToActive noSynopsis
  else a

/-- `on_message`. -/
def onMessage (d : HandshakeDecision) : HandshakeMessage → HandshakeEnd
  | .hello => a.onHello d.hello
  | .connectionAccepted => a.onConnectionAccepted
  | .connectionRejected connectedToSelf => a.onConnectionRejected connectedToSelf
  | .addressRequest => a.onAddressRequest
  | .address => a.onAddress d.noSynopsis
  | .closingConnection => a.onClosingConnection
  | .fetchBlockchainItemIds =>
    a.onFetchBlockchainItemIds d.inhibited d.restart d.noSynopsis

end HandshakeEnd

/-! ## Both ends -/

/-- What happens on one end. -/
inductive HandshakeEvent where
  /-- The task that says hello gets to do so. -/
  | sayHello
  /-- The next message arrives. -/
  | deliver (d : HandshakeDecision)
  /-- `fetch_updated_peer_lists_loop` comes round. -/
  | fetchUpdatedPeerLists
  /-- `fetch_next_batch_of_item_ids_from_peer`, while it synchronizes. -/
  | fetchNextBatch
  /-- The read loop finds that the connection has been closed. -/
  | connectionClosed
  /-- The node disconnects the peer for another reason. -/
  | disconnect
  /-- `terminate_inactive_connections_loop` gives it up. -/
  | terminate
deriving DecidableEq, Inhabited

/-- What comes of the handshake itself. -/
def HandshakeEvent.IsPeaceful : HandshakeEvent → Prop
  | .sayHello => True
  | .deliver d => d.inhibited = false ∧ d.noSynopsis = false
  | .fetchUpdatedPeerLists => True
  | .fetchNextBatch => True
  | .connectionClosed => True
  | .disconnect => False
  | .terminate => False

/-- The two ends. -/
abbrev Handshake := Bool → HandshakeEnd

namespace Handshake

/-- What happens on an end, `b` being the other. -/
def endStep (a b : HandshakeEnd) : HandshakeEvent → Option HandshakeEnd
  | .sayHello => if a.saidHello then none else some a.sendHello
  | .deliver d =>
    if a.socketClosed then none
    else b.sent[a.received]?.map fun m ↦ { a with received := a.received + 1 }.onMessage d m
  | .fetchUpdatedPeerLists => if a.place = .active then some (a.send .addressRequest) else none
  | .fetchNextBatch => if a.syncing then some (a.send .fetchBlockchainItemIds) else none
  | .connectionClosed =>
    if a.place ≠ .none ∧ (a.socketClosed ∨ b.socketClosed) then some a.onConnectionClosed else none
  | .disconnect => if a.socketClosed then none else some a.disconnectFromPeer
  | .terminate =>
    if a.place ≠ .none ∧ a.place ≠ .terminating then
      some { a with place := .terminating }.closeConnection
    else none

/-- All that can happen. -/
def step (s : Handshake) (e : Bool × HandshakeEvent) : Option Handshake :=
  (endStep (s e.1) (s !e.1) e.2).map (Function.update s e.1)

/-- Both ends have just connected. -/
def start : Handshake := fun i ↦ { inbound := i }

/-- An end has said hello, or does so now. -/
def HelloFirst (s : Handshake) (e : Bool × HandshakeEvent) : Prop :=
  e.2 = .sayHello ∨ (s e.1).saidHello = true

end Handshake

namespace HandshakeEnd

variable {a a' b : HandshakeEnd} {m : HandshakeMessage} {st : NegotiationState}

/-! ## What an end has sent -/

/-- Both ends have accepted each other, as far as this one knows. -/
def Agreed (a : HandshakeEnd) : Prop :=
  a.ourState = .connectionAccepted ∧ a.theirState = .connectionAccepted

/-- What an end has sent says what it has made of the other and what it has heard from it. -/
structure Talks (a : HandshakeEnd) : Prop where
  /-- The task that says hello has run. -/
  said : a.saidHello = true
  /-- It has said hello first. -/
  hello_first : a.sent.head? = some .hello
  /-- It has not said so again. -/
  hello_once : .hello ∉ a.sent.tail
  /-- What it has answered is what it has made of the other. -/
  reply_sent : ∀ m ∈ a.sent, ∀ st, m.reply? = some st → a.theirState = st
  /-- It has answered, if it has made anything of it. -/
  replied : a.theirState ≠ .justConnected → ∃ m ∈ a.sent, m.reply?.isSome
  /-- It has asked for addresses only if it has been answered. -/
  request_sent : .addressRequest ∈ a.sent → a.ourState ≠ .justConnected
  /-- It has done so then. -/
  requested : a.ourState ≠ .justConnected → a.socketClosed = true ∨ .addressRequest ∈ a.sent
  /-- An active connection has been accepted by both. -/
  active : a.place = .active → a.Agreed
  /-- Only then does it synchronize. -/
  synced : a.syncing = true → a.Agreed
  /-- Only then has it asked for blocks. -/
  fetch_sent : .fetchBlockchainItemIds ∈ a.sent → a.Agreed
  /-- It has answered before it did so. -/
  fetch_after : ∀ l, l <+: a.sent → .fetchBlockchainItemIds ∈ l → ∃ m ∈ l, m.reply?.isSome
  /-- One whose socket is closed is not active, nor to become so. -/
  closed : a.socketClosed = true → a.place ≠ .handshaking ∧ a.place ≠ .active
  /-- One that is on no list has a closed socket. -/
  dropped : a.place = .none → a.socketClosed = true
  /-- One that is closing has asked the other to close it, if its socket is not closed. -/
  closing : a.place = .closing → a.weHaveRequestedClose = true ∨ a.socketClosed = true
  /-- It has sent so. -/
  closing_sent : a.weHaveRequestedClose = true → .closingConnection ∈ a.sent
  /-- It is not on the lists for others then. -/
  closing_place : a.weHaveRequestedClose = true → a.place ≠ .handshaking ∧ a.place ≠ .active
  /-- When both have, the socket is closed. -/
  both_requested : a.theyHaveRequestedClose = true → a.weHaveRequestedClose = true →
    a.socketClosed = true

theorem send_of_open (h : a.socketClosed = false) (m : HandshakeMessage) :
    a.send m = { a with sent := a.sent ++ [m] } := by
  simp [send, h]

theorem Talks.head_append (h : Talks a) (m : HandshakeMessage) :
    (a.sent ++ [m]).head? = some .hello ∧ (a.sent ++ [m]).tail = a.sent.tail ++ [m] := by
  have hfirst := h.hello_first
  cases hsent : a.sent with
  | nil => simp [hsent] at hfirst
  | cons x xs => simpa [hsent] using hfirst

/-- It has answered before it asked for blocks, also with one more message. -/
theorem Talks.fetch_after_append (h : Talks a)
    (hfetch : m = .fetchBlockchainItemIds → a.theirState ≠ .justConnected)
    (l : List HandshakeMessage) (hl : l <+: a.sent ++ [m]) (hmem : .fetchBlockchainItemIds ∈ l) :
    ∃ x ∈ l, x.reply?.isSome := by
  rcases List.prefix_concat_iff.1 hl with rfl | hl
  · rcases List.mem_append.1 hmem with hmem | hmem
    · obtain ⟨x, hx, hsome⟩ := h.fetch_after _ List.prefix_rfl hmem
      exact ⟨x, List.mem_append_left _ hx, hsome⟩
    · obtain ⟨x, hx, hsome⟩ := h.replied (hfetch (List.mem_singleton.1 hmem).symm)
      exact ⟨x, List.mem_append_left _ hx, hsome⟩
  · exact h.fetch_after l hl hmem

/-- A message that says nothing of what the end has made of the other. -/
theorem Talks.append (h : Talks a) (hm : m ≠ .hello) (hreply : m.reply? = none)
    (hrequest : m = .addressRequest → a.ourState ≠ .justConnected)
    (hfetch : m = .fetchBlockchainItemIds → a.Agreed) :
    Talks { a with sent := a.sent ++ [m] } := by
  obtain ⟨hhead, htail⟩ := h.head_append m
  refine { h with
    hello_first := hhead
    hello_once := by simp [htail, h.hello_once, hm.symm]
    reply_sent := fun x hx st hst ↦ ?_
    replied := fun hst ↦ ?_
    request_sent := fun hx ↦ ?_
    requested := fun hour ↦ (h.requested hour).imp id (List.mem_append_left _)
    fetch_sent := fun hx ↦ ?_
    fetch_after := h.fetch_after_append fun heq ↦ by simp [(hfetch heq).2]
    closing_sent := fun hwe ↦ List.mem_append_left _ (h.closing_sent hwe) }
  · rcases List.mem_append.1 hx with hx | hx
    · exact h.reply_sent x hx st hst
    · rw [List.mem_singleton.1 hx, hreply] at hst
      cases hst
  · obtain ⟨x, hx, hsome⟩ := h.replied hst
    exact ⟨x, List.mem_append_left _ hx, hsome⟩
  · rcases List.mem_append.1 hx with hx | hx
    · exact h.request_sent hx
    · exact hrequest (List.mem_singleton.1 hx).symm
  · rcases List.mem_append.1 hx with hx | hx
    · exact h.fetch_sent hx
    · exact hfetch (List.mem_singleton.1 hx).symm

/-- The answer to a hello. -/
theorem Talks.answer (h : Talks a) (hjust : a.theirState = .justConnected)
    (hreply : m.reply? = some st) : Talks { a with theirState := st, sent := a.sent ++ [m] } := by
  obtain ⟨hhead, htail⟩ := h.head_append m
  have hnone : ∀ x ∈ a.sent, x.reply? = none := fun x hx ↦ by
    by_contra hsome
    obtain ⟨st', hst'⟩ := Option.ne_none_iff_exists'.1 hsome
    have := h.reply_sent x hx st' hst'
    exact x.reply?_ne_just (hst'.trans (this ▸ hjust ▸ rfl))
  have hnot : ¬ a.Agreed := fun hagreed ↦ by simp [Agreed, hjust] at hagreed
  have hm : m ≠ .hello ∧ m ≠ .addressRequest ∧ m ≠ .fetchBlockchainItemIds := by
    refine ⟨?_, ?_, ?_⟩ <;> rintro rfl <;> cases hreply
  refine { h with
    hello_first := hhead
    hello_once := by simp [htail, h.hello_once, hm.1.symm]
    reply_sent := fun x hx st' hst' ↦ ?_
    replied := fun _ ↦ ⟨m, by simp, by simp [hreply]⟩
    request_sent := fun hx ↦
      h.request_sent ((List.mem_append.1 hx).resolve_right (by simp [hm.2.1.symm]))
    requested := fun hour ↦ (h.requested hour).imp id (List.mem_append_left _)
    active := fun hplace ↦ absurd (h.active hplace) hnot
    synced := fun hsync ↦ absurd (h.synced hsync) hnot
    fetch_sent := fun hx ↦ absurd
      (h.fetch_sent ((List.mem_append.1 hx).resolve_right (by simp [hm.2.2.symm]))) hnot
    fetch_after := h.fetch_after_append fun heq ↦ absurd heq hm.2.2
    closing_sent := fun hwe ↦ List.mem_append_left _ (h.closing_sent hwe) }
  rcases List.mem_append.1 hx with hx | hx
  · rw [hnone x hx] at hst'
    cases hst'
  · rw [List.mem_singleton.1 hx, hreply] at hst'
    exact Option.some.inj hst'

/-- What the other end has made of this one; it does not take back that it has accepted it. -/
theorem Talks.answered (h : Talks a) (hst : st ≠ .justConnected)
    (hkeep : a.ourState = .connectionAccepted → st = .connectionAccepted) :
    Talks { a with ourState := st, sent := a.sent ++ [.addressRequest] } := by
  obtain ⟨hhead, htail⟩ := h.head_append .addressRequest
  have hagreed (hold : a.Agreed) : { a with ourState := st : HandshakeEnd }.Agreed :=
    ⟨hkeep hold.1, hold.2⟩
  refine { h with
    hello_first := hhead
    hello_once := by simp [htail, h.hello_once]
    reply_sent := fun x hx st' hst' ↦ ?_
    replied := fun htheir ↦ ?_
    request_sent := fun _ ↦ hst
    requested := fun _ ↦ .inr (by simp)
    active := fun hplace ↦ hagreed (h.active hplace)
    synced := fun hsync ↦ hagreed (h.synced hsync)
    fetch_sent := fun hx ↦
      hagreed (h.fetch_sent ((List.mem_append.1 hx).resolve_right (by simp)))
    fetch_after := h.fetch_after_append nofun
    closing_sent := fun hwe ↦ List.mem_append_left _ (h.closing_sent hwe) }
  · rcases List.mem_append.1 hx with hx | hx
    · exact h.reply_sent x hx st' hst'
    · rw [List.mem_singleton.1 hx] at hst'
      cases hst'
  · obtain ⟨x, hx, hsome⟩ := h.replied htheir
    exact ⟨x, List.mem_append_left _ hx, hsome⟩

/-- The socket is closed. -/
theorem Talks.close (h : Talks a) {place : ConnectionList}
    (hplace : place ≠ .handshaking ∧ place ≠ .active) :
    Talks { a with place := place, socketClosed := true } :=
  { h with
    requested := fun _ ↦ .inl rfl
    active := fun heq ↦ absurd heq hplace.2
    closed := fun _ ↦ hplace
    dropped := fun _ ↦ rfl
    closing := fun _ ↦ .inr rfl
    closing_place := fun _ ↦ hplace
    both_requested := fun _ _ ↦ rfl }

/-- The connection is ended in an orderly way. -/
theorem Talks.disconnectFromPeer (h : Talks a)
    (hopen : a.theyHaveRequestedClose = true ∨ a.socketClosed = false) :
    Talks a.disconnectFromPeer := by
  rw [HandshakeEnd.disconnectFromPeer]
  dsimp only
  split_ifs with hthey
  · exact h.close ⟨by simp, by simp⟩
  · rw [send_of_open (by exact hopen.resolve_left hthey)]
    exact { h.append (m := .closingConnection) (by simp) rfl (by simp) (by simp) with
      active := nofun
      closed := fun _ ↦ ⟨by simp, by simp⟩
      dropped := nofun
      closing := fun _ ↦ .inl rfl
      closing_sent := fun _ ↦ by simp
      closing_place := fun _ ↦ ⟨by simp, by simp⟩
      both_requested := fun hthey' _ ↦ absurd hthey' hthey }

/-- It has become active. -/
theorem Talks.activate (h : Talks a) (hplace : a.place = .handshaking) (hagreed : a.Agreed) :
    Talks { a with place := .active } :=
  { h with
    active := fun _ ↦ hagreed
    closed := fun hclosed ↦ absurd hplace (h.closed hclosed).1
    dropped := nofun
    closing := nofun
    closing_place := fun hwe ↦ absurd hplace (h.closing_place hwe).1 }

theorem Talks.onClosingConnection (h : Talks a) : Talks a.onClosingConnection := by
  rw [HandshakeEnd.onClosingConnection]
  dsimp only
  split_ifs with hwe
  · exact { h.close (h.closing_place hwe) with both_requested := fun _ _ ↦ rfl }
  · exact { h with both_requested := fun _ hwe' ↦ absurd hwe' hwe }

/-! ## What an end has read -/

/-- What an end has read says what it knows of the other. -/
structure Hears (a b : HandshakeEnd) : Prop where
  /-- It has read what the other has sent. -/
  received_le : a.received ≤ b.sent.length
  /-- It has made nothing of the other only if it has read nothing. -/
  their_just_iff : a.theirState = .justConnected ↔ a.received = 0
  /-- It knows what the other has made of it, if it has read that. -/
  reply_read : ∀ m ∈ b.sent.take a.received, m.reply?.isSome → a.ourState ≠ .justConnected
  /-- What it knows is so. -/
  our_eq : a.ourState ≠ .justConnected → a.ourState = b.theirState
  /-- It has sent addresses if it has been asked. -/
  answered : .addressRequest ∈ b.sent.take a.received → .address ∈ a.sent
  /-- It has been asked by one that has been answered. -/
  address_sent : .address ∈ a.sent → b.ourState ≠ .justConnected
  /-- It is not shaking hands any more, if it has got them. -/
  settled : .address ∈ b.sent.take a.received → a.place ≠ .handshaking
  /-- It knows that the other wants to close the connection, if it has read so. -/
  closing_read : .closingConnection ∈ b.sent.take a.received → a.theyHaveRequestedClose = true

/-- What an end does not take back. -/
structure Moves (a a' : HandshakeEnd) : Prop where
  /-- What it has sent. -/
  sent : a.sent <+: a'.sent
  /-- What it has made of the other. -/
  theirState : a.theirState ≠ .justConnected → a'.theirState = a.theirState
  /-- That it has been answered. -/
  ourState : a.ourState ≠ .justConnected → a'.ourState ≠ .justConnected

/-- What one end knows of the other stays true while the other goes on. -/
theorem Hears.moves (h : Hears b a) (hmoves : Moves a a') : Hears b a' := by
  have htake : a'.sent.take b.received = a.sent.take b.received := by
    obtain ⟨rest, hrest⟩ := hmoves.sent
    rw [← hrest, List.take_append_of_le_length h.received_le]
  refine ⟨h.received_le.trans hmoves.sent.length_le, h.their_just_iff, ?_, fun hour ↦ ?_, ?_,
    fun haddress ↦ hmoves.ourState (h.address_sent haddress), ?_, ?_⟩
  · rw [htake]
    exact h.reply_read
  · have heq := h.our_eq hour
    exact heq.trans (hmoves.theirState (heq ▸ hour)).symm
  · rw [htake]
    exact h.answered
  · rw [htake]
    exact h.settled
  · rw [htake]
    exact h.closing_read

/-- **A message is read**: what an end knows then. -/
theorem Hears.read (h : Hears a b) (hm : b.sent[a.received]? = some m)
    (hreceived : a'.received = a.received + 1) (htheir : a'.theirState ≠ .justConnected)
    (hour : a.ourState ≠ .justConnected → a'.ourState ≠ .justConnected)
    (hreply : m.reply?.isSome → a'.ourState ≠ .justConnected)
    (hourEq : a'.ourState ≠ .justConnected → a'.ourState = b.theirState)
    (hsent : a.sent <+: a'.sent) (hanswer : m = .addressRequest → .address ∈ a'.sent)
    (haddress : .address ∈ a'.sent → b.ourState ≠ .justConnected)
    (hplace : a.place ≠ .handshaking → a'.place ≠ .handshaking)
    (hsettle : m = .address → a'.place ≠ .handshaking)
    (hthey : a.theyHaveRequestedClose = true → a'.theyHaveRequestedClose = true)
    (hclosing : m = .closingConnection → a'.theyHaveRequestedClose = true) : Hears a' b := by
  have hlt : a.received < b.sent.length := (List.getElem?_eq_some_iff.1 hm).1
  have hmem : ∀ x, x ∈ b.sent.take a'.received ↔ x ∈ b.sent.take a.received ∨ x = m := by
    intro x
    rw [hreceived, List.take_add_one, hm]
    simp
  refine ⟨hreceived ▸ hlt, ?_, fun x hx hsome ↦ ?_, hourEq, fun hx ↦ ?_, haddress, fun hx ↦ ?_,
    fun hx ↦ ?_⟩
  · exact iff_of_false htheir (by omega)
  · rcases (hmem x).1 hx with hx | rfl
    · exact hour (h.reply_read x hx hsome)
    · exact hreply hsome
  · rcases (hmem _).1 hx with hx | hx
    · exact hsent.subset (h.answered hx)
    · exact hanswer hx.symm
  · rcases (hmem _).1 hx with hx | hx
    · exact hplace (h.settled hx)
    · exact hsettle hx.symm
  · rcases (hmem _).1 hx with hx | hx
    · exact hthey (h.closing_read hx)
    · exact hclosing hx.symm

/-- What an end knows while it reads nothing. -/
theorem Hears.keep (h : Hears a b) (hreceived : a'.received = a.received)
    (htheir : a'.theirState = a.theirState) (hour : a'.ourState = a.ourState)
    (hsent : a.sent <+: a'.sent) (haddress : .address ∈ a'.sent → .address ∈ a.sent)
    (hplace : a.place ≠ .handshaking → a'.place ≠ .handshaking)
    (hthey : a.theyHaveRequestedClose = true → a'.theyHaveRequestedClose = true) : Hears a' b := by
  refine ⟨hreceived ▸ h.received_le, ?_, ?_, ?_, ?_, fun hx ↦ h.address_sent (haddress hx), ?_, ?_⟩
  · rw [htheir, hreceived]
    exact h.their_just_iff
  · rw [hreceived, hour]
    exact h.reply_read
  · rw [hour]
    exact h.our_eq
  · rw [hreceived]
    exact fun hx ↦ hsent.subset (h.answered hx)
  · rw [hreceived]
    exact fun hx ↦ hplace (h.settled hx)
  · rw [hreceived]
    exact fun hx ↦ hthey (h.closing_read hx)

/-! ## The handlers -/

/-- The end goes on as it should. -/
structure Proceeds (a a' b : HandshakeEnd) : Prop where
  /-- It sends what it should. -/
  talks : Talks a'
  /-- It knows what it should. -/
  hears : Hears a' b
  /-- It takes nothing back. -/
  moves : Moves a a'

theorem disconnectFromPeer_sent (hopen : a.theyHaveRequestedClose = true ∨ a.socketClosed = false) :
    a.sent <+: a.disconnectFromPeer.sent ∧
      ∀ x, x ∈ a.disconnectFromPeer.sent → x ∈ a.sent ∨ x = .closingConnection := by
  rw [disconnectFromPeer]
  dsimp only
  split_ifs with hthey
  · exact ⟨List.prefix_rfl, fun x hx ↦ .inl hx⟩
  · rw [send_of_open (by exact hopen.resolve_left hthey)]
    exact ⟨List.prefix_append _ _, fun x hx ↦ by simpa using hx⟩

theorem disconnectFromPeer_fields
    (hopen : a.theyHaveRequestedClose = true ∨ a.socketClosed = false) :
    a.disconnectFromPeer.theirState = a.theirState ∧ a.disconnectFromPeer.ourState = a.ourState ∧
      a.disconnectFromPeer.received = a.received ∧ a.disconnectFromPeer.place = .closing ∧
      a.disconnectFromPeer.theyHaveRequestedClose = a.theyHaveRequestedClose ∧
      (a.disconnectFromPeer.theyHaveRequestedClose = true ∨
        a.disconnectFromPeer.socketClosed = false) := by
  rw [disconnectFromPeer]
  dsimp only
  split_ifs with hthey
  · exact ⟨rfl, rfl, rfl, rfl, rfl, .inl hthey⟩
  · rw [send_of_open (by exact hopen.resolve_left hthey)]
    exact ⟨rfl, rfl, rfl, rfl, rfl, .inr (hopen.resolve_left hthey)⟩

/-- A node can always disconnect. -/
theorem Proceeds.disconnectFromPeer
    (hopen : a'.theyHaveRequestedClose = true ∨ a'.socketClosed = false) (h : Proceeds a a' b) :
    Proceeds a a'.disconnectFromPeer b := by
  obtain ⟨hsent, hmem⟩ := disconnectFromPeer_sent hopen
  obtain ⟨htheir, hour, hreceived, hplace, hthey, -⟩ := disconnectFromPeer_fields hopen
  refine ⟨h.talks.disconnectFromPeer hopen, ?_, ?_⟩
  · refine h.hears.keep hreceived htheir hour hsent (fun hx ↦ ?_) (fun _ ↦ ?_) fun hx ↦ ?_
    · exact (hmem _ hx).resolve_right (by simp)
    · simp [hplace]
    · rw [hthey]
      exact hx
  · exact ⟨h.moves.sent.trans hsent, fun hne ↦ htheir.trans (h.moves.theirState hne),
      fun hne ↦ hour ▸ h.moves.ourState hne⟩

/-- A node can synchronize with a peer when both have accepted each other. -/
theorem Proceeds.startSynchronizing (h : Proceeds a a' b) (hopen : a'.socketClosed = false)
    (hagreed : a'.Agreed) (noSynopsis : Bool) :
    Proceeds a (a'.startSynchronizing noSynopsis) b := by
  have hsyncing : Proceeds a { a' with syncing := true } b :=
    ⟨{ h.talks with synced := fun _ ↦ hagreed },
      h.hears.keep rfl rfl rfl List.prefix_rfl id id id, h.moves.sent, h.moves.theirState,
      h.moves.ourState⟩
  rw [HandshakeEnd.startSynchronizing]
  split_ifs
  · exact hsyncing.disconnectFromPeer (.inr hopen)
  · rw [send_of_open (by exact hopen)]
    refine ⟨hsyncing.talks.append (by simp) rfl (by simp) fun _ ↦ hagreed, ?_,
      h.moves.sent.trans (List.prefix_append _ _), h.moves.theirState, h.moves.ourState⟩
    exact hsyncing.hears.keep rfl rfl rfl (List.prefix_append _ _)
      (fun hx ↦ (List.mem_append.1 hx).resolve_right (by simp)) id id

theorem startSynchronizing_fields (hopen : a.socketClosed = false) (noSynopsis : Bool) :
    (a.startSynchronizing noSynopsis).theirState = a.theirState ∧
      (a.startSynchronizing noSynopsis).ourState = a.ourState ∧
      ((a.startSynchronizing noSynopsis).theyHaveRequestedClose = true ∨
        (a.startSynchronizing noSynopsis).socketClosed = false) ∧
      (noSynopsis = false → (a.startSynchronizing noSynopsis).place = a.place) := by
  rw [HandshakeEnd.startSynchronizing]
  split_ifs with hno
  · obtain ⟨htheir, hour, -, -, -, hleft⟩ :=
      disconnectFromPeer_fields (a := { a with syncing := true }) (.inr hopen)
    exact ⟨htheir, hour, hleft, fun heq ↦ absurd hno (by simp [heq])⟩
  · rw [send_of_open (by exact hopen)]
    exact ⟨rfl, rfl, .inr hopen, fun _ ↦ rfl⟩

/-- The handshake has come to its end, and it is a good one. -/
theorem Proceeds.moveToActive (h : Proceeds a a' b) (hplace : a'.place = .handshaking)
    (hagreed : a'.Agreed) (noSynopsis : Bool) : Proceeds a (a'.moveToActive noSynopsis) b := by
  have hopen : a'.socketClosed = false := by
    by_contra hclosed
    exact (h.talks.closed (by simpa using hclosed)).1 hplace
  have hactive : Proceeds a { a' with place := .active } b :=
    ⟨h.talks.activate hplace hagreed,
      h.hears.keep rfl rfl rfl List.prefix_rfl id (fun _ ↦ by simp) id, h.moves.sent,
      h.moves.theirState, h.moves.ourState⟩
  exact hactive.startSynchronizing hopen hagreed noSynopsis

/-- A message that an end is about to read. -/
structure NextRead (a b : HandshakeEnd) (m : HandshakeMessage) : Prop where
  /-- The end has sent what it should. -/
  talks : Talks a
  /-- It knows what it should. -/
  hears : Hears a b
  /-- So has the other. -/
  otherTalks : Talks b
  /-- So does the other. -/
  otherHears : Hears b a
  /-- The socket is open. -/
  socket : a.socketClosed = false
  /-- The message is next. -/
  next : b.sent[a.received]? = some m

/-- The end with one more message read. -/
abbrev readOne (a : HandshakeEnd) : HandshakeEnd := { a with received := a.received + 1 }

theorem Talks.readOne (h : Talks a) : Talks a.readOne :=
  { h with }

namespace NextRead

theorem mem (h : NextRead a b m) : m ∈ b.sent := List.mem_of_getElem? h.next

/-- The hello comes first, and once. -/
theorem their_just_iff (h : NextRead a b m) : a.theirState = .justConnected ↔ m = .hello := by
  rw [h.hears.their_just_iff]
  have hfirst := h.otherTalks.hello_first
  have honce := h.otherTalks.hello_once
  have hnext := h.next
  cases hsent : b.sent with
  | nil => simp [hsent] at hfirst
  | cons x xs =>
    rw [hsent] at hfirst honce hnext
    obtain rfl : x = .hello := Option.some.inj hfirst
    cases hreceived : a.received with
    | zero =>
      rw [hreceived] at hnext
      exact iff_of_true rfl (Option.some.inj hnext).symm
    | succ n =>
      rw [hreceived] at hnext
      refine iff_of_false (Nat.succ_ne_zero n) ?_
      rintro rfl
      exact honce (List.mem_of_getElem? hnext)

theorem onHello (h : NextRead a b .hello) (d : HelloDecision) :
    Proceeds a (a.readOne.onHello d) b := by
  have hjust := h.their_just_iff.2 rfl
  have hanswer (st : NegotiationState) (x : HandshakeMessage) (hreply : x.reply? = some st)
      (hx : x ≠ .address) :
      Proceeds a { a.readOne with theirState := st, sent := a.sent ++ [x] } b := by
    have hst : st ≠ .justConnected := fun heq ↦ x.reply?_ne_just (heq ▸ hreply)
    refine ⟨h.talks.readOne.answer hjust hreply, ?_,
      ⟨List.prefix_append _ _, fun hne ↦ absurd hjust hne, id⟩⟩
    refine h.hears.read h.next rfl hst id nofun h.hears.our_eq (List.prefix_append _ _) nofun
      (fun haddress ↦ ?_) id nofun id nofun
    exact h.hears.address_sent ((List.mem_append.1 haddress).resolve_right (by simp [hx.symm]))
  unfold HandshakeEnd.onHello
  rw [if_pos (by exact hjust)]
  cases d with
  | disconnect =>
    dsimp only
    rw [send_of_open (by exact h.socket)]
    exact (hanswer _ (.connectionRejected false) rfl (by simp)).disconnectFromPeer (.inr h.socket)
  | reject connectedToSelf =>
    dsimp only
    rw [send_of_open (by exact h.socket)]
    exact hanswer _ (.connectionRejected connectedToSelf) rfl (by simp)
  | accept =>
    dsimp only
    rw [send_of_open (by exact h.socket)]
    exact hanswer _ .connectionAccepted rfl (by simp)

/-- The other end has made something of this one. -/
theorem answered (h : NextRead a b m) (hreply : m.reply? = some st)
    (hkeep : a.ourState = .connectionAccepted → st = .connectionAccepted) :
    Proceeds a { a.readOne with ourState := st, sent := a.sent ++ [.addressRequest] } b := by
  have hst : st ≠ .justConnected := fun heq ↦ m.reply?_ne_just (heq ▸ hreply)
  have hhello : m ≠ .hello := fun heq ↦ by simp [heq, HandshakeMessage.reply?] at hreply
  refine ⟨h.talks.readOne.answered hst hkeep, ?_, ⟨List.prefix_append _ _, fun _ ↦ rfl,
    fun _ ↦ hst⟩⟩
  refine h.hears.read h.next rfl (fun heq ↦ hhello (h.their_just_iff.1 heq)) (fun _ ↦ hst)
    (fun _ ↦ hst) (fun _ ↦ (h.otherTalks.reply_sent m h.mem st hreply).symm)
    (List.prefix_append _ _) ?_ (fun haddress ↦ ?_) id ?_ id ?_
  · rintro rfl
    cases hreply
  · exact h.hears.address_sent ((List.mem_append.1 haddress).resolve_right (by simp))
  · rintro rfl
    cases hreply
  · rintro rfl
    cases hreply

theorem onConnectionAccepted (h : NextRead a b .connectionAccepted) :
    Proceeds a a.readOne.onConnectionAccepted b := by
  rw [HandshakeEnd.onConnectionAccepted, send_of_open (by exact h.socket)]
  exact h.answered rfl fun _ ↦ rfl

/-- The connection is not on the lists that matter any more. -/
theorem close (h : NextRead a b m) (hhello : m ≠ .hello) (haddress : m ≠ .addressRequest)
    (hclosing : m ≠ .closingConnection) (place : ConnectionList)
    (hplace : place ≠ .handshaking ∧ place ≠ .active) (st : NegotiationState)
    (hreply : m.reply?.isSome → st ≠ .justConnected)
    (hour : a.ourState ≠ .justConnected → st ≠ .justConnected)
    (hkeep : a.ourState = .connectionAccepted → st = .connectionAccepted)
    (hourEq : st ≠ .justConnected → st = b.theirState)
    (hrequest : .addressRequest ∈ a.sent → st ≠ .justConnected) :
    Proceeds a { a.readOne with ourState := st, place := place, socketClosed := true } b := by
  have hclosed := h.talks.readOne.close hplace
  refine ⟨?_, ?_, ⟨List.prefix_rfl, fun _ ↦ rfl, hour⟩⟩
  · exact { hclosed with
      request_sent := hrequest
      requested := fun _ ↦ .inl rfl
      active := fun heq ↦ absurd heq hplace.2
      synced := fun hsync ↦ ⟨hkeep (h.talks.synced hsync).1, (h.talks.synced hsync).2⟩
      fetch_sent := fun hx ↦ ⟨hkeep (h.talks.fetch_sent hx).1, (h.talks.fetch_sent hx).2⟩ }
  · exact h.hears.read h.next rfl (fun heq ↦ hhello (h.their_just_iff.1 heq)) hour hreply hourEq
      List.prefix_rfl (fun heq ↦ absurd heq haddress) h.hears.address_sent (fun _ ↦ hplace.1)
      (fun _ ↦ hplace.1) id fun heq ↦ absurd heq hclosing

theorem onConnectionRejected {connectedToSelf : Bool}
    (h : NextRead a b (.connectionRejected connectedToSelf)) :
    Proceeds a (a.readOne.onConnectionRejected connectedToSelf) b := by
  rw [HandshakeEnd.onConnectionRejected]
  split_ifs with hjust hself
  · have hsent : b.theirState = .connectionRejected :=
      h.otherTalks.reply_sent _ h.mem .connectionRejected rfl
    exact h.close (by simp) (by simp) (by simp) .closing (by simp) .connectionRejected
      (fun _ ↦ by simp) (fun _ ↦ by simp)
      (fun hour ↦ absurd (hjust.symm.trans hour) (by simp)) (fun _ ↦ hsent.symm) (fun _ ↦ by simp)
  · dsimp only
    rw [send_of_open (by exact h.socket)]
    exact h.answered rfl fun hour ↦ absurd (hjust.symm.trans hour) (by simp)
  · exact h.close (by simp) (by simp) (by simp) .none (by simp) a.ourState (fun _ ↦ hjust) id id
      h.hears.our_eq h.talks.request_sent

theorem onAddressRequest (h : NextRead a b .addressRequest) :
    Proceeds a a.readOne.onAddressRequest b := by
  rw [HandshakeEnd.onAddressRequest, send_of_open (by exact h.socket)]
  refine ⟨h.talks.readOne.append (by simp) rfl (by simp) (by simp), ?_,
    ⟨List.prefix_append _ _, fun _ ↦ rfl, id⟩⟩
  exact h.hears.read h.next rfl (fun heq ↦ absurd (h.their_just_iff.1 heq) (by simp)) id nofun
    h.hears.our_eq (List.prefix_append _ _) (fun _ ↦ by simp)
    (fun _ ↦ h.otherTalks.request_sent h.mem) id nofun id nofun

/-- A message that changes nothing by itself is read. -/
theorem skip (h : NextRead a b m) (hhello : m ≠ .hello) (hreply : m.reply? = none)
    (hrequest : m ≠ .addressRequest) (haddress : m = .address → a.place ≠ .handshaking)
    (hclosing : m ≠ .closingConnection) : Proceeds a a.readOne b := by
  refine ⟨h.talks.readOne, ?_, List.prefix_rfl, fun _ ↦ rfl, id⟩
  exact h.hears.read h.next rfl (fun heq ↦ absurd (h.their_just_iff.1 heq) hhello) id
    (fun hsome ↦ by simp [hreply] at hsome) h.hears.our_eq List.prefix_rfl
    (fun heq ↦ absurd heq hrequest) h.hears.address_sent id haddress id
    fun heq ↦ absurd heq hclosing

/-- The addresses are read by an end that goes on from there. -/
theorem readAddress (h : NextRead a b .address) (hplace : a'.place ≠ .handshaking)
    (hreceived : a'.received = a.received + 1) (htheir : a'.theirState = a.theirState)
    (hour : a'.ourState = a.ourState) (hsent : a.sent <+: a'.sent)
    (haddress : .address ∈ a'.sent → .address ∈ a.sent)
    (hthey : a'.theyHaveRequestedClose = a.theyHaveRequestedClose) : Hears a' b ∧ Moves a a' := by
  have hread : a.theirState ≠ .justConnected := fun heq ↦
    absurd (h.their_just_iff.1 heq) (by simp)
  have hheard : a.ourState ≠ .justConnected := h.otherHears.address_sent h.mem
  exact ⟨h.hears.read h.next hreceived (htheir ▸ hread) (fun _ ↦ hour ▸ hheard) nofun
    (hour ▸ h.hears.our_eq) hsent nofun (fun hx ↦ h.hears.address_sent (haddress hx))
    (fun _ ↦ hplace) (fun _ ↦ hplace) (fun hx ↦ hthey ▸ hx) nofun,
    hsent, fun _ ↦ htheir, fun hne ↦ hour ▸ hne⟩

theorem onAddress (h : NextRead a b .address) (noSynopsis : Bool) :
    Proceeds a (a.readOne.onAddress noSynopsis) b := by
  have hopen : a.readOne.socketClosed = false := h.socket
  have hleave : Proceeds a a.readOne.disconnectFromPeer b := by
    obtain ⟨hsent, hmem⟩ := disconnectFromPeer_sent (.inr hopen)
    obtain ⟨htheir, hour, hreceived, hplace, hthey, -⟩ := disconnectFromPeer_fields (.inr hopen)
    obtain ⟨hhears, hmoves⟩ := h.readAddress (by simp [hplace]) hreceived htheir hour hsent
      (fun hx ↦ (hmem _ hx).resolve_right (by simp)) hthey
    exact ⟨h.talks.readOne.disconnectFromPeer (.inr hopen), hhears, hmoves⟩
  rw [HandshakeEnd.onAddress]
  split_ifs with hplace hourRejected htheirRejected
  · exact hleave
  · exact hleave
  · -- neither has rejected the other, and both have said what they made of it
    have hagreed : a.Agreed := by
      have htheir : a.theirState ≠ .justConnected := fun heq ↦
        absurd (h.their_just_iff.1 heq) (by simp)
      have hour : a.ourState ≠ .justConnected := h.otherHears.address_sent h.mem
      constructor
      · cases hst : a.ourState <;> simp_all
      · cases hst : a.theirState <;> simp_all
    have hread : Hears { a.readOne with place := .active } b ∧
        Moves a { a.readOne with place := .active } :=
      h.readAddress (by simp) rfl rfl rfl List.prefix_rfl id rfl
    have hactive : Proceeds a { a.readOne with place := .active } b :=
      ⟨h.talks.readOne.activate hplace hagreed, hread.1, hread.2⟩
    exact hactive.startSynchronizing hopen hagreed noSynopsis
  · exact h.skip (by simp) rfl (by simp) (fun _ ↦ hplace) (by simp)

/-- An end that is asked for blocks knows that both have accepted each other. -/
theorem agreed (h : NextRead a b .fetchBlockchainItemIds) : a.Agreed := by
  obtain ⟨hbOur, hbTheir⟩ := h.otherTalks.fetch_sent h.mem
  have hheard : a.ourState ≠ .justConnected := by
    -- the answer came before
    have htake : b.sent.take (a.received + 1) =
        b.sent.take a.received ++ [.fetchBlockchainItemIds] := by
      rw [List.take_add_one, h.next]
      rfl
    obtain ⟨x, hx, hsome⟩ := h.otherTalks.fetch_after _ (List.take_prefix (a.received + 1) b.sent)
      (by simp [htake])
    rw [htake, List.mem_append, List.mem_singleton] at hx
    rcases hx with hx | rfl
    · exact h.hears.reply_read x hx hsome
    · simp [HandshakeMessage.reply?] at hsome
  have hback := h.otherHears.our_eq (by simp [hbOur])
  exact ⟨(h.hears.our_eq hheard).trans hbTheir, hback.symm.trans hbOur⟩

theorem onFetchBlockchainItemIds (h : NextRead a b .fetchBlockchainItemIds)
    (inhibited restart noSynopsis : Bool) :
    Proceeds a (a.readOne.onFetchBlockchainItemIds inhibited restart noSynopsis) b := by
  have hread : Proceeds a a.readOne b := h.skip (by simp) rfl (by simp) (by simp) (by simp)
  have hagreed : a.readOne.Agreed := h.agreed
  have hrestart : ∃ a' : HandshakeEnd,
      (if restart then a.readOne.startSynchronizing noSynopsis else a.readOne) = a' ∧
        Proceeds a a' b ∧ a'.Agreed ∧
        (a'.theyHaveRequestedClose = true ∨ a'.socketClosed = false) := by
    refine ⟨_, rfl, ?_⟩
    split_ifs
    · obtain ⟨htheir, hour, hleft, -⟩ :=
        startSynchronizing_fields (a := a.readOne) h.socket noSynopsis
      exact ⟨hread.startSynchronizing h.socket hagreed noSynopsis,
        ⟨hour.trans hagreed.1, htheir.trans hagreed.2⟩, hleft⟩
    · exact ⟨hread, hagreed, .inr h.socket⟩
  obtain ⟨a', ha', hproceeds, hagreed', hleft⟩ := hrestart
  rw [HandshakeEnd.onFetchBlockchainItemIds, ha']
  split_ifs with _ hplace
  · exact hproceeds.disconnectFromPeer hleft
  · exact hproceeds.moveToActive hplace.2 hagreed' noSynopsis
  · exact hproceeds

theorem onClosingConnection (h : NextRead a b .closingConnection) :
    Proceeds a a.readOne.onClosingConnection b := by
  have htheir : a.theirState ≠ .justConnected := fun heq ↦
    absurd (h.their_just_iff.1 heq) (by simp)
  have hfields : a.readOne.onClosingConnection.received = a.received + 1 ∧
      a.readOne.onClosingConnection.theirState = a.theirState ∧
      a.readOne.onClosingConnection.ourState = a.ourState ∧
      a.readOne.onClosingConnection.sent = a.sent ∧
      a.readOne.onClosingConnection.place = a.place ∧
      a.readOne.onClosingConnection.theyHaveRequestedClose = true := by
    rw [HandshakeEnd.onClosingConnection]
    dsimp only
    split_ifs <;> exact ⟨rfl, rfl, rfl, rfl, rfl, rfl⟩
  obtain ⟨hreceived, htheir', hour, hsent, hplace, hthey⟩ := hfields
  refine ⟨h.talks.readOne.onClosingConnection, ?_, ?_⟩
  · exact h.hears.read h.next hreceived (htheir' ▸ htheir) (fun hne ↦ hour ▸ hne) nofun
      (hour ▸ h.hears.our_eq) (hsent ▸ List.prefix_rfl) nofun (hsent ▸ h.hears.address_sent)
      (fun hne ↦ hplace ▸ hne) nofun (fun _ ↦ hthey) fun _ ↦ hthey
  · exact ⟨hsent ▸ List.prefix_rfl, fun _ ↦ htheir', fun hne ↦ hour ▸ hne⟩

/-- Whatever it reads, the end goes on as it should. -/
theorem onMessage (h : NextRead a b m) (d : HandshakeDecision) :
    Proceeds a (a.readOne.onMessage d m) b := by
  cases m with
  | hello => exact h.onHello d.hello
  | connectionAccepted => exact h.onConnectionAccepted
  | connectionRejected connectedToSelf => exact h.onConnectionRejected
  | addressRequest => exact h.onAddressRequest
  | address => exact h.onAddress d.noSynopsis
  | closingConnection => exact h.onClosingConnection
  | fetchBlockchainItemIds =>
    exact h.onFetchBlockchainItemIds d.inhibited d.restart d.noSynopsis

end NextRead

theorem Talks.socket_open (h : Talks a) (hactive : a.place = .active) :
    a.socketClosed = false := by
  by_contra hclosed
  exact (h.closed (by simpa using hclosed)).2 hactive

/-- It says hello. -/
theorem Proceeds.sendHello (i : Bool) (hab : Hears ({ inbound := i } : HandshakeEnd) b) :
    Proceeds ({ inbound := i } : HandshakeEnd) ({ inbound := i } : HandshakeEnd).sendHello b := by
  have htalks : Talks ({ inbound := i } : HandshakeEnd).sendHello := by
    constructor <;> simp [HandshakeEnd.sendHello, send, HandshakeMessage.reply?]
    intro l hl hmem
    simpa using hl.subset hmem
  exact ⟨htalks, hab.keep rfl rfl rfl (List.nil_prefix) (by simp [HandshakeEnd.sendHello, send])
    id id, List.nil_prefix, fun _ ↦ rfl, id⟩

/-- Whatever happens on it, once it has said hello, the end goes on as it should. -/
theorem Proceeds.endStep {e : HandshakeEvent} (ha : Talks a) (hab : Hears a b)
    (hb : b.sent ≠ [] → Talks b) (hba : Hears b a) (h : Handshake.endStep a b e = some a') :
    Proceeds a a' b := by
  have hclose (place : ConnectionList) (hplace : place ≠ .handshaking ∧ place ≠ .active) :
      Proceeds a { a with place := place, socketClosed := true } b :=
    ⟨ha.close hplace, hab.keep rfl rfl rfl List.prefix_rfl id (fun _ ↦ hplace.1) id,
      List.prefix_rfl, fun _ ↦ rfl, id⟩
  cases e with
  | sayHello => simp [Handshake.endStep, ha.said] at h
  | deliver d =>
    rw [Handshake.endStep] at h
    split_ifs at h with hsocket
    obtain ⟨m, hm, rfl⟩ := Option.map_eq_some_iff.1 h
    have hother : Talks b := hb (List.ne_nil_of_mem (List.mem_of_getElem? hm))
    exact NextRead.onMessage ⟨ha, hab, hother, hba, by simpa using hsocket, hm⟩ d
  | fetchUpdatedPeerLists =>
    rw [Handshake.endStep] at h
    split_ifs at h with hactive
    obtain rfl := Option.some.inj h
    rw [send_of_open (ha.socket_open hactive)]
    refine ⟨ha.append (by simp) rfl (fun _ ↦ by simp [(ha.active hactive).1]) (by simp), ?_,
      List.prefix_append _ _, fun _ ↦ rfl, id⟩
    exact hab.keep rfl rfl rfl (List.prefix_append _ _) (fun hx ↦ by simpa using hx) id id
  | fetchNextBatch =>
    rw [Handshake.endStep] at h
    split_ifs at h with hsync
    obtain rfl := Option.some.inj h
    rw [send]
    split_ifs
    · exact ⟨ha, hab, List.prefix_rfl, fun _ ↦ rfl, id⟩
    · refine ⟨ha.append (by simp) rfl (by simp) fun _ ↦ ha.synced hsync, ?_,
        List.prefix_append _ _, fun _ ↦ rfl, id⟩
      exact hab.keep rfl rfl rfl (List.prefix_append _ _) (fun hx ↦ by simpa using hx) id id
  | connectionClosed =>
    rw [Handshake.endStep] at h
    split_ifs at h
    obtain rfl := Option.some.inj h
    exact hclose .none (by simp)
  | disconnect =>
    rw [Handshake.endStep] at h
    split_ifs at h with hopen
    obtain rfl := Option.some.inj h
    exact Proceeds.disconnectFromPeer (.inr (by simpa using hopen))
      ⟨ha, hab, List.prefix_rfl, fun _ ↦ rfl, id⟩
  | terminate =>
    rw [Handshake.endStep] at h
    split_ifs at h
    obtain rfl := Option.some.inj h
    exact hclose .terminating (by simp)

end HandshakeEnd

/-! ## Every run -/

namespace Handshake

open HandshakeEnd

variable {s s' : Handshake} {e : Bool × HandshakeEvent} {es : List (Bool × HandshakeEvent)}

/-- Both ends have sent what they should, if anything, and know what they should. -/
def Sound (s : Handshake) : Prop := ∀ i, (s i = start i ∨ Talks (s i)) ∧ Hears (s i) (s !i)

theorem sound_start : Sound start := fun _ ↦
  ⟨.inl rfl, by constructor <;> simp [start]⟩

/-- An end that has said hello has sent what it should. -/
theorem Sound.talks (hs : Sound s) {i : Bool} (h : (s i).saidHello = true) : Talks (s i) :=
  (hs i).1.resolve_left fun hstart ↦ by simp [hstart, start] at h

/-- So has one that has sent anything. -/
theorem Sound.talks_of_sent (hs : Sound s) {i : Bool} (h : (s i).sent ≠ []) : Talks (s i) :=
  (hs i).1.resolve_left fun hstart ↦ h (by simp [hstart, start])

/-- So has one that is active. -/
theorem Sound.talks_of_active (hs : Sound s) {i : Bool} (h : (s i).place = .active) :
    Talks (s i) :=
  (hs i).1.resolve_left fun hstart ↦ by simp [hstart, start] at h

theorem step_eq_some (h : step s e = some s') :
    ∃ a', endStep (s e.1) (s !e.1) e.2 = some a' ∧ s' e.1 = a' ∧ s' (!e.1) = s !e.1 := by
  obtain ⟨a', ha', rfl⟩ := Option.map_eq_some_iff.1 h
  exact ⟨a', ha', Function.update_self .., Function.update_of_ne (by simp) ..⟩

theorem Sound.proceeds (hs : Sound s) (hfirst : HelloFirst s e) (h : step s e = some s') :
    Proceeds (s e.1) (s' e.1) (s !e.1) := by
  obtain ⟨a', ha', hthis, -⟩ := step_eq_some h
  have hother : Hears (s !e.1) (s e.1) := by simpa using (hs !e.1).2
  rw [hthis]
  by_cases hsaid : (s e.1).saidHello = true
  · exact Proceeds.endStep (hs.talks hsaid) (hs e.1).2 hs.talks_of_sent hother ha'
  · -- it says hello now
    have hfresh : s e.1 = start e.1 := (hs e.1).1.resolve_right fun htalks ↦ hsaid htalks.said
    rw [hfirst.resolve_right hsaid, endStep, if_neg hsaid] at ha'
    obtain rfl := Option.some.inj ha'
    have hhears := (hs e.1).2
    rw [hfresh] at hhears ⊢
    exact Proceeds.sendHello e.1 hhears

theorem Sound.step (hs : Sound s) (hfirst : HelloFirst s e) (h : step s e = some s') :
    Sound s' := by
  have hproceeds := hs.proceeds hfirst h
  obtain ⟨-, -, -, hother⟩ := step_eq_some h
  have hhears : Hears (s !e.1) (s e.1) := by simpa using (hs !e.1).2
  intro i
  rcases eq_or_ne i e.1 with rfl | hne
  · rw [hother]
    exact ⟨.inr hproceeds.talks, hproceeds.hears⟩
  · obtain rfl := Bool.eq_not.2 hne
    rw [hother, Bool.not_not]
    exact ⟨(hs !e.1).1, hhears.moves hproceeds.moves⟩

theorem sound_applied (hfirst : Throughout Handshake.step HelloFirst start es)
    (h : applied Handshake.step start es = some s) : Sound s :=
  hfirst.inv (P := fun _ ↦ True) (fun _ _ ↦ trivial)
    (fun _ _ _ hs _ hq hstep ↦ hs.step hq hstep) sound_start h

/-- **A connection that is active on one end has been accepted by both**, whatever has happened on
either of them since it said hello. -/
theorem active_agrees (es : List (Bool × HandshakeEvent)) (s : Handshake) (i : Bool)
    (hfirst : Throughout step HelloFirst start es) (h : applied step start es = some s)
    (hactive : (s i).place = .active) :
    (s i).ourState = .connectionAccepted ∧ (s i).theirState = .connectionAccepted ∧
      (s !i).theirState = .connectionAccepted := by
  have hs := sound_applied hfirst h
  obtain ⟨hour, htheir⟩ := (hs.talks_of_active hactive).active hactive
  exact ⟨hour, htheir, ((hs i).2.our_eq (by simp [hour])).symm.trans hour⟩

instance (s : Handshake) (e : Bool × HandshakeEvent) : Decidable (HelloFirst s e) :=
  inferInstanceAs (Decidable (_ ∨ _))

/-- Each end says hello, and then reads a message in its turn, and accepts the other. -/
def shakeHands : List (Bool × HandshakeEvent) :=
  [(true, .sayHello), (false, .sayHello)] ++
    (List.replicate 5 [(true, .deliver {}), (false, .deliver {})]).flatten

/-- The connection is active then. -/
theorem active_agrees_shakeHands :
    ∃ s, applied step start shakeHands = some s ∧ (s true).place = .active ∧
      (s true).ourState = .connectionAccepted ∧ (s true).theirState = .connectionAccepted ∧
      (s false).theirState = .connectionAccepted := by
  have hs : (applied step start shakeHands).isSome := by decide
  obtain ⟨s, hs⟩ := Option.isSome_iff_exists.1 hs
  have hactive : (s true).place = .active := by
    obtain rfl := Option.some.inj hs
    decide
  exact ⟨s, hs, hactive, active_agrees shakeHands s true (by decide) hs hactive⟩

/-- Where one end is late to say hello, the other has it active before. -/
example :
    (applied step start ((false, .sayHello) ::
      [true, false, true, false].map (·, .deliver {}))).map
      (fun s ↦ ((s false).place, (s false).theirState)) = some (.active, .justConnected) := by
  decide

/-! ## When nobody interferes -/

/-- The end is being closed only because it has been rejected, or has rejected the other. -/
structure Orderly (a : HandshakeEnd) : Prop where
  /-- One of the two has rejected the other. -/
  rejected : a.place = .closing →
    a.ourState = .connectionRejected ∨ a.theirState = .connectionRejected
  /-- It has not been given up. -/
  not_terminating : a.place ≠ .terminating

theorem Orderly.of_eq {a a' : HandshakeEnd} (h : Orderly a) (hplace : a'.place = a.place)
    (hour : a'.ourState = a.ourState) (htheir : a'.theirState = a.theirState) : Orderly a' :=
  ⟨by rw [hplace, hour, htheir]; exact h.rejected, hplace ▸ h.not_terminating⟩

theorem Orderly.disconnectFromPeer {a : HandshakeEnd} (hopen : a.socketClosed = false)
    (h : a.ourState = .connectionRejected ∨ a.theirState = .connectionRejected) :
    Orderly a.disconnectFromPeer := by
  obtain ⟨htheir, hour, -, hplace, -⟩ := disconnectFromPeer_fields (.inr hopen)
  exact ⟨fun _ ↦ by rwa [htheir, hour], by simp [hplace]⟩

theorem Orderly.startSynchronizing {a : HandshakeEnd} (hopen : a.socketClosed = false)
    (h : Orderly a) : Orderly (a.startSynchronizing false) := by
  obtain ⟨htheir, hour, -, hplace⟩ := startSynchronizing_fields hopen false
  exact h.of_eq (hplace rfl) hour htheir

theorem orderly_onMessage {a b : HandshakeEnd} {m : HandshakeMessage} (h : Orderly a)
    (hread : NextRead a b m) {d : HandshakeDecision} (hd : (HandshakeEvent.deliver d).IsPeaceful) :
    Orderly (a.readOne.onMessage d m) := by
  have hopen : a.socketClosed = false := hread.socket
  cases m with
  | hello =>
    have hjust := hread.their_just_iff.2 rfl
    have hrejected (hplace : a.place = .closing) : a.ourState = .connectionRejected :=
      (h.rejected hplace).resolve_right (by simp [hjust])
    unfold HandshakeEnd.onMessage HandshakeEnd.onHello
    dsimp only
    rw [if_pos (by exact hjust)]
    cases d.hello with
    | disconnect =>
      dsimp only
      rw [send_of_open (by exact hopen)]
      exact Orderly.disconnectFromPeer hopen (.inr rfl)
    | reject connectedToSelf =>
      dsimp only
      rw [send_of_open (by exact hopen)]
      exact ⟨fun _ ↦ .inr rfl, h.not_terminating⟩
    | accept =>
      dsimp only
      rw [send_of_open (by exact hopen)]
      exact ⟨fun hplace ↦ .inl (hrejected hplace), h.not_terminating⟩
  | connectionAccepted =>
    have hother : b.theirState = .connectionAccepted :=
      hread.otherTalks.reply_sent _ hread.mem _ rfl
    rw [HandshakeEnd.onMessage, HandshakeEnd.onConnectionAccepted, send_of_open (by exact hopen)]
    refine ⟨fun hplace ↦ .inr ((h.rejected hplace).resolve_left fun hour ↦ ?_), h.not_terminating⟩
    have heq := hread.hears.our_eq (by simp [hour])
    simp [hour, hother] at heq
  | connectionRejected connectedToSelf =>
    rw [HandshakeEnd.onMessage, HandshakeEnd.onConnectionRejected]
    split_ifs with hjust hself
    · exact ⟨fun _ ↦ .inl rfl, nofun⟩
    · dsimp only
      rw [send_of_open (by exact hopen)]
      exact ⟨fun _ ↦ .inl rfl, h.not_terminating⟩
    · exact ⟨nofun, nofun⟩
  | addressRequest =>
    rw [HandshakeEnd.onMessage, HandshakeEnd.onAddressRequest, send_of_open (by exact hopen)]
    exact h.of_eq rfl rfl rfl
  | address =>
    rw [HandshakeEnd.onMessage, HandshakeEnd.onAddress, hd.2]
    split_ifs with _ hourRejected htheirRejected
    · exact Orderly.disconnectFromPeer hopen (.inl hourRejected)
    · exact Orderly.disconnectFromPeer hopen (.inr htheirRejected)
    · have hactive : Orderly { a.readOne with place := .active } := ⟨nofun, nofun⟩
      exact hactive.startSynchronizing hopen
    · exact h.of_eq rfl rfl rfl
  | closingConnection =>
    rw [HandshakeEnd.onMessage, HandshakeEnd.onClosingConnection]
    dsimp only
    split_ifs <;> exact h.of_eq rfl rfl rfl
  | fetchBlockchainItemIds =>
    have hread : Orderly a.readOne := h.of_eq rfl rfl rfl
    have hactive (a' : HandshakeEnd) (ha' : a'.socketClosed = false) :
        Orderly (a'.moveToActive false) := by
      have hplaced : Orderly { a' with place := .active } := ⟨nofun, nofun⟩
      exact hplaced.startSynchronizing ha'
    have hstarted : (a.readOne.startSynchronizing false).socketClosed = false := by
      rw [HandshakeEnd.startSynchronizing, if_neg (by simp), send_of_open (by exact hopen)]
      exact hopen
    rw [HandshakeEnd.onMessage, HandshakeEnd.onFetchBlockchainItemIds, hd.1, hd.2]
    simp only [Bool.false_eq_true, if_false]
    split_ifs
    · exact hactive _ hstarted
    · exact hread.startSynchronizing hopen
    · exact hactive _ hopen
    · exact hread

theorem Sound.orderly_step (hs : Sound s) (hfirst : HelloFirst s e) (hpeace : e.2.IsPeaceful)
    (h : Handshake.step s e = some s')
    (horderly : ∀ i, Orderly (s i)) (i : Bool) : Orderly (s' i) := by
  obtain ⟨a', ha', hthis, hother⟩ := step_eq_some h
  rcases eq_or_ne i e.1 with rfl | hne
  · rw [hthis]
    have hold := horderly e.1
    obtain ⟨j, e⟩ := e
    cases e with
    | sayHello =>
      rw [endStep] at ha'
      split_ifs at ha'
      obtain rfl := Option.some.inj ha'
      rw [HandshakeEnd.sendHello, send]
      split_ifs <;> exact hold.of_eq rfl rfl rfl
    | deliver d =>
      rw [endStep] at ha'
      split_ifs at ha' with hsocket
      obtain ⟨m, hm, rfl⟩ := Option.map_eq_some_iff.1 ha'
      have hback : Hears (s !j) (s j) := by simpa using (hs !j).2
      have htalks : Talks (s j) := hs.talks (hfirst.resolve_left (by simp))
      have hother : Talks (s !j) :=
        hs.talks_of_sent (List.ne_nil_of_mem (List.mem_of_getElem? hm))
      exact orderly_onMessage hold
        ⟨htalks, (hs j).2, hother, hback, by simpa using hsocket, hm⟩ hpeace
    | fetchUpdatedPeerLists =>
      rw [endStep] at ha'
      split_ifs at ha' with hactive
      obtain rfl := Option.some.inj ha'
      rw [send_of_open ((hs.talks_of_active hactive).socket_open hactive)]
      exact hold.of_eq rfl rfl rfl
    | fetchNextBatch =>
      rw [endStep] at ha'
      split_ifs at ha'
      obtain rfl := Option.some.inj ha'
      rw [send]
      split_ifs
      · exact hold
      · exact hold.of_eq rfl rfl rfl
    | connectionClosed =>
      rw [endStep] at ha'
      split_ifs at ha'
      obtain rfl := Option.some.inj ha'
      exact ⟨nofun, nofun⟩
    | disconnect => exact hpeace.elim
    | terminate => exact hpeace.elim
  · obtain rfl := Bool.eq_not.2 hne
    rw [hother]
    exact horderly _

/-- Nobody has interfered with either end. -/
structure Undisturbed (s : Handshake) : Prop where
  /-- Both have sent what they should. -/
  sound : Sound s
  /-- Neither is being closed for another reason. -/
  orderly : ∀ i, Orderly (s i)

theorem undisturbed_applied (hfirst : Throughout Handshake.step HelloFirst start es)
    (hpeace : ∀ e ∈ es, e.2.IsPeaceful) (h : applied Handshake.step start es = some s) :
    Undisturbed s := by
  have hstart : Undisturbed start := ⟨sound_start, fun _ ↦ ⟨nofun, nofun⟩⟩
  refine hfirst.inv (P := fun e : Bool × HandshakeEvent ↦ e.2.IsPeaceful) hpeace ?_ hstart h
  intro s e s' hs hpeace hfirst hstep
  exact ⟨hs.sound.step hfirst hstep, hs.sound.orderly_step hfirst hpeace hstep hs.orderly⟩

/-- Both ends have said hello, no message is left to be read, and no connection to be dropped. -/
def AtRest (s : Handshake) : Prop := ∀ i, (s i).saidHello = true ∧
  (∀ d, endStep (s i) (s !i) (.deliver d) = none) ∧ endStep (s i) (s !i) .connectionClosed = none

/-- An end whose socket is open has read everything then. -/
theorem AtRest.received_eq (h : AtRest s) {i : Bool}
    (hopen : (s i).socketClosed = false) : (s !i).sent.take (s i).received = (s !i).sent := by
  have hnone := (h i).2.1 {}
  rw [endStep, if_neg (by simp [hopen]), Option.map_eq_none_iff, List.getElem?_eq_none_iff] at hnone
  exact List.take_of_length_le hnone

/-- Either both ends are on no list, or neither socket is closed. -/
theorem AtRest.dropped_or_open (h : AtRest s) :
    (∀ i, (s i).place = .none) ∨ ∀ i, (s i).socketClosed = false := by
  have hdrop (i : Bool) (hclosed : (s i).socketClosed = true ∨ (s !i).socketClosed = true) :
      (s i).place = .none := by
    by_contra hplace
    have := (h i).2.2
    rw [endStep, if_pos ⟨hplace, hclosed⟩] at this
    cases this
  by_cases hclosed : ∃ i, (s i).socketClosed = true
  · obtain ⟨i, hi⟩ := hclosed
    refine .inl fun j ↦ hdrop j ?_
    rcases eq_or_ne j i with rfl | hne
    · exact .inl hi
    · obtain rfl := Bool.eq_not.2 hne
      exact .inr (by simpa using hi)
  · exact .inr (by simpa using hclosed)

/-- An end at rest whose socket is open has answered, and has done shaking hands. -/
theorem AtRest.settled (h : AtRest s) (hs : Sound s) (hopen : ∀ i, (s i).socketClosed = false)
    (i : Bool) : (s i).ourState = (s !i).theirState ∧ (s i).place ≠ .handshaking := by
  have htalks (j : Bool) : Talks (s j) := hs.talks (h j).1
  have hanswered (j : Bool) : (s j).theirState ≠ .justConnected := by
    rw [Ne, (hs j).2.their_just_iff]
    intro hzero
    have hall := h.received_eq (hopen j)
    rw [hzero, List.take_zero] at hall
    have hfirst := (htalks !j).hello_first
    simp [← hall] at hfirst
  have hheard (j : Bool) : (s j).ourState ≠ .justConnected := by
    obtain ⟨m, hm, hsome⟩ := (htalks !j).replied (hanswered _)
    exact (hs j).2.reply_read m (by rwa [h.received_eq (hopen j)]) hsome
  have hsent : .address ∈ (s !i).sent := by
    refine (hs !i).2.answered ?_
    rw [h.received_eq (hopen _), Bool.not_not]
    exact ((htalks i).requested (hheard i)).resolve_left (by simp [hopen i])
  exact ⟨(hs i).2.our_eq (hheard i), (hs i).2.settled (by rwa [h.received_eq (hopen i)])⟩

/-- **The handshake completes**: in a run that nobody interferes with, once no message is left, both
ends have the connection on their active lists and have accepted each other, or both have closed
it. -/
theorem handshake_completes (es : List (Bool × HandshakeEvent)) (s : Handshake)
    (hfirst : Throughout step HelloFirst start es) (h : applied step start es = some s)
    (hpeace : ∀ e ∈ es, e.2.IsPeaceful) (hrest : AtRest s) :
    (∀ i, (s i).place = .active ∧ (s i).theirState = .connectionAccepted) ∨
      ∀ i, (s i).place = .none := by
  obtain ⟨hs, horderly⟩ := undisturbed_applied hfirst hpeace h
  have htalks (i : Bool) : Talks (s i) := hs.talks (hrest i).1
  rcases hrest.dropped_or_open with hdropped | hopen
  · exact .inr hdropped
  have hplaces (i : Bool) : (s i).place = .active ∨ (s i).place = .closing := by
    cases hplace : (s i).place with
    | handshaking => exact absurd hplace (hrest.settled hs hopen i).2
    | active => exact .inl rfl
    | closing => exact .inr rfl
    | terminating => exact absurd hplace (horderly i).not_terminating
    | none =>
      have := (htalks i).dropped hplace
      simp [hopen i] at this
  have hactive (i : Bool) : (s i).place = .active := by
    refine (hplaces i).resolve_right fun hclosing ↦ ?_
    have hrequested (j : Bool) (hj : (s j).place = .closing) : (s j).weHaveRequestedClose = true :=
      ((htalks j).closing hj).resolve_right (by simp [hopen j])
    -- the other end knows, so that it would have closed the socket
    have hthey : (s !i).theyHaveRequestedClose = true := by
      refine (hs !i).2.closing_read ?_
      rw [hrest.received_eq (hopen _), Bool.not_not]
      exact (htalks i).closing_sent (hrequested i hclosing)
    have hother : (s !i).place = .active := by
      refine (hplaces !i).resolve_right fun hother ↦ ?_
      have := (htalks !i).both_requested hthey (hrequested _ hother)
      simp [hopen] at this
    obtain ⟨hour, htheir⟩ := (htalks !i).active hother
    have hback := (hrest.settled hs hopen !i).1
    rw [Bool.not_not] at hback
    rcases (horderly i).rejected hclosing with hrejected | hrejected
    · rw [(hrest.settled hs hopen i).1, htheir] at hrejected
      cases hrejected
    · rw [← hback, hour] at hrejected
      cases hrejected
  exact .inl fun i ↦ ⟨hactive i, ((htalks i).active (hactive i)).2⟩

/-- It is active on both ends, if they accept each other. -/
theorem handshake_completes_shakeHands :
    ∃ s, applied step start shakeHands = some s ∧ (∀ e ∈ shakeHands, e.2.IsPeaceful) ∧ AtRest s ∧
      ((∀ i, (s i).place = .active ∧ (s i).theirState = .connectionAccepted) ∨
        ∀ i, (s i).place = .none) := by
  have hs : (applied step start shakeHands).isSome := by decide
  obtain ⟨s, hs⟩ := Option.isSome_iff_exists.1 hs
  have hread : ∀ i, (s i).saidHello = true ∧ (s i).socketClosed = false ∧
      (s !i).sent[(s i).received]? = none := by
    obtain rfl := Option.some.inj hs
    decide
  have hrest : AtRest s := fun i ↦ by
    have hother := (hread !i).2.1
    simp [endStep, hread i, hother]
  have hpeace : ∀ e ∈ shakeHands, e.2.IsPeaceful := by
    simp [shakeHands, HandshakeEvent.IsPeaceful]
  exact ⟨s, hs, hpeace, hrest, handshake_completes shakeHands s (by decide) hs hpeace hrest⟩

/-- Both close it, if one of them rejects the other. -/
example :
    (applied step start ([(true, .sayHello), (false, .sayHello),
      (true, .deliver { hello := .reject false })] ++
      [false, true, false, true, false, true, false, true, false].map (·, .deliver {}) ++
      [(false, .connectionClosed), (true, .connectionClosed)])).map
      (fun s ↦ ((s true).place, (s false).place)) = some (.none, .none) := by
  decide

/-- One that is told to end it does so on its own end: the other has it active still. -/
example :
    (applied step start (shakeHands ++ [(true, .disconnect), (false, .deliver {})])).map
      (fun s ↦ ((s true).place, (s false).place)) = some (.closing, .active) := by
  decide

end Handshake

end Graphene
