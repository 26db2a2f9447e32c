import Graphene.Lib.ChunkedStream
import Mathlib.Algebra.Group.Nat.Defs

/-!
# The messages on a connection

`message_oriented_connection_impl` (`message_oriented_connection.cpp`) writes a message as its
header, its data and padding up to a multiple of 16 bytes, and reads it back in a first block of 16
bytes and the rest.

* `Message` — a message, whose header says how long its data are.
* `sendMessage` — the bytes of one write.
* `readLoop` — the loop that reads messages and hands them on, over a stream that comes in chunks.
* `readMessage_sendMessage` — a message is read from its own bytes, and no others are touched.
* `message_framing_round_trip` — the messages that were sent are the messages that are read.
-/

set_option autoImplicit false

namespace Graphene

/-! ## Messages -/

/-- `message`: its header and its data, as the constructors and the read loop leave it. -/
structure Message where
  /-- `size`. -/
  size : UInt32
  /-- `msg_type`. -/
  msgType : UInt32
  /-- `data`. -/
  data : List UInt8
  /-- `size = (uint32_t)data.size();`, and `m.data.resize(m.size);` when it was read. -/
  data_length : data.length = size.toNat
deriving DecidableEq

/-- `MAX_MESSAGE_SIZE`. -/
def maxMessageSize : UInt32 := 1024 * 1024 * 2

/-- A `uint32_t` as it lies in memory, the lowest byte first. -/
def uint32Bytes (n : UInt32) : List UInt8 :=
  [.ofNat n.toNat, .ofNat (n.toNat / 2 ^ 8), .ofNat (n.toNat / 2 ^ 16), .ofNat (n.toNat / 2 ^ 24)]

/-- The `uint32_t` that lies at the front of some bytes. -/
def uint32Of : List UInt8 → UInt32
  | b0 :: b1 :: b2 :: b3 :: _ =>
    .ofNat (b0.toNat + 2 ^ 8 * b1.toNat + 2 ^ 16 * b2.toNat + 2 ^ 24 * b3.toNat)
  | _ => 0

/-- `sizeof(message_header)`. -/
def headerSize : ℕ := 8

/-- `BUFFER_SIZE`. -/
def bufferSize : ℕ := 16

/-- `LEFTOVER`. -/
def leftover : UInt32 := 8

/-- The header as it lies in memory. -/
def Message.header (m : Message) : List UInt8 := uint32Bytes m.size ++ uint32Bytes m.msgType

/-! ## Sending -/

/-- `memcpy(buffer + pos, bytes, bytes.size())`. -/
def memcpyAt (buffer : List UInt8) (pos : ℕ) (bytes : List UInt8) : List UInt8 :=
  buffer.take pos ++ bytes ++ buffer.drop (pos + bytes.length)

/-- `size_with_padding`. -/
def sizeWithPadding (m : Message) : ℕ :=
  16 * ((headerSize + m.size.toNat + 15) / 16)

/-- `send_message`: the bytes of the write.  The new buffer holds whatever `heap` holds. -/
def sendMessage (heap : ℕ → UInt8) (m : Message) : List UInt8 :=
  let paddedMessage := (List.range (sizeWithPadding m)).map heap
  let paddedMessage := memcpyAt paddedMessage 0 m.header
  memcpyAt paddedMessage headerSize (m.data.take m.size.toNat)

/-! ## Reading -/

/-- How the read loop ends. -/
inductive Disconnect where
  /-- The socket was at its end. -/
  | eof
  /-- `FC_ASSERT( m.size <= MAX_MESSAGE_SIZE )`. -/
  | tooLarge (size : UInt32)
  /-- `on_message` threw. -/
  | onMessage
deriving DecidableEq

/-- `m.data.resize(n)`. -/
def resize (data : List UInt8) (n : ℕ) : List UInt8 :=
  data.take n ++ List.replicate (n - data.length) 0

theorem length_resize (data : List UInt8) (n : ℕ) : (resize data n).length = n := by
  rw [resize, List.length_append, List.length_take, List.length_replicate]
  omega

/-- `remaining_bytes_with_padding`, in 32-bit arithmetic. -/
def remainingBytesWithPadding (size : UInt32) : UInt32 := 16 * ((size - leftover + 15) / 16)

/-- One turn of `read_loop` after the first block was read, up to `on_message`: `first` is what the
block holds behind the header. -/
def readBody (size msgType : UInt32) (first : List UInt8) (chunks : List (List UInt8)) :
    Except Disconnect (Message × List (List UInt8)) :=
  if size ≤ maxMessageSize then do
    let remaining := remainingBytesWithPadding size
    let (more, chunks) ←
      if remaining ≠ 0 then (readExactly remaining.toNat chunks).elim (throw .eof) pure
      else pure ([], chunks)
    return (⟨size, msgType, resize (first ++ more) size.toNat, length_resize _ _⟩, chunks)
  else throw (.tooLarge size)

/-- One turn of `read_loop`, up to `on_message`. -/
def readMessage (chunks : List (List UInt8)) :
    Except Disconnect (Message × List (List UInt8)) := do
  let (buffer, chunks) ← (readExactly bufferSize chunks).elim (throw .eof) pure
  readBody (uint32Of buffer) (uint32Of (buffer.drop 4)) (buffer.drop headerSize) chunks

/-- `read_loop`: `onMessage` is what the delegate does with a message, `none` if it throws. -/
def readLoop {S : Type} (onMessage : S → Message → Option S) :
    ℕ → List (List UInt8) → S → Option (S × Disconnect)
  | 0, _, _ => none
  | fuel + 1, chunks, s =>
    match readMessage chunks with
    | .error e => some (s, e)
    | .ok (m, chunks) =>
      match onMessage s m with
      | none => some (s, .onMessage)
      | some s => readLoop onMessage fuel chunks s

/-- A delegate that keeps the messages. -/
def keepMessage (received : List Message) (m : Message) : Option (List Message) :=
  some (received ++ [m])

/-! ## The bytes of a message -/

theorem uint32Of_uint32Bytes (n : UInt32) (rest : List UInt8) :
    uint32Of (uint32Bytes n ++ rest) = n := by
  have hlt : n.toNat < 2 ^ 32 := n.toNat_lt
  simp only [uint32Bytes, List.cons_append, uint32Of, UInt8.toNat_ofNat']
  have hsum : n.toNat % 2 ^ 8 + 2 ^ 8 * (n.toNat / 2 ^ 8 % 2 ^ 8) +
      2 ^ 16 * (n.toNat / 2 ^ 16 % 2 ^ 8) + 2 ^ 24 * (n.toNat / 2 ^ 24 % 2 ^ 8) = n.toNat := by
    omega
  rw [hsum, UInt32.ofNat_toNat]

@[simp] theorem length_header (m : Message) : m.header.length = headerSize := rfl

/-- The reader and the writer agree on the size of the padding, also where the subtraction goes
below zero. -/
theorem remaining_add_bufferSize {size : UInt32} (h : size ≤ maxMessageSize) :
    bufferSize + (remainingBytesWithPadding size).toNat =
      16 * ((headerSize + size.toNat + 15) / 16) := by
  have hle : size.toNat ≤ 2097152 := UInt32.le_iff_toNat_le.1 h
  have hlt : size.toNat < 2 ^ 32 := size.toNat_lt
  simp only [remainingBytesWithPadding, leftover, bufferSize, headerSize, UInt32.toNat_mul,
    UInt32.toNat_div, UInt32.toNat_add, UInt32.toNat_sub, UInt32.toNat_ofNat, Nat.reducePow,
    Nat.reduceMod]
  omega

theorem resize_append {data padding : List UInt8} {n : ℕ} (h : data.length = n) :
    resize (data ++ padding) n = data := by
  have hle : n ≤ (data ++ padding).length := by
    rw [List.length_append, h]
    exact Nat.le_add_right _ _
  rw [resize, List.take_left' h, Nat.sub_eq_zero_of_le hle, List.replicate_zero, List.append_nil]

/-- What is written: the header and a body, the data and padding, that is cut to the data again. -/
theorem sendMessage_eq (heap : ℕ → UInt8) (m : Message) :
    ∃ body, resize body m.size.toNat = m.data ∧ headerSize + body.length = sizeWithPadding m ∧
      sendMessage heap m = uint32Bytes m.size ++ (uint32Bytes m.msgType ++ body) := by
  have hsize : headerSize + m.size.toNat ≤ sizeWithPadding m := by
    rw [sizeWithPadding]
    omega
  have hdata : m.data.take m.size.toNat = m.data :=
    List.take_of_length_le (Nat.le_of_eq m.data_length)
  refine ⟨m.data ++ ((List.range (sizeWithPadding m)).map heap).drop (headerSize + m.size.toNat),
    resize_append m.data_length, ?_, ?_⟩
  · simp only [List.length_append, m.data_length, List.length_drop, List.length_map,
      List.length_range]
    omega
  · rw [sendMessage, hdata]
    simp only [memcpyAt, List.take_zero, List.nil_append, Nat.zero_add, length_header]
    rw [List.take_left' (length_header m), List.append_assoc, m.data_length,
      List.drop_append, List.drop_of_length_le (by simp), List.nil_append, length_header,
      List.drop_drop, Nat.add_sub_cancel_left, Message.header, List.append_assoc]

/-- The reader's first block holds eight bytes of the body, and it reads the rest. -/
theorem length_body {m : Message} {body : List UInt8} (hmax : m.size ≤ maxMessageSize)
    (hlen : headerSize + body.length = sizeWithPadding m) :
    body.length = 8 + (remainingBytesWithPadding m.size).toNat := by
  have hremaining := remaining_add_bufferSize hmax
  rw [← sizeWithPadding, ← hlen, bufferSize, headerSize] at hremaining
  omega

/-- Every write is padded to a multiple of 16 bytes, and is the smallest that holds the message. -/
theorem length_sendMessage (heap : ℕ → UInt8) (m : Message) :
    (sendMessage heap m).length = sizeWithPadding m := by
  obtain ⟨body, -, hlen, heq⟩ := sendMessage_eq heap m
  rw [heq, ← hlen, ← List.append_assoc, List.length_append]
  rfl

/-! ## Reading a message from its bytes -/

theorem readMessage_of_lt {chunks : List (List UInt8)} (h : chunks.flatten.length < bufferSize) :
    readMessage chunks = .error .eof := by
  rw [readMessage, readExactly_of_lt h]
  rfl

/-- The first block holds the header and the first bytes of the body. -/
theorem readMessage_header {size msgType : UInt32} {body : List UInt8} {chunks : List (List UInt8)}
    (hbody : 8 ≤ body.length)
    (h : chunks.flatten = uint32Bytes size ++ (uint32Bytes msgType ++ body)) :
    ∃ chunks', readMessage chunks = readBody size msgType (body.take 8) chunks' ∧
      chunks'.flatten = body.drop 8 := by
  obtain ⟨body₀, rest, rfl, hlen⟩ : ∃ body₀ rest, body = body₀ ++ rest ∧ body₀.length = 8 :=
    ⟨body.take 8, body.drop 8, (List.take_append_drop 8 body).symm, List.length_take_of_le hbody⟩
  have hflat : chunks.flatten = (uint32Bytes size ++ (uint32Bytes msgType ++ body₀)) ++ rest := by
    rw [h, List.append_assoc, List.append_assoc]
  have hblock : (uint32Bytes size ++ (uint32Bytes msgType ++ body₀)).length = bufferSize := by
    simp [uint32Bytes, hlen, bufferSize]
  have hle : bufferSize ≤ chunks.flatten.length := by
    rw [hflat, List.length_append, hblock]
    exact Nat.le_add_right _ _
  obtain ⟨chunks', hread, hrest⟩ := readExactly_of_le hle
  rw [hflat, List.drop_left' hblock] at hrest
  rw [hflat, List.take_left' hblock] at hread
  refine ⟨chunks', ?_, by rw [hrest, List.drop_left' hlen]⟩
  have htype : (uint32Bytes size ++ (uint32Bytes msgType ++ body₀)).drop 4 =
      uint32Bytes msgType ++ body₀ := rfl
  have hdata : (uint32Bytes size ++ (uint32Bytes msgType ++ body₀)).drop headerSize = body₀ := rfl
  rw [readMessage, hread, List.take_left' hlen]
  simp only [Option.elim_some, pure_bind, htype, hdata, uint32Of_uint32Bytes]

/-- The body of a message and its padding, all of which is there. -/
theorem readBody_of_le {size msgType : UInt32} {first more rest : List UInt8}
    {chunks : List (List UInt8)} (hmax : size ≤ maxMessageSize)
    (hmore : more.length = (remainingBytesWithPadding size).toNat)
    (h : chunks.flatten = more ++ rest) :
    ∃ chunks', readBody size msgType first chunks =
      .ok (⟨size, msgType, resize (first ++ more) size.toNat, length_resize _ _⟩, chunks') ∧
      chunks'.flatten = rest := by
  rw [readBody, if_pos hmax]
  by_cases hzero : remainingBytesWithPadding size = 0
  · obtain rfl : more = [] := by
      rw [← List.length_eq_zero_iff, hmore, hzero]
      rfl
    exact ⟨chunks, by simp [hzero]; rfl, h⟩
  · have hle : (remainingBytesWithPadding size).toNat ≤ chunks.flatten.length := by
      rw [h, List.length_append, hmore]
      exact Nat.le_add_right _ _
    obtain ⟨chunks', hread, hrest⟩ := readExactly_of_le hle
    rw [h, List.take_left' hmore] at hread
    rw [h, List.drop_left' hmore] at hrest
    refine ⟨chunks', ?_, hrest⟩
    rw [if_pos hzero, hread]
    rfl

/-- The body of a message of which a part is missing. -/
theorem readBody_of_lt {size msgType : UInt32} {first : List UInt8} {chunks : List (List UInt8)}
    (hmax : size ≤ maxMessageSize)
    (h : chunks.flatten.length < (remainingBytesWithPadding size).toNat) :
    readBody size msgType first chunks = .error .eof := by
  have hzero : remainingBytesWithPadding size ≠ 0 := by
    rintro hzero
    rw [hzero] at h
    exact absurd h (Nat.not_lt_zero _)
  rw [readBody, if_pos hmax, if_pos hzero, readExactly_of_lt h]
  rfl

/-- **A message is read from its own bytes**, and what is behind them is left. -/
theorem readMessage_sendMessage {heap : ℕ → UInt8} {m : Message} {rest : List UInt8}
    {chunks : List (List UInt8)} (hmax : m.size ≤ maxMessageSize)
    (h : chunks.flatten = sendMessage heap m ++ rest) :
    ∃ chunks', readMessage chunks = .ok (m, chunks') ∧ chunks'.flatten = rest := by
  obtain ⟨body, hbody, hlen, heq⟩ := sendMessage_eq heap m
  have hbodylen := length_body hmax hlen
  rw [heq, List.append_assoc, List.append_assoc] at h
  obtain ⟨chunks₁, hread₁, hrest₁⟩ := readMessage_header (by simp; omega) h
  rw [List.take_append_of_le_length (by omega)] at hread₁
  rw [List.drop_append_of_le_length (by omega)] at hrest₁
  obtain ⟨chunks₂, hread₂, hrest₂⟩ := readBody_of_le hmax (by rw [List.length_drop]; omega) hrest₁
  refine ⟨chunks₂, ?_, hrest₂⟩
  rw [hread₁, hread₂]
  simp only [List.take_append_drop, hbody]

/-- No message is read from a part of its bytes. -/
theorem readMessage_take {heap : ℕ → UInt8} {m : Message} {n : ℕ} {chunks : List (List UInt8)}
    (hmax : m.size ≤ maxMessageSize) (hn : n < (sendMessage heap m).length)
    (h : chunks.flatten = (sendMessage heap m).take n) : readMessage chunks = .error .eof := by
  obtain ⟨body, -, hlen, heq⟩ := sendMessage_eq heap m
  have hbodylen := length_body hmax hlen
  rw [length_sendMessage, ← hlen, headerSize] at hn
  rcases Nat.lt_or_ge n 16 with hlt | hge
  · refine readMessage_of_lt ?_
    rw [h, List.length_take]
    exact Nat.lt_of_le_of_lt (Nat.min_le_left _ _) hlt
  · have hflat : chunks.flatten =
        uint32Bytes m.size ++ (uint32Bytes m.msgType ++ body.take (n - 8)) := by
      rw [h, heq, ← List.append_assoc, ← List.append_assoc, List.take_append,
        List.take_of_length_le (by simp [uint32Bytes]; omega)]
      rfl
    have hlen' : (body.take (n - 8)).length = n - 8 := List.length_take_of_le (by omega)
    obtain ⟨chunks₁, hread, hrest⟩ := readMessage_header (by omega) hflat
    rw [hread]
    refine readBody_of_lt hmax ?_
    rw [hrest, List.length_drop, hlen']
    omega

/-! ## The messages on the connection -/

/-- What was sent: messages, and what the buffer of each held when it was new. -/
def sentBytes (sent : List ((ℕ → UInt8) × Message)) : List UInt8 :=
  sent.flatMap fun s ↦ sendMessage s.1 s.2

/-- The loop hands on the messages whose bytes it reads, one after the other. -/
theorem readLoop_sent {S : Type} {onMessage : S → Message → Option S}
    (sent : List ((ℕ → UInt8) × Message)) :
    ∀ {rest : List UInt8} {chunks : List (List UInt8)} {s s' : S} (fuel : ℕ),
      (∀ x ∈ sent, x.2.size ≤ maxMessageSize) → chunks.flatten = sentBytes sent ++ rest →
      (sent.map Prod.snd).foldlM onMessage s = some s' →
      ∃ chunks', chunks'.flatten = rest ∧
        readLoop onMessage (sent.length + fuel) chunks s = readLoop onMessage fuel chunks' s' := by
  induction sent with
  | nil =>
    intro rest chunks s s' fuel _ hflat hfold
    obtain rfl : s = s' := by simpa using hfold
    exact ⟨chunks, hflat, by rw [List.length_nil, Nat.zero_add]⟩
  | cons x sent ih =>
    intro rest chunks s s' fuel hmax hflat hfold
    rw [sentBytes, List.flatMap_cons, ← sentBytes, List.append_assoc] at hflat
    obtain ⟨chunks₁, hread, hrest⟩ := readMessage_sendMessage (hmax x List.mem_cons_self) hflat
    rw [List.map_cons, List.foldlM_cons] at hfold
    obtain ⟨s₁, hs₁, hfold⟩ := Option.bind_eq_some_iff.1 hfold
    obtain ⟨chunks', hrest', hloop⟩ :=
      ih fuel (fun y hy ↦ hmax y (List.mem_cons_of_mem _ hy)) hrest hfold
    refine ⟨chunks', hrest', ?_⟩
    rw [List.length_cons, Nat.add_right_comm, readLoop, hread]
    simp only [hs₁]
    exact hloop

theorem foldlM_keepMessage (messages received : List Message) :
    messages.foldlM keepMessage received = some (received ++ messages) := by
  induction messages generalizing received with
  | nil => simp
  | cons m messages ih => simp [keepMessage, ih]

/-- **The messages that were sent are the messages that are read**, in their order, however the
stream was cut; every write is padded to a multiple of 16 bytes.  Where the connection ends within
a message, those before it are read, and nothing of it is taken for another one. -/
theorem message_framing_round_trip (sent : List ((ℕ → UInt8) × Message))
    (hmax : ∀ x ∈ sent, x.2.size ≤ maxMessageSize) :
    (∀ x ∈ sent, (sendMessage x.1 x.2).length = 16 * ((8 + x.2.data.length + 15) / 16)) ∧
    (∀ (chunks : List (List UInt8)) (fuel : ℕ), chunks.flatten = sentBytes sent →
      sent.length < fuel →
      readLoop keepMessage fuel chunks [] = some (sent.map Prod.snd, .eof)) ∧
    ∀ (heap : ℕ → UInt8) (next : Message) (n : ℕ) (chunks : List (List UInt8)) (fuel : ℕ),
      next.size ≤ maxMessageSize → n < (sendMessage heap next).length →
      chunks.flatten = sentBytes sent ++ (sendMessage heap next).take n → sent.length < fuel →
      readLoop keepMessage fuel chunks [] = some (sent.map Prod.snd, .eof) := by
  have hfold : (sent.map Prod.snd).foldlM keepMessage [] = some (sent.map Prod.snd) := by
    rw [foldlM_keepMessage, List.nil_append]
  have hloop : ∀ {rest : List UInt8} {chunks : List (List UInt8)} {fuel : ℕ},
      (∀ chunks' : List (List UInt8), chunks'.flatten = rest → readMessage chunks' = .error .eof) →
      chunks.flatten = sentBytes sent ++ rest → sent.length < fuel →
      readLoop keepMessage fuel chunks [] = some (sent.map Prod.snd, .eof) := by
    intro rest chunks fuel hend hflat hfuel
    obtain ⟨fuel, rfl⟩ := Nat.exists_eq_add_of_lt hfuel
    obtain ⟨chunks', hrest, hrun⟩ := readLoop_sent sent (fuel + 1) hmax hflat hfold
    rw [Nat.add_assoc, hrun, readLoop, hend chunks' hrest]
  refine ⟨fun x _ ↦ ?_, fun chunks fuel hflat hfuel ↦ ?_,
    fun heap next n chunks fuel hnext hn hflat hfuel ↦ ?_⟩
  · rw [length_sendMessage, sizeWithPadding, x.2.data_length, headerSize]
  · refine hloop (fun chunks' hrest ↦ readMessage_of_lt ?_) (by rw [hflat, List.append_nil]) hfuel
    rw [hrest]
    exact Nat.zero_lt_succ _
  · exact hloop (fun chunks' hrest ↦ readMessage_take hnext hn hrest) hflat hfuel

/-- A message of one byte. -/
def shortMessage : Message := ⟨1, 5000, [7], rfl⟩

/-- Its bytes, cut within the header. -/
example : readLoop keepMessage 2
    [[1, 0, 0], [0, 136, 19, 0, 0, 7, 9], [9, 9, 9, 9, 9, 9]] [] =
    some ([shortMessage], .eof) := by decide

theorem message_framing_round_trip_short :
    (∀ x ∈ [((fun _ ↦ 9 : ℕ → UInt8), shortMessage)],
      (sendMessage x.1 x.2).length = 16 * ((8 + x.2.data.length + 15) / 16)) ∧
    (∀ (chunks : List (List UInt8)) (fuel : ℕ),
      chunks.flatten = sentBytes [(fun _ ↦ 9, shortMessage)] → 1 < fuel →
      readLoop keepMessage fuel chunks [] = some ([shortMessage], .eof)) ∧
    ∀ (heap : ℕ → UInt8) (next : Message) (n : ℕ) (chunks : List (List UInt8)) (fuel : ℕ),
      next.size ≤ maxMessageSize → n < (sendMessage heap next).length →
      chunks.flatten = sentBytes [(fun _ ↦ 9, shortMessage)] ++ (sendMessage heap next).take n →
      1 < fuel → readLoop keepMessage fuel chunks [] = some ([shortMessage], .eof) :=
  message_framing_round_trip [(fun _ ↦ 9, shortMessage)] (by decide)

end Graphene
