import RustRaknet.Acks
import RustRaknet.Address
import RustRaknet.Recv.Queue
import RustRaknet.Socket.Worker

/-! # Acknowledging what was received

`socket.rs`: the loop of `start_receiver` and `DatagramInput`, with what `Worker` leaves out: where
the datagrams come from, the `RecvQ` they go to and when its acknowledgements are sent. A counter
starts when a frame set is accepted; it is at work in three places (the top of the loop, every
datagram taken, and the frame sets), and the worker waits for input in between.

A move is one step of the worker; between two of them datagrams arrive, the maintenance task takes
the missing ranges, and the application reads or closes. The `SendQ` side of an `ACK` or a `NACK`
has no part in this. -/

namespace RustRaknet.Socket

open RustRaknet.Packet RustRaknet.Frame RustRaknet.Recv RustRaknet.Indexes
open RustRaknet.Lib.Machine RustRaknet.Lib.Ranges

/-! ### The input -/

/-- What a receive call on the UDP socket gives: a datagram, the error 10040 of Windows for one that
is too long, or another error. -/
inductive Arrival
  | datagram (source : SocketAddr) (packet : Bytes)
  | oversized
  | failed
  deriving DecidableEq, Repr

/-- `DirectDatagrams`. The buffers hold `packet[..length]` and `queued[..queued_length]`; `socket`
is what the kernel has for the UDP socket. -/
structure DirectDatagrams where
  socket : List Arrival
  peer : SocketAddr
  packet : Bytes
  queued : Bytes
  error : Bool
  deriving DecidableEq, Repr

/-- `DatagramInput`. `connected` says that the channel still has a sender: the listener, or the
fragment worker, which takes the datagrams from the UDP socket. -/
inductive DatagramInput
  | channel (receiver : List Bytes) (connected : Bool) (packet : Bytes)
  | direct (input : DirectDatagrams)
  deriving DecidableEq, Repr

/-- The outcome of `DatagramInput::recv`. -/
inductive Received
  | pending
  | datagram
  | closed
  | failed
  deriving DecidableEq, Repr

namespace DirectDatagrams

/-- `source == input.peer && length != 0`, for a datagram in a buffer of 2,048 bytes. -/
def accepts (d : DirectDatagrams) (source : SocketAddr) (packet : Bytes) : Bool :=
  source == d.peer && !(packet.take 2048).isEmpty

/-- The loop of `should_flush_ack`, for the turns left to it. -/
def readAhead : ℕ → DirectDatagrams → Bool × DirectDatagrams
  | 0, d => (true, d)
  | n + 1, d =>
    match d.socket with
    | [] => (true, d)
    | .datagram source packet :: rest =>
      if d.accepts source packet then
        (false, { d with socket := rest, queued := packet.take 2048 })
      else readAhead n { d with socket := rest }
    | .oversized :: rest => readAhead n { d with socket := rest }
    | .failed :: rest => (true, { d with socket := rest, error := true })

/-- The loop of `recv` over what the kernel has. -/
def recvFrom (d : DirectDatagrams) : List Arrival → Received × DirectDatagrams
  | [] => (.pending, { d with socket := [] })
  | .datagram source packet :: rest =>
    if d.accepts source packet then
      (.datagram, { d with socket := rest, packet := packet.take 2048 })
    else d.recvFrom rest
  | .oversized :: rest => d.recvFrom rest
  | .failed :: rest => (.failed, { d with socket := rest })

end DirectDatagrams

namespace DatagramInput

/-- The input of a new connection: the channel of the listener, or the client's UDP socket. -/
def new : Option SocketAddr → DatagramInput
  | none => .channel [] true []
  | some peer => .direct ⟨[], peer, [], [], false⟩

/-- `DatagramInput::packet`. -/
def packet : DatagramInput → Bytes
  | .channel _ _ packet => packet
  | .direct d => d.packet

/-- `DatagramInput::should_flush_ack`. -/
def shouldFlushAck : DatagramInput → Bool × DatagramInput
  | .channel receiver connected packet => (receiver.isEmpty, .channel receiver connected packet)
  | .direct d =>
    if !d.queued.isEmpty then (false, .direct d)
    else if d.error then (true, .direct d)
    else
      let (flush, d) := d.readAhead 32
      (flush, .direct d)

/-- `DatagramInput::recv`. -/
def recv : DatagramInput → Received × DatagramInput
  | .channel [] true packet => (.pending, .channel [] true packet)
  | .channel [] false packet => (.closed, .channel [] false packet)
  | .channel (packet :: rest) connected _ => (.datagram, .channel rest connected packet)
  | .direct d =>
    if d.error then (.failed, .direct { d with error := false })
    else if !d.queued.isEmpty then
      (.datagram, .direct { d with packet := d.queued, queued := [] })
    else
      let (received, d) := d.recvFrom d.socket
      (received, .direct d)

/-- `DatagramInput::enable_fragment_worker`. A datagram read ahead goes to the channel like those
that the fragment worker takes from the UDP socket. -/
def enableFragmentWorker : DatagramInput → DatagramInput
  | .direct _ => .channel [] true []
  | input => input

/-- `DatagramInput::decode_into`. The owned decoder takes the packet. -/
def decodeInto : DatagramInput → Except RaknetError (List FrameSetPacket) × DatagramInput
  | .channel receiver connected packet =>
    (Codec.decodeInto packet, .channel receiver connected [])
  | .direct d => (Codec.decodeInto d.packet, .direct d)

/-- Something reaches the UDP socket. -/
def arrive (a : Arrival) : DatagramInput → DatagramInput
  | .direct d => .direct { d with socket := d.socket ++ [a] }
  | input => input

/-- A datagram is put in the channel. Neither the listener nor the fragment worker passes on an
empty one. -/
def deliver (packet : Bytes) : DatagramInput → DatagramInput
  | .channel receiver connected current =>
    if packet.isEmpty then .channel receiver connected current
    else .channel (receiver ++ [packet]) connected current
  | input => input

/-- The sender of the channel is dropped. -/
def disconnect : DatagramInput → DatagramInput
  | .channel receiver _ packet => .channel receiver false packet
  | input => input

/-- A datagram is there to be taken. -/
def Available : DatagramInput → Prop
  | .channel receiver _ _ => receiver ≠ []
  | .direct d => d.queued ≠ [] ∨
      ∃ source packet, .datagram source packet ∈ d.socket ∧ d.accepts source packet = true

end DatagramInput

/-! ### The worker -/

/-- Where the worker stands: at the top of the loop, in the `select!`, with a datagram it has taken,
with decoded frames before the lock of `RecvQ`, or in the loop over `ready_frames`. -/
inductive Phase
  | top
  | waiting
  | received
  | accepted (frames : List FrameSetPacket)
  | delivering
  | ended

/-- The receive worker. As a history: how many datagrams it has taken, the ranges taken from the ACK
set, those passed to `send_ack_ranges`, and the datagram numbers accepted and not yet passed, each
with the count of datagrams when it was accepted. -/
structure ReceiveLoop where
  input : DatagramInput
  recvq : RecvQ
  worker : Worker
  phase : Phase
  receivedSinceAck : ℕ
  acks : List (ℕ × ℕ)
  processed : ℕ
  taken : List (ℕ × ℕ)
  passed : List (ℕ × ℕ)
  unacknowledged : List (ℕ × ℕ)

/-- A move of the worker. -/
inductive Move
  | top
  | receive
  | reserve
  | stop
  | process
  | insert
  | dispatch
  | send
  | abandon
  | finish
  deriving DecidableEq, Repr

/-- What may happen. -/
inductive LoopAction
  | worker (m : Move)
  | arrive (a : Arrival)
  | deliver (packet : Bytes)
  | disconnect
  | takeNack
  | recv
  | dropReceiver
  | close
  deriving DecidableEq, Repr

/-- The loop over `decoded_frames`: the frames that have become ready, and whether one was
rejected. -/
def insertAll : RecvQ → List FrameSetPacket → List FrameSetPacket →
    List FrameSetPacket × Bool × RecvQ
  | recvq, ready, [] => (ready, false, recvq)
  | recvq, ready, frame :: rest =>
    match recvq.insert frame with
    | (.error _, recvq) => (ready, true, recvq)
    | (.ok (), recvq) =>
      let (out, recvq) := recvq.flushInto
      insertAll recvq (ready ++ out) rest

instance (l : List (ℕ × ℕ)) : DecidablePred (Covers l) := fun x =>
  inferInstanceAs (Decidable (∃ r ∈ l, r.1 ≤ x ∧ x ≤ r.2))

namespace ReceiveLoop

/-- A new connection. -/
def new (peer : Option SocketAddr) : ReceiveLoop where
  input := .new peer
  recvq := .new
  worker := .new
  phase := .top
  receivedSinceAck := 0
  acks := []
  processed := 0
  taken := []
  passed := []
  unacknowledged := []

variable (r : ReceiveLoop)

/-- `recvq.take_ack_into(&mut acks)`. -/
def takeAck : ReceiveLoop :=
  let (acks, recvq) := r.recvq.takeAckInto
  { r with acks, recvq, taken := r.taken ++ acks }

/-- `send_ack_ranges(&acks)`. -/
def sendAckRanges : ReceiveLoop :=
  { r with
    passed := r.passed ++ r.acks
    unacknowledged := r.unacknowledged.filter fun u => ¬ Covers r.acks u.1 }

/-- `connected.close()` and `break`. -/
def shut : ReceiveLoop := { r with worker := r.worker.shut, phase := .ended }

/-- The top of the loop. -/
def top : ReceiveLoop :=
  if r.receivedSinceAck ≠ 0 then
    let (flush, input) := r.input.shouldFlushAck
    if flush ∨ 32 ≤ r.receivedSinceAck then
      { ({ r with input } : ReceiveLoop).takeAck.sendAckRanges with
        receivedSinceAck := 0
        phase := .waiting }
    else { r with input, phase := .waiting }
  else { r with phase := .waiting }

/-- The arm `receiver.recv()` of the `select!`, and what follows an end of the input. -/
def receive : ReceiveLoop :=
  match r.input.recv with
  | (.pending, input) => { r with input }
  | (.datagram, input) => { r with input, phase := .received, processed := r.processed + 1 }
  | (.closed, input) => ({ r with input } : ReceiveLoop).shut
  | (.failed, input) => ({ r with input } : ReceiveLoop).shut

/-- The arm `user_data_sender.reserve()`, which is there when something is pending. -/
def reserve : ReceiveLoop :=
  if r.worker.pendingData ≠ [] ∧
      (r.worker.receiverOpen = false ∨ r.worker.channel.length < channelSize) then
    { r with
      worker := r.worker.reserve
      phase := if r.worker.reserve.running then .top else .ended }
  else r

/-- The arm `connected.acquire()`. -/
def stop : ReceiveLoop :=
  if r.worker.connected then r
  else { r with worker := r.worker.step .stop, phase := .ended }

/-- A frame set up to the lock of `RecvQ`. -/
def accept : ReceiveLoop :=
  if 1024 * 1024 ≤ r.worker.pendingBytes ∨ 4096 ≤ r.worker.pendingData.length then
    { r with phase := .top }
  else
    match r.input.decodeInto with
    | (.error _, input) => { r with input, phase := .top }
    | (.ok frames, input) =>
      { r with
        input := if frames.any FrameSetPacket.isFragment then input.enableFragmentWorker else input
        receivedSinceAck := if r.receivedSinceAck = 0 then 1 else r.receivedSinceAck
        phase := .accepted frames }

/-- The counter and the `match` on the packet identifier. -/
def process : ReceiveLoop :=
  match r.input.packet with
  | [] => { r with phase := .top }
  | id :: _ =>
    let r := { r with
      receivedSinceAck := if r.receivedSinceAck ≠ 0 then r.receivedSinceAck + 1 else 0 }
    match PacketID.tryFrom id with
    | .error _ => { r with phase := .top }
    | .ok .disconnect => r.shut
    | .ok .frameSetPacketBegin => r.accept
    | .ok _ => { r with phase := .top }

/-- The section under the lock of `RecvQ`, and the end of the connection when a frame was
rejected. -/
def insert (frames : List FrameSetPacket) : ReceiveLoop :=
  let (ready, invalid, recvq) := insertAll r.recvq [] frames
  let (flush, input) := r.input.shouldFlushAck
  let r := { r with
    recvq
    input
    unacknowledged := r.unacknowledged ++
      (frames.head?.map fun frame : FrameSetPacket =>
        (frame.sequenceNumber, r.processed)).toList }
  let r :=
    if flush ∨ 32 ≤ r.receivedSinceAck then { r.takeAck with receivedSinceAck := 0 }
    else { r with acks := [] }
  if invalid then r.shut
  else
    { r with
      worker := r.worker.step (.release (ready.map fun frame : FrameSetPacket => frame.data.deref))
      phase := .delivering }

/-- After the loop over `ready_frames`, or when the connection is to be closed. -/
def finish : ReceiveLoop :=
  if (r.worker.readyFrames = [] ∧ r.worker.sending = none) ∨ r.worker.running = false then
    { r.sendAckRanges with phase := if r.worker.running then .top else .ended }
  else r

/-- One move of the worker, where it stands. -/
def move (m : Move) : ReceiveLoop :=
  match r.phase, m with
  | .top, .top => r.top
  | .waiting, .receive => r.receive
  | .waiting, .reserve => r.reserve
  | .waiting, .stop => r.stop
  | .received, .process => r.process
  | .accepted frames, .insert => r.insert frames
  | .delivering, .dispatch => { r with worker := r.worker.step .dispatch }
  | .delivering, .send => { r with worker := r.worker.step .send }
  | .delivering, .abandon => { r with worker := r.worker.step .abandon }
  | .delivering, .finish => r.finish
  | _, _ => r

/-- One action. -/
def step : LoopAction → ReceiveLoop
  | .worker m => r.move m
  | .arrive a => { r with input := r.input.arrive a }
  | .deliver packet => { r with input := r.input.deliver packet }
  | .disconnect => { r with input := r.input.disconnect }
  | .takeNack => { r with recvq := r.recvq.takeNackInto.2 }
  | .recv => { r with worker := r.worker.step .recv }
  | .dropReceiver => { r with worker := r.worker.step .dropReceiver }
  | .close => { r with worker := r.worker.step .close }

/-- A move changes the receive queue only where it takes the acknowledgements or inserts. -/
theorem move_recvq (m : Move) :
    (r.move m).recvq = r.recvq ∨ (r.move m).recvq = r.recvq.takeAckInto.2 ∨
      ∃ frames, r.move m = r.insert frames := by
  unfold move
  split
  · unfold top
    simp only
    split_ifs
    · exact .inr (.inl rfl)
    · exact .inl rfl
    · exact .inl rfl
  · unfold receive
    split <;> exact .inl rfl
  · unfold reserve
    split_ifs <;> exact .inl rfl
  · unfold stop
    split_ifs <;> exact .inl rfl
  · have haccept (r : ReceiveLoop) : r.accept.recvq = r.recvq := by
      unfold accept
      split
      · rfl
      · split <;> rfl
    unfold process
    refine .inl ?_
    repeat' split
    all_goals first | rfl | exact haccept _
  · exact .inr (.inr ⟨_, rfl⟩)
  · exact .inl rfl
  · exact .inl rfl
  · exact .inl rfl
  · unfold finish
    split_ifs <;> exact .inl rfl
  · exact .inl rfl

/-- The ACK set of `RecvQ`. -/
def ackSet : List (ℕ × ℕ) := r.recvq.sequenceNumberAckset.ack

end ReceiveLoop

/-- The worker after the given actions. -/
abbrev runLoop (peer : Option SocketAddr) (actions : List LoopAction) : ReceiveLoop :=
  run ReceiveLoop.step (.new peer) actions

/-! ### The input keeps what it has announced -/

/-- The next `recv` gives a datagram without waiting. -/
def DatagramInput.Ready : DatagramInput → Prop
  | .channel receiver _ _ => receiver ≠ []
  | .direct d => d.queued ≠ []

theorem DatagramInput.Ready.available {i : DatagramInput} (h : i.Ready) : i.Available := by
  cases i with
  | channel => exact h
  | direct d => exact .inl h

theorem DirectDatagrams.accepts_packet {d : DirectDatagrams} {source : SocketAddr} {packet : Bytes}
    (h : d.accepts source packet = true) : packet.take 2048 ≠ [] := by
  simp only [accepts, Bool.and_eq_true, Bool.not_eq_true', List.isEmpty_eq_false_iff] at h
  exact h.2

theorem DirectDatagrams.readAhead_ready (n : ℕ) (d : DirectDatagrams)
    (h : (d.readAhead n).1 = false) : (d.readAhead n).2.queued ≠ [] := by
  induction n generalizing d with
  | zero => cases h
  | succ n ih =>
    unfold readAhead at h ⊢
    rcases hsocket : d.socket with _ | ⟨⟨source, packet⟩ | _ | _, rest⟩
    · simp [hsocket] at h
    · simp only [hsocket] at h ⊢
      by_cases haccepts : d.accepts source packet = true
      · rw [if_pos haccepts]
        exact accepts_packet haccepts
      · rw [if_neg haccepts] at h ⊢
        exact ih _ h
    · simp only [hsocket] at h ⊢
      exact ih _ h
    · simp [hsocket] at h

/-- **No flush, no wait**: when the acknowledgements are held back, a datagram is there. -/
theorem DatagramInput.shouldFlushAck_ready {i : DatagramInput} (h : i.shouldFlushAck.1 = false) :
    i.shouldFlushAck.2.Ready := by
  cases i with
  | channel receiver connected packet =>
    exact fun hnil => absurd h (by simp [shouldFlushAck, hnil])
  | direct d =>
    unfold shouldFlushAck at h ⊢
    simp only at h ⊢
    split_ifs at h ⊢ with hqueued herror
    · exact fun hnil => absurd hqueued (by simp [hnil])
    · exact d.readAhead_ready 32 h

theorem DatagramInput.Ready.arrive {i : DatagramInput} (h : i.Ready) (a : Arrival) :
    (i.arrive a).Ready := by
  cases i <;> exact h

theorem DatagramInput.Ready.deliver {i : DatagramInput} (h : i.Ready) (packet : Bytes) :
    (i.deliver packet).Ready := by
  cases i with
  | channel receiver connected current =>
    unfold DatagramInput.deliver
    simp only
    split_ifs
    · exact h
    · exact fun hnil => h (List.append_eq_nil_iff.mp hnil).1
  | direct d => exact h

theorem DatagramInput.Ready.disconnect {i : DatagramInput} (h : i.Ready) : i.disconnect.Ready := by
  cases i <;> exact h

theorem DatagramInput.Ready.recv {i : DatagramInput} (h : i.Ready) : i.recv.1 ≠ .pending := by
  cases i with
  | channel receiver connected packet =>
    rcases receiver with _ | ⟨first, rest⟩
    · exact absurd rfl h
    · exact fun hp => by cases hp
  | direct d =>
    have hqueued : d.queued ≠ [] := h
    unfold DatagramInput.recv
    simp only [List.isEmpty_eq_false_iff.mpr hqueued, Bool.not_false, if_true]
    split_ifs <;> exact fun hp => by cases hp

/-- No empty datagram is there to be taken. -/
def DatagramInput.Filled : DatagramInput → Prop
  | .channel receiver _ _ => [] ∉ receiver
  | .direct _ => True

theorem DirectDatagrams.recvFrom_packet {d : DirectDatagrams} {l : List Arrival}
    (h : (d.recvFrom l).1 = .datagram) : (d.recvFrom l).2.packet ≠ [] := by
  induction l with
  | nil => cases h
  | cons a rest ih =>
    rcases a with ⟨source, packet⟩ | _ | _
    · unfold recvFrom at h ⊢
      by_cases haccepts : d.accepts source packet = true
      · rw [if_pos haccepts]
        exact accepts_packet haccepts
      · rw [if_neg haccepts] at h ⊢
        exact ih h
    · exact ih h
    · cases h

/-- A datagram that is taken is not empty, and the others stay as they are. -/
theorem DatagramInput.Filled.recv {i : DatagramInput} (h : i.Filled) :
    i.recv.2.Filled ∧ (i.recv.1 = .datagram → i.recv.2.packet ≠ []) := by
  cases i with
  | channel receiver connected packet =>
    rcases receiver with _ | ⟨first, rest⟩
    · cases connected
      · exact ⟨h, fun hreceived => by cases hreceived⟩
      · exact ⟨h, fun hreceived => by cases hreceived⟩
    · have hboth : [] ≠ first ∧ [] ∉ rest := by simpa [DatagramInput.Filled] using h
      exact ⟨hboth.2, fun _ => hboth.1.symm⟩
  | direct d =>
    unfold DatagramInput.recv
    simp only
    split_ifs with herror hqueued
    · exact ⟨trivial, fun hreceived => by cases hreceived⟩
    · exact ⟨trivial, fun _ => by simpa [DatagramInput.packet] using hqueued⟩
    · exact ⟨trivial, DirectDatagrams.recvFrom_packet⟩

theorem DatagramInput.Filled.shouldFlushAck {i : DatagramInput} (h : i.Filled) :
    i.shouldFlushAck.2.Filled := by
  cases i with
  | channel => exact h
  | direct d =>
    unfold DatagramInput.shouldFlushAck
    simp only
    split_ifs <;> trivial

theorem DatagramInput.Filled.decodeInto {i : DatagramInput} (h : i.Filled) :
    i.decodeInto.2.Filled := by
  cases i <;> exact h

theorem DatagramInput.Filled.enableFragmentWorker {i : DatagramInput} (h : i.Filled) :
    i.enableFragmentWorker.Filled := by
  cases i with
  | channel => exact h
  | direct d => exact List.not_mem_nil

theorem DatagramInput.Filled.deliver {i : DatagramInput} (h : i.Filled) (packet : Bytes) :
    (i.deliver packet).Filled := by
  cases i with
  | channel receiver connected current =>
    unfold DatagramInput.deliver
    simp only
    split_ifs with hempty
    · exact h
    · intro hmem
      rcases List.mem_append.mp hmem with hmem | hmem
      · exact h hmem
      · exact hempty (by simp [← List.mem_singleton.mp hmem])
  | direct d => exact h

/-! ### What a frame set adds to the ACK set -/

/-- A frame set without a rejected frame adds its number. -/
theorem insertAll_acks {s : ℕ} (hs : s < 16777216) {frames ready ready' : List FrameSetPacket}
    {q q' : RecvQ} (hframes : ∀ f ∈ frames, f.sequenceNumber = s)
    (hq : Indexes.Ordered q.sequenceNumberAckset.ack)
    (h : insertAll q ready frames = (ready', false, q')) :
    Indexes.Ordered q'.sequenceNumberAckset.ack ∧
      ∀ x, Covers q'.sequenceNumberAckset.ack x ↔
        Covers q.sequenceNumberAckset.ack x ∨ (frames ≠ [] ∧ x = s) := by
  induction frames generalizing q ready with
  | nil =>
    simp only [insertAll, Prod.mk.injEq, true_and] at h
    obtain ⟨-, rfl⟩ := h
    exact ⟨hq, by simp⟩
  | cons frame rest ih =>
    unfold insertAll at h
    rcases hinsert : q.insert frame with ⟨e | ⟨⟩, q₁⟩
    · simp [hinsert] at h
    · simp only [hinsert] at h
      obtain ⟨r, hr⟩ := reliability_of_insert hinsert
      have hacks : q₁.sequenceNumberAckset.ack = AckSet.insertAck s q.sequenceNumberAckset.ack := by
        have hset := insert_acks (q := q) hr
        rw [hinsert] at hset
        rw [show q₁.sequenceNumberAckset = _ from hset, insert_ack, hframes frame (by simp)]
      obtain ⟨hordered, hcovers⟩ := insertAck_spec hs hq
      rw [← hacks] at hordered hcovers
      obtain ⟨hordered', hcovers'⟩ :=
        ih (q := q₁.flushInto.2) (fun f hf => hframes f (by simp [hf])) hordered h
      refine ⟨hordered', fun x => ?_⟩
      rw [hcovers' x]
      show Covers q₁.sequenceNumberAckset.ack x ∨ _ ↔ _
      rw [hcovers x]
      simp only [ne_eq, reduceCtorEq, not_false_eq_true, true_and]
      tauto

/-! ### What holds where the worker stands -/

/-- The books outside the loop over `ready_frames`, when `late` datagrams are taken and not counted:
every number accepted and not passed is in the ACK set, which is empty when nothing is counted, and
the counter has counted the datagrams since it was accepted. -/
structure Counted (r : ReceiveLoop) (late : ℕ) : Prop where
  ordered : Indexes.Ordered r.ackSet
  clear : r.receivedSinceAck = 0 → r.ackSet = []
  owed : ∀ u ∈ r.unacknowledged,
    Covers r.ackSet u.1 ∧ r.processed < u.2 + r.receivedSinceAck + late

theorem Counted.congr {r r' : ReceiveLoop} {late : ℕ} (h : Counted r late)
    (hacks : r'.ackSet = r.ackSet) (hcount : r'.receivedSinceAck = r.receivedSinceAck)
    (hprocessed : r'.processed = r.processed)
    (howed : r'.unacknowledged = r.unacknowledged) : Counted r' late := by
  refine ⟨hacks ▸ h.ordered, fun hzero => hacks.trans (h.clear (hcount ▸ hzero)), ?_⟩
  rw [howed, hacks, hcount, hprocessed]
  exact h.owed

theorem Counted.settled {r : ReceiveLoop} {late : ℕ} (h : Counted r late)
    (hcount : r.receivedSinceAck = 0) : r.ackSet = [] ∧ r.unacknowledged = [] := by
  refine ⟨h.clear hcount, List.eq_nil_iff_forall_not_mem.mpr fun u hu => ?_⟩
  have hcovers := (h.owed u hu).1
  rw [h.clear hcount] at hcovers
  exact covers_nil hcovers

/-- The acknowledgements are taken from the ACK set and not yet passed. -/
structure Claimed (r : ReceiveLoop) : Prop where
  count : r.receivedSinceAck = 0
  clear : r.ackSet = []
  owed : ∀ u ∈ r.unacknowledged, Covers r.acks u.1 ∧ r.processed < u.2 + 32

/-- What holds where the worker stands. -/
def Stands (r : ReceiveLoop) : Prop :=
  match r.phase with
  | .top => Counted r 0 ∧ r.receivedSinceAck ≤ 32 ∧ r.passed = r.taken ∧ r.input.Filled
  | .waiting => Counted r 0 ∧ r.receivedSinceAck < 32 ∧ r.passed = r.taken ∧ r.input.Filled ∧
      (r.receivedSinceAck ≠ 0 → r.input.Ready)
  | .received => Counted r 1 ∧ r.receivedSinceAck < 32 ∧ r.passed = r.taken ∧ r.input.Filled ∧
      r.input.packet ≠ []
  | .accepted frames => Counted r 0 ∧ (0 < r.receivedSinceAck ∧ r.receivedSinceAck ≤ 32) ∧
      r.passed = r.taken ∧ r.input.Filled ∧
      ∃ s < 16777216, frames ≠ [] ∧ ∀ f ∈ frames, f.sequenceNumber = s
  | .delivering => r.passed ++ r.acks = r.taken ∧ r.input.Filled ∧
      ((Counted r 0 ∧ r.receivedSinceAck ≤ 32 ∧ r.acks = []) ∨ Claimed r)
  | .ended => ∀ u ∈ r.unacknowledged, r.processed < u.2 + 32

namespace Stands

variable {r : ReceiveLoop}

/-- What others do keeps the books. -/
theorem outside (h : Stands r) {input : DatagramInput} {recvq : RecvQ} {worker : Worker}
    (hacks : recvq.sequenceNumberAckset.ack = r.ackSet) (hfilled : r.input.Filled → input.Filled)
    (hpacket : input.packet = r.input.packet) (hready : r.input.Ready → input.Ready) :
    Stands { r with input, recvq, worker } := by
  obtain ⟨_, _, _, phase, _, _, _, _, _, _⟩ := r
  cases phase with
  | top => exact ⟨h.1.congr hacks rfl rfl rfl, h.2.1, h.2.2.1, hfilled h.2.2.2⟩
  | waiting =>
    exact ⟨h.1.congr hacks rfl rfl rfl, h.2.1, h.2.2.1, hfilled h.2.2.2.1,
      fun hcount => hready (h.2.2.2.2 hcount)⟩
  | received =>
    exact ⟨h.1.congr hacks rfl rfl rfl, h.2.1, h.2.2.1, hfilled h.2.2.2.1, hpacket ▸ h.2.2.2.2⟩
  | accepted frames =>
    exact ⟨h.1.congr hacks rfl rfl rfl, h.2.1, h.2.2.1, hfilled h.2.2.2.1, h.2.2.2.2⟩
  | delivering =>
    refine ⟨h.1, hfilled h.2.1, ?_⟩
    rcases h.2.2 with ⟨hcounted, hcount, hnil⟩ | hclaimed
    · exact .inl ⟨hcounted.congr hacks rfl rfl rfl, hcount, hnil⟩
    · exact .inr ⟨hclaimed.count, hacks.trans hclaimed.clear, hclaimed.owed⟩
  | ended => exact h

theorem application (h : Stands r) (worker : Worker) : Stands { r with worker } :=
  h.outside rfl id rfl id

theorem of_ended {late : ℕ} (h : Counted r late) (hphase : r.phase = .ended)
    (hcount : r.receivedSinceAck + late ≤ 32) : Stands r := by
  unfold Stands
  rw [hphase]
  intro u hu
  have howed := (h.owed u hu).2
  omega

theorem top (h : Stands r) (hphase : r.phase = .top) : Stands r.top := by
  unfold Stands at h
  rw [hphase] at h
  obtain ⟨hcounted, hlimit, hhistory, hfilled⟩ := h
  unfold ReceiveLoop.top
  by_cases hcount : r.receivedSinceAck ≠ 0
  · rw [if_pos hcount]
    have hready := DatagramInput.shouldFlushAck_ready (i := r.input)
    have hfilled' := hfilled.shouldFlushAck
    generalize r.input.shouldFlushAck = flushed at hready hfilled'
    obtain ⟨flush, input⟩ := flushed
    simp only
    split_ifs with hflush
    · -- everything owed is in the ranges that are passed
      refine ⟨⟨fun x hx => absurd hx List.not_mem_nil, fun _ => rfl, fun u hu => ?_⟩,
        Nat.zero_lt_succ _, ?_, hfilled', fun h => absurd rfl h⟩
      · obtain ⟨hmem, hcovers⟩ := List.mem_filter.mp hu
        exact absurd (hcounted.owed u hmem).1 (of_decide_eq_true hcovers)
      · exact congrArg (· ++ r.ackSet) hhistory
    · rw [not_or] at hflush
      exact ⟨hcounted.congr rfl rfl rfl rfl, not_le.mp hflush.2, hhistory, hfilled',
        fun _ => hready (by simpa using hflush.1)⟩
  · rw [if_neg hcount]
    have hzero : r.receivedSinceAck = 0 := not_not.mp hcount
    exact ⟨hcounted.congr rfl rfl rfl rfl, by simp [hzero], hhistory, hfilled,
      fun h => absurd h hcount⟩

theorem receive (h : Stands r) (hphase : r.phase = .waiting) : Stands r.receive := by
  unfold Stands at h
  rw [hphase] at h
  obtain ⟨hcounted, hlimit, hhistory, hfilled, hready⟩ := h
  obtain ⟨hfilled', hpacket⟩ := hfilled.recv
  have hpending : r.input.recv.1 = .pending → ¬ r.input.Ready :=
    fun hp hr => hr.recv hp
  unfold ReceiveLoop.receive
  generalize r.input.recv = got at hfilled' hpacket hpending
  obtain ⟨received, input⟩ := got
  cases received with
  | pending =>
    unfold Stands
    simp only [hphase]
    exact ⟨hcounted.congr rfl rfl rfl rfl, hlimit, hhistory, hfilled',
      fun hcount => absurd (hready hcount) (hpending rfl)⟩
  | datagram =>
    refine ⟨⟨hcounted.ordered, hcounted.clear, fun u hu => ⟨(hcounted.owed u hu).1, ?_⟩⟩, hlimit,
      hhistory, hfilled', hpacket rfl⟩
    have howed := (hcounted.owed u hu).2
    show r.processed + 1 < u.2 + r.receivedSinceAck + 1
    omega
  | closed | failed => exact of_ended (hcounted.congr rfl rfl rfl rfl) rfl hlimit.le

theorem reserve (h : Stands r) (hphase : r.phase = .waiting) : Stands r.reserve := by
  have hsame := h
  unfold Stands at h
  rw [hphase] at h
  obtain ⟨hcounted, hlimit, hhistory, hfilled, hready⟩ := h
  unfold ReceiveLoop.reserve
  by_cases hroom : r.worker.pendingData ≠ [] ∧
      (r.worker.receiverOpen = false ∨ r.worker.channel.length < channelSize)
  · rw [if_pos hroom]
    cases hrunning : r.worker.reserve.running with
    | true => exact ⟨hcounted.congr rfl rfl rfl rfl, hlimit.le, hhistory, hfilled⟩
    | false => exact of_ended (hcounted.congr rfl rfl rfl rfl) rfl hlimit.le
  · rwa [if_neg hroom]

theorem stop (h : Stands r) (hphase : r.phase = .waiting) : Stands r.stop := by
  have hsame := h
  unfold Stands at h
  rw [hphase] at h
  obtain ⟨hcounted, hlimit, -⟩ := h
  unfold ReceiveLoop.stop
  split_ifs
  · exact hsame
  · exact of_ended (hcounted.congr rfl rfl rfl rfl) rfl hlimit.le

theorem of_top (h : Counted r 0) (hphase : r.phase = .top) (hlimit : r.receivedSinceAck ≤ 32)
    (hhistory : r.passed = r.taken) (hfilled : r.input.Filled) : Stands r := by
  unfold Stands
  rw [hphase]
  exact ⟨h, hlimit, hhistory, hfilled⟩

theorem accept (h : Counted r 0) (hlimit : r.receivedSinceAck ≤ 32)
    (hhistory : r.passed = r.taken) (hfilled : r.input.Filled) : Stands r.accept := by
  unfold ReceiveLoop.accept
  by_cases hpressure : 1024 * 1024 ≤ r.worker.pendingBytes ∨ 4096 ≤ r.worker.pendingData.length
  · rw [if_pos hpressure]
    exact of_top (h.congr rfl rfl rfl rfl) rfl hlimit hhistory hfilled
  · rw [if_neg hpressure]
    have hfilled' := hfilled.decodeInto
    have hdecoded : ∀ frames, r.input.decodeInto.1 = .ok frames →
        ∃ s < 16777216, frames ≠ [] ∧ ∀ f ∈ frames, f.sequenceNumber = s := by
      intro frames hframes
      have hdecode : Codec.decodeInto r.input.packet = .ok frames := by
        cases hinput : r.input <;> rw [hinput] at hframes <;> exact hframes
      obtain ⟨-, s, hs, hne, hall, -⟩ := Codec.decodeInto_ok hdecode
      exact ⟨s, hs, hne, fun f hf => (hall f hf).1.sequenceNumber⟩
    generalize r.input.decodeInto = decoded at hfilled' hdecoded
    obtain ⟨result, input⟩ := decoded
    cases result with
    | error e => exact of_top (h.congr rfl rfl rfl rfl) rfl hlimit hhistory hfilled'
    | ok frames =>
      refine ⟨⟨h.ordered, fun hzero => ?_, fun u hu => ⟨(h.owed u hu).1, ?_⟩⟩, ?_, hhistory, ?_,
        hdecoded frames rfl⟩
      · refine h.clear ?_
        simp only at hzero
        split_ifs at hzero with hcount
        exact absurd hzero hcount
      · have howed := (h.owed u hu).2
        simp only
        split_ifs <;> omega
      · simp only
        split_ifs <;> omega
      · simp only
        split_ifs
        · exact hfilled'.enableFragmentWorker
        · exact hfilled'

theorem process (h : Stands r) (hphase : r.phase = .received) : Stands r.process := by
  unfold Stands at h
  rw [hphase] at h
  obtain ⟨hcounted, hlimit, hhistory, hfilled, hpacket⟩ := h
  unfold ReceiveLoop.process
  rcases hbytes : r.input.packet with _ | ⟨id, rest⟩
  · exact absurd hbytes hpacket
  · simp only
    -- the datagram is counted, if a frame set is owed
    have hcounted' : Counted ({ r with
        receivedSinceAck := if r.receivedSinceAck ≠ 0 then r.receivedSinceAck + 1 else 0 } :
          ReceiveLoop) 0 := by
      refine ⟨hcounted.ordered, fun hzero => hcounted.clear ?_, fun u hu => ?_⟩
      · simp only at hzero
        split_ifs at hzero
        omega
      · by_cases hcount : r.receivedSinceAck = 0
        · rw [(hcounted.settled hcount).2] at hu
          exact absurd hu List.not_mem_nil
        · obtain ⟨hcovers, howed⟩ := hcounted.owed u hu
          refine ⟨hcovers, ?_⟩
          rw [if_pos hcount]
          exact howed
    have hlimit' : (if r.receivedSinceAck ≠ 0 then r.receivedSinceAck + 1 else 0) ≤ 32 := by
      split_ifs <;> omega
    have htop : Stands { r with
        receivedSinceAck := if r.receivedSinceAck ≠ 0 then r.receivedSinceAck + 1 else 0
        phase := .top } :=
      of_top (hcounted'.congr rfl rfl rfl rfl) rfl hlimit' hhistory hfilled
    rcases PacketID.tryFrom id with e | kind
    · exact htop
    · cases kind
      case disconnect => exact of_ended (hcounted'.congr rfl rfl rfl rfl) rfl hlimit'
      case frameSetPacketBegin => exact accept hcounted' hlimit' hhistory hfilled
      all_goals exact htop

/-- The number of the frame set is among those owed, and in the ACK set. -/
theorem counted_insert {frames : List FrameSetPacket} {s : ℕ} (input : DatagramInput) (q : RecvQ)
    (ready : List FrameSetPacket) (h : Counted r 0) (hcount : 0 < r.receivedSinceAck)
    (hs : s < 16777216) (hne : frames ≠ []) (hframes : ∀ f ∈ frames, f.sequenceNumber = s)
    (hinsert : insertAll r.recvq [] frames = (ready, false, q)) :
    Counted { r with
      recvq := q
      input
      unacknowledged := r.unacknowledged ++
        (frames.head?.map fun frame : FrameSetPacket =>
          (frame.sequenceNumber, r.processed)).toList } 0 := by
  obtain ⟨hordered, hcovers⟩ := insertAll_acks hs hframes h.ordered hinsert
  refine ⟨hordered, fun hzero => absurd hzero hcount.ne', fun u hu => ?_⟩
  rcases List.mem_append.mp hu with hu | hu
  · obtain ⟨hold, howed⟩ := h.owed u hu
    exact ⟨(hcovers u.1).mpr (.inl hold), howed⟩
  · obtain ⟨first, rest, rfl⟩ := List.exists_cons_of_ne_nil hne
    simp only [List.head?_cons, Option.map_some, Option.toList_some, List.mem_singleton] at hu
    subst hu
    exact ⟨(hcovers _).mpr (.inr ⟨hne, hframes first (by simp)⟩), by simp only; omega⟩

theorem insert {frames : List FrameSetPacket} (h : Stands r) (hphase : r.phase = .accepted frames) :
    Stands (r.insert frames) := by
  unfold Stands at h
  rw [hphase] at h
  obtain ⟨hcounted, ⟨hpos, hlimit⟩, hhistory, hfilled, s, hs, hne, hframes⟩ := h
  have hfilled' := hfilled.shouldFlushAck
  have hbound : ∀ u ∈ r.unacknowledged ++ (frames.head?.map fun frame : FrameSetPacket =>
      (frame.sequenceNumber, r.processed)).toList, r.processed < u.2 + 32 := by
    intro u hu
    rcases List.mem_append.mp hu with hu | hu
    · have howed := (hcounted.owed u hu).2
      omega
    · simp only [Option.mem_toList, Option.map_eq_some_iff] at hu
      obtain ⟨frame, -, rfl⟩ := hu
      simp only
      omega
  unfold ReceiveLoop.insert
  have hbooks := fun q ready =>
    counted_insert r.input.shouldFlushAck.2 q ready hcounted hpos hs hne hframes
  generalize r.input.shouldFlushAck = flushed at hfilled' hbooks
  obtain ⟨flush, input⟩ := flushed
  generalize insertAll r.recvq [] frames = result at hbooks
  obtain ⟨ready, invalid, q⟩ := result
  cases invalid with
  | true =>
    -- the connection ends: the bound is all that is left to show
    simp only [if_true]
    split_ifs <;> exact hbound
  | false =>
    have hbooks' := hbooks q ready rfl
    simp only [Bool.false_eq_true, if_false]
    split_ifs with hflush
    · refine ⟨congrArg (· ++ q.sequenceNumberAckset.ack) hhistory, hfilled', .inr ⟨rfl, rfl, ?_⟩⟩
      exact fun u hu => ⟨(hbooks'.owed u hu).1, hbound u hu⟩
    · exact ⟨(List.append_nil _).trans hhistory, hfilled',
        .inl ⟨hbooks'.congr rfl rfl rfl rfl, hlimit, rfl⟩⟩

/-- `send_ack_ranges` settles what it is given. -/
theorem finish (h : Stands r) (hphase : r.phase = .delivering) : Stands r.finish := by
  have hsame := h
  unfold Stands at h
  rw [hphase] at h
  obtain ⟨hhistory, hfilled, hbooks⟩ := h
  have hcounted : Counted r.sendAckRanges 0 ∧ r.receivedSinceAck ≤ 32 := by
    rcases hbooks with ⟨hcounted, hlimit, -⟩ | hclaimed
    · exact ⟨⟨hcounted.ordered, hcounted.clear,
        fun u hu => hcounted.owed u (List.mem_filter.mp hu).1⟩, hlimit⟩
    · refine ⟨⟨?_, fun _ => hclaimed.clear, fun u hu => ?_⟩, by simp [hclaimed.count]⟩
      · have hclear : r.sendAckRanges.ackSet = [] := hclaimed.clear
        rw [hclear]
        exact fun x hx => absurd hx List.not_mem_nil
      · obtain ⟨hmem, hcovers⟩ := List.mem_filter.mp hu
        exact absurd (hclaimed.owed u hmem).1 (of_decide_eq_true hcovers)
  unfold ReceiveLoop.finish
  by_cases hdone : (r.worker.readyFrames = [] ∧ r.worker.sending = none) ∨ r.worker.running = false
  · rw [if_pos hdone]
    cases hrunning : r.worker.running with
    | true => exact ⟨hcounted.1.congr rfl rfl rfl rfl, hcounted.2, hhistory, hfilled⟩
    | false => exact of_ended (hcounted.1.congr rfl rfl rfl rfl) rfl hcounted.2
  · rwa [if_neg hdone]

/-- **One move keeps the books.** -/
theorem move (h : Stands r) (m : Move) : Stands (r.move m) := by
  unfold ReceiveLoop.move
  split
  · exact h.top ‹_›
  · exact h.receive ‹_›
  · exact h.reserve ‹_›
  · exact h.stop ‹_›
  · exact h.process ‹_›
  · exact h.insert ‹_›
  · exact h.application _
  · exact h.application _
  · exact h.application _
  · exact h.finish ‹_›
  · exact h

/-- **One action keeps the books.** -/
theorem step (h : Stands r) (a : LoopAction) : Stands (r.step a) := by
  cases a with
  | worker m => exact h.move m
  | arrive a =>
    refine h.outside rfl ?_ ?_ fun hready => hready.arrive a
    · cases r.input <;> exact id
    · cases r.input <;> rfl
  | deliver packet =>
    refine h.outside rfl (fun hfilled => hfilled.deliver packet) ?_ fun hready =>
      hready.deliver packet
    cases r.input with
    | channel receiver connected current =>
      unfold DatagramInput.deliver
      simp only
      split_ifs <;> rfl
    | direct d => rfl
  | disconnect =>
    refine h.outside rfl ?_ ?_ DatagramInput.Ready.disconnect
    · cases r.input <;> exact id
    · cases r.input <;> rfl
  | takeNack => exact h.outside rfl id rfl id
  | recv | dropReceiver | close => exact h.application _

end Stands

theorem stands_run (peer : Option SocketAddr) (actions : List LoopAction) :
    Stands (runLoop peer actions) := by
  refine run_invariant ?_ (fun r a h => h.step a) actions
  refine ⟨⟨fun x hx => absurd hx List.not_mem_nil, fun _ => rfl,
    fun u hu => absurd hu List.not_mem_nil⟩, Nat.zero_le _, rfl, ?_⟩
  cases peer
  · exact List.not_mem_nil
  · trivial

/-- **The worker never waits on unsent acknowledgements.** In every run, when the worker waits and
no datagram is there to be taken, the ACK set is empty, the ranges taken from it are those passed to
`send_ack_ranges`, each once and in their order, and no datagram number was accepted and is still to
be passed. At any time, less than 32 datagrams have been taken after a frame set that is still to be
acknowledged. -/
theorem never_waits_unacknowledged (peer : Option SocketAddr) (actions : List LoopAction) :
    ((runLoop peer actions).phase = .waiting → ¬ (runLoop peer actions).input.Available →
      (runLoop peer actions).ackSet = [] ∧
        (runLoop peer actions).passed = (runLoop peer actions).taken ∧
        (runLoop peer actions).unacknowledged = []) ∧
      ∀ u ∈ (runLoop peer actions).unacknowledged, (runLoop peer actions).processed < u.2 + 32 := by
  have h := stands_run peer actions
  generalize runLoop peer actions = r at h
  unfold Stands at h
  refine ⟨fun hphase hunavailable => ?_, fun u hu => ?_⟩
  · rw [hphase] at h
    obtain ⟨hcounted, -, hhistory, -, hready⟩ := h
    have hcount : r.receivedSinceAck = 0 :=
      not_not.mp fun hcount => hunavailable (hready hcount).available
    obtain ⟨hclear, hsettled⟩ := hcounted.settled hcount
    exact ⟨hclear, hhistory, hsettled⟩
  · have hlate : ∀ late, Counted r late → r.receivedSinceAck + late ≤ 32 →
        r.processed < u.2 + 32 := by
      intro late hcounted hcount
      have howed := (hcounted.owed u hu).2
      omega
    cases hphase : r.phase <;> rw [hphase] at h
    · exact hlate 0 h.1 h.2.1
    · exact hlate 0 h.1 h.2.1.le
    · exact hlate 1 h.1 h.2.1
    · exact hlate 0 h.1 h.2.1.2
    · rcases h.2.2 with ⟨hcounted, hcount, -⟩ | hclaimed
      · exact hlate 0 hcounted hcount
      · exact (hclaimed.owed u hu).2
    · exact h u hu

/-- One frame set while another datagram is there: the acknowledgement is held back until that one,
which is malformed, has been taken. -/
example :
    let held := runLoop none [.deliver [0x84, 0, 0, 0, 0, 0, 8, 0xfe], .deliver [0x84], .worker .top,
      .worker .receive, .worker .process, .worker .insert, .worker .dispatch, .worker .finish,
      .worker .top]
    let sent := run ReceiveLoop.step held [.worker .receive, .worker .process, .worker .top]
    held.passed = [] ∧ held.ackSet = [(0, 0)] ∧ sent.passed = [(0, 0)] ∧ sent.ackSet = [] := by
  decide +kernel

end RustRaknet.Socket
