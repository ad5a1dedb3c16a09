import RustRaknet.Link.Delivery
import RustRaknet.Send.Stuck

/-! # A whole turn of the indexes

An acknowledgement is believed without a datagram having arrived. In every round a message is
inserted, its datagram is lost, and its number is acknowledged all the same. After 2^24 rounds the
sender uses the indexes of the first message again; the receiver, which has seen nothing, takes the
message that arrives then for the first one. Nothing in the run is late: the message is ahead of what
the receiver expects, by a whole turn. -/

namespace RustRaknet.Link

open RustRaknet.Send RustRaknet.Frame RustRaknet.Sequence RustRaknet.Codec RustRaknet.Recv
open RustRaknet.Lib.Result RustRaknet.Lib.Serial
open RustRaknet.Socket (transmitFrames)

variable {B : Build}

/-! ### One round of the sender -/

/-- The message of a round. -/
def pulse (b : UInt8) : Message := ⟨.reliableOrdered, primaryChannel, [0xfe, b], false⟩

/-- Its frame, under the same reliable and ordered index. -/
def pulseFrame (b : UInt8) (index : ℕ) : FrameSetPacket :=
  { FrameSetPacket.fromPayload .reliableOrdered (.copyShared [0xfe, b]) with
    reliableFrameIndex := index
    orderChannel := 0
    orderedFrameIndex := index }

theorem pulseFrame_isReliable (b : UInt8) (index k d : ℕ) :
    (QueuedFrame.mk (pulseFrame b index) k d).isReliable = true :=
  fromPayload_isReliable (r := .reliableOrdered) _ _ _
    (by simp [pulseFrame, FrameSetPacket.reliability, FrameSetPacket.fromPayload])

/-- The queue after `n` rounds: it is empty, and its counters stand at `n`. -/
structure Idle (n : ℕ) (q : SendQ) : Prop extends Unconfigured q where
  packets : q.packets = []
  flight : q.sentPacket = []
  sequence : q.sequenceNumber = n % 16777216
  index : q.reliableFrameIndex = n % 16777216
  ordered : q.orderedFrameIndexes.get 0 = n % 16777216
  bytes : q.bufferedBytes = 0
  pending : q.retriesPending = false
  log : q.log.length = n

theorem Idle.insert {n : ℕ} {q : SendQ} (h : Idle n q) (b : UInt8) :
    q.insertPayload B (pulse b) = .ok { q with
      packets := [⟨pulseFrame b (n % 16777216), n, 0⟩]
      reliableFrameIndex := (n + 1) % 16777216
      orderedFrameIndexes := q.orderedFrameIndexes.set 0 ((n + 1) % 16777216)
      bufferedBytes := 130
      log := q.log ++ [pulse b] } := by
  have hrequired : q.requiredBytes .reliableOrdered 2 = .ok 130 := by
    simp [SendQ.requiredBytes, SendQ.maxPayload, SendQ.frameCount, h.mtu, frameBudget_eq,
      maxBufferedBytes, Reassembly.maxFragments]
  unfold SendQ.insertPayload
  rw [show q.requiredBytes (pulse b).reliability (pulse b).payload.length = .ok 130 from hrequired,
    ok_bind, if_neg (by rw [h.bytes]; decide)]
  have hnext : next (n % 16777216) = (n + 1) % 16777216 := next_mod n
  simp [SendQ.maxPayload, h.mtu, SendQ.pushMessage, pulse, SendQ.reliablePayload, SendQ.pushReliable,
    SendQ.advanceOrdered, SendQ.book, pulseFrame, SendQ.unreliableMode, Reliability.isReliable,
    primaryChannel, h.packets, h.index, h.ordered, h.bytes, h.log, hnext]

theorem ack_one {q : SendQ} {p : InFlight} (tick : ℤ) (hB : B.recoveryPolicy = false)
    (hgrouped : q.groupedAcks = false) (hflight : q.sentPacket = [p])
    (hown : p.packet.frame.sharedPayload = none) :
    ∃ ackSequenceNumber fault rto srtt nextRetry, (q.ack B p.sequence tick).2 = { q with
      sentPacket := []
      bufferedBytes := q.bufferedBytes - charge p.packet
      ackSequenceNumber
      fault
      rto
      srtt
      nextRetry } := by
  have hack : (q.ack B p.sequence tick).2 = q.acknowledge B p.sequence tick 0 p := by
    unfold SendQ.ack
    rw [hgrouped, Bool.false_and, if_neg Bool.false_ne_true]
    unfold SendQ.ackSingle
    have hhit : p.ids.contains p.sequence = true := by simp [InFlight.ids]
    rw [hflight, List.findIdx?_cons, hhit]
    rfl
  have hrest : (q.remove 0).ungroup.release p.packet = { q with
      sentPacket := []
      bufferedBytes := q.bufferedBytes - charge p.packet
      fault := q.fault || decide (q.bufferedBytes < charge p.packet) } := by
    simp [SendQ.release, SendQ.ungroup, SendQ.remove, SendQ.countDown, SendQ.releasedPayload,
      SendQ.exhausted, hown, hflight, hgrouped, charge]
    rfl
  rw [hack]
  unfold SendQ.acknowledge
  simp only [SendQ.progress, hB, Bool.false_and, Bool.false_eq_true, if_false, hrest]
  -- nothing is left in flight that the acknowledgement could show to be lost
  split_ifs
  · simp only [SendQ.expose, SendQ.missing, SendQ.nackAll, List.foldl_nil, List.filter_nil,
      List.map_nil, SendQ.advanceAck]
    exact ⟨p.sequence, _, sampleRtt_eq _ tick p⟩
  · exact ⟨q.ackSequenceNumber, _, sampleRtt_eq _ tick p⟩

/-- The frame of the round `n` as it is transmitted. -/
def pulsed (b : UInt8) (n d : ℕ) : QueuedFrame :=
  ⟨{ pulseFrame b (n % 16777216) with sequenceNumber := n % 16777216 }, n, d⟩

/-- The queue after the burst of the round `n`: its frame is in flight. -/
structure Waits (n : ℕ) (b : UInt8) (q : SendQ) : Prop extends Unconfigured q where
  packets : q.packets = []
  flight : ∃ d, q.sentPacket = [⟨pulsed b n d, true, 0, 0, [], []⟩]
  sequence : q.sequenceNumber = (n + 1) % 16777216
  index : q.reliableFrameIndex = (n + 1) % 16777216
  ordered : q.orderedFrameIndexes.get 0 = (n + 1) % 16777216
  bytes : q.bufferedBytes = 130
  pending : q.retriesPending = false
  log : q.log.length = n + 1

theorem Idle.transmit {n : ℕ} {q : SendQ} (hB : B.recoveryPolicy = false) (h : Idle n q)
    (b : UInt8) : ∃ q', q.insertPayload B (pulse b) = .ok q' ∧
      (∃ d, (q'.flush B 0).1 = ⟨[pulsed b n d], false⟩) ∧ Waits n b (q'.flush B 0).2 ∧
      (q'.flush B 0).2.log = q.log ++ [pulse b] := by
  refine ⟨_, h.insert b, ?_⟩
  obtain ⟨hout, nextRetry, dirty, hqueue⟩ := flush_new (B := B)
    (f := ⟨pulseFrame b (n % 16777216), n, 0⟩) (q := { q with
      packets := [⟨pulseFrame b (n % 16777216), n, 0⟩]
      reliableFrameIndex := (n + 1) % 16777216
      orderedFrameIndexes := q.orderedFrameIndexes.set 0 ((n + 1) % 16777216)
      bufferedBytes := 130
      log := q.log ++ [pulse b] }) none 0 hB
    { h with } h.flight (by simp) h.pending rfl (pulseFrame_isReliable _ _ _ _)
  have hframe : (QueuedFrame.mk (pulseFrame b (n % 16777216)) n 0).numbered q.sequenceNumber
      q.allocated = pulsed b n q.allocated := by
    rw [h.sequence]
    rfl
  refine ⟨⟨q.allocated, ?_⟩, ?_, ?_⟩
  · rw [hout, ← hframe]
    rfl
  · rw [hqueue]
    refine ⟨{ h with }, rfl, ⟨q.allocated, ?_⟩, ?_, rfl, ?_, rfl, rfl, ?_⟩
    · rw [← hframe]
      rfl
    · show next q.sequenceNumber = _
      rw [h.sequence, next_mod]
    · exact Indexes.ChannelIndexes.get_set_self _ _ _
    · simp [h.log]
  · rw [hqueue]

theorem Waits.ack {n : ℕ} {b : UInt8} {q : SendQ} (hB : B.recoveryPolicy = false)
    (h : Waits n b q) :
    Idle (n + 1) (q.ack B (n % 16777216) 0).2 ∧ (q.ack B (n % 16777216) 0).2.log = q.log := by
  obtain ⟨d, hflight⟩ := h.flight
  obtain ⟨_, _, _, _, _, hack⟩ := ack_one (B := B) 0 hB h.grouped hflight rfl
  have hsequence : InFlight.sequence ⟨pulsed b n d, true, 0, 0, [], []⟩ = n % 16777216 := rfl
  rw [hsequence] at hack
  rw [hack]
  refine ⟨⟨{ h with }, h.packets, rfl, h.sequence, h.index, h.ordered, ?_, h.pending, h.log⟩, rfl⟩
  show q.bufferedBytes - charge (pulsed b n d) = 0
  rw [h.bytes]
  simp [charge, frameBudget_eq, pulsed, pulseFrame, FrameSetPacket.fromPayload, FramePayload.len,
    FramePayload.copyShared, FramePayload.deref]

/-! ### One round of the peers -/

theorem pulsed_encodable (b : UInt8) (n d : ℕ) :
    Encodable (n % 16777216) (pulsed b n d).frame := by
  have hmod : n % 16777216 < 256 ^ 3 := Nat.mod_lt _ (by decide)
  have hreliability : (pulsed b n d).frame.reliability = .ok .reliableOrdered := by
    simp [pulsed, pulseFrame, FrameSetPacket.reliability, FrameSetPacket.fromPayload]
  refine ⟨rfl, ?_, ?_, .reliableOrdered, hreliability, ?_⟩
  · simp [pulsed, pulseFrame, FrameSetPacket.fromPayload, Reliability.toU8]
  · refine validate_ok.mpr ⟨rfl, show 2 ≤ 8191 by decide, fun hf => ?_, .reliableOrdered, hreliability⟩
    simp [pulsed, pulseFrame, FrameSetPacket.isFragment, FrameSetPacket.fromPayload] at hf
  · exact ⟨fits_of hmod Bool.noConfusion, rfl, fits_of hmod Bool.noConfusion,
      fits_of (show 0 < 256 ^ 1 by decide) Bool.noConfusion,
      fits_of (show 0 < 256 ^ 4 by decide) fun _ => rfl,
      fits_of (show 0 < 256 ^ 2 by decide) fun _ => rfl,
      fits_of (show 0 < 256 ^ 4 by decide) fun _ => rfl⟩

/-- The peers after `n` rounds: the network has lost `n` datagrams. -/
structure Lost (n : ℕ) (l : Peers) : Prop where
  idle : Idle n l.sender.queue
  wire : l.wire.length = n
  log : l.log = List.replicate n (pulse 0)
  receiver : l.receiver = RecvQ.new
  inbox : l.inbox = []
  arrived : l.arrived = []
  released : l.released = []
  failed : l.failed = false

/-- The peers after the burst of the round `n`. -/
structure Sends (n : ℕ) (b : UInt8) (l : Peers) : Prop where
  waits : Waits n b l.sender.queue
  wire : ∃ wire bytes d, l.wire = wire ++ [⟨bytes, [pulsed b n d]⟩] ∧ wire.length = n ∧
    decodeInto bytes = .ok [asDecoded (pulsed b n d).frame]
  log : l.log = List.replicate n (pulse 0) ++ [pulse b]
  receiver : l.receiver = RecvQ.new
  inbox : l.inbox = []
  arrived : l.arrived = []
  released : l.released = []
  failed : l.failed = false

theorem Lost.transmit {n : ℕ} {l : Peers} (hB : B.recoveryPolicy = false) (h : Lost n l)
    (b : UInt8) :
    Sends n b ((l.step B (.send (.insert (pulse b)))).step B (.send (.flush 0))) := by
  obtain ⟨q, hinsert, ⟨d, hout⟩, hwaits, hlog⟩ := h.idle.transmit hB b
  have hall : ∀ f ∈ [(pulsed b n d).frame], Encodable (n % 16777216) f := by
    simpa using pulsed_encodable b n d
  obtain ⟨bytes, hbytes, hdecode⟩ := decode_serializeGroupInto (by simp)
    (Nat.mod_lt _ (by decide)) hall
  have hsender : (l.step B (.send (.insert (pulse b)))) =
      { l with sender := { l.sender with queue := q } } := by
    show ({ l with sender := l.sender.step B (.insert (pulse b)) } : Peers) = _
    rw [Run.insert_ok hinsert]
  have hencode : encode (transmitFrames (q.flush B 0).1) = [⟨bytes, [pulsed b n d]⟩] := by
    have hplace : transmitFrames ⟨[pulsed b n d], false⟩ = [[pulsed b n d]] := rfl
    rw [hout, hplace]
    simp [encode, hbytes]
  rw [hsender]
  refine ⟨hwaits, ⟨l.wire, bytes, d, ?_, h.wire, hdecode⟩,
    hlog.trans (congrArg (· ++ [pulse b]) h.log), h.receiver, h.inbox, h.arrived, h.released,
    h.failed⟩
  show l.wire ++ encode (transmitFrames (q.flush B 0).1) = _
  rw [hencode]

theorem Sends.ack {n : ℕ} {l : Peers} (hB : B.recoveryPolicy = false) (h : Sends n 0 l) :
    Lost (n + 1) (l.step B (.send (.ack (n % 16777216) 0))) := by
  obtain ⟨wire, bytes, d, hwire, hlength, -⟩ := h.wire
  obtain ⟨hidle, hlog⟩ := h.waits.ack hB
  refine { h with idle := hidle, wire := ?_, log := ?_ }
  · show l.wire.length = n + 1
    simp [hwire, hlength]
  · show (l.sender.queue.ack B (n % 16777216) 0).2.log = _
    rw [hlog, List.replicate_succ']
    exact h.log

/-- The actions of `n` rounds. -/
def losses : ℕ → List Action
  | 0 => []
  | n + 1 => losses n ++ [.send (.insert (pulse 0))] ++ [.send (.flush 0)] ++
      [.send (.ack (n % 16777216) 0)]

theorem lost_losses (hB : B.recoveryPolicy = false) (n : ℕ) :
    Lost n (runPeers B 1400 (losses n)) := by
  induction n with
  | zero =>
    exact ⟨⟨⟨rfl, rfl, rfl, rfl, rfl⟩, rfl, rfl, rfl, rfl, rfl, rfl, rfl, rfl⟩, rfl, rfl, rfl, rfl,
      rfl, rfl, rfl⟩
  | succ n ih =>
    rw [losses, runPeers_append, runPeers_append, runPeers_append]
    exact (ih.transmit hB 0).ack hB

/-! ### The message that arrives -/

/-- The next frame of the inbox is less than half a turn behind: its reliable index behind the first
one missing, and its ordered index behind the first one not delivered. -/
def Peers.Recent (l : Peers) (limit : ℕ) : Prop :=
  ∀ x ∈ l.inbox.head?, mex (l.taken limit) < x.2.position limit l.log + 8388608 ∧
    ∀ m, l.log[x.2.message]? = some m → m.reliability = .reliableOrdered →
      (payloads m.channel l.released).length <
        (before limit l.log x.2.message).ordered m.channel + 8388608

/-- The rounds, and a last message that arrives. -/
def turned (n : ℕ) : List Action :=
  losses n ++ [.send (.insert (pulse 1))] ++ [.send (.flush 0)] ++ [.arrive n] ++ [.receive]

theorem pulsed_frame {b : UInt8} {n d : ℕ} (hn : n % 16777216 = 0) :
    (pulsed b n d).frame = (pulsed b 0 0).frame := by
  simp [pulsed, hn]

theorem insert_pulsed {n d : ℕ} (hn : n % 16777216 = 0) :
    (RecvQ.new.insert (asDecoded (pulsed 1 n d).frame)).1 = .ok () ∧
      (RecvQ.new.insert (asDecoded (pulsed 1 n d).frame)).2.flushInto.1 =
        [asDecoded (pulsed 1 n d).frame] := by
  rw [pulsed_frame hn]
  decide +kernel

theorem Sends.deliver {n : ℕ} {l : Peers} (h : Sends n 1 l) (hn : n % 16777216 = 0) :
    (l.step B (.arrive n)).arrived = [] ∧ (l.step B (.arrive n)).released = [] ∧
    ∃ d, ((l.step B (.arrive n)).step B .receive).failed = false ∧
      ((l.step B (.arrive n)).step B .receive).released = [asDecoded (pulsed 1 n d).frame] ∧
      ((l.step B (.arrive n)).step B .receive).arrived = [pulsed 1 n d] ∧
      ((l.step B (.arrive n)).step B .receive).log = l.log := by
  obtain ⟨wire, bytes, d, hwire, hlength, hdecode⟩ := h.wire
  have hget : l.wire[n]? = some ⟨bytes, [pulsed 1 n d]⟩ := by
    simp [hwire, hlength]
  have harrive : l.step B (.arrive n) =
      { l with inbox := [(asDecoded (pulsed 1 n d).frame, pulsed 1 n d)] } := by
    simp [Peers.step, hget, Peers.arrive, hdecode, h.inbox]
  obtain ⟨hok, hflush⟩ := insert_pulsed (d := d) hn
  rcases hinsert : RecvQ.new.insert (asDecoded (pulsed 1 n d).frame) with ⟨r, q⟩
  rw [hinsert] at hok hflush
  subst hok
  rw [harrive]
  refine ⟨h.arrived, h.released, d, ?_⟩
  simp [Peers.step, Peers.insert, h.failed, h.receiver, hinsert, hflush, h.released, h.arrived]

theorem receive_notMem_losses (n : ℕ) : Action.receive ∉ losses n := by
  induction n with
  | zero => simp [losses]
  | succ n ih => simp [losses, ih]

theorem turned_recent {n : ℕ} (hB : B.recoveryPolicy = false) (hn : n % 16777216 = 0) :
    Always B 1400 (fun l a => a = .receive → l.Recent 1340) (turned n) := by
  have hsends := (lost_losses hB n).transmit hB 1
  obtain ⟨harrived, hreleased, -⟩ := hsends.deliver (B := B) hn
  refine .concat (fun before a after he ha => ?_) fun _ x hx => ?_
  · have hmem : Action.receive ∈ losses n ++ [.send (.insert (pulse 1))] ++ [.send (.flush 0)] ++
        [.arrive n] := by
      rw [he, ha]
      simp
    simp [receive_notMem_losses] at hmem
  · rw [Lib.Machine.run_append, Lib.Machine.run_append, Lib.Machine.run_append]
    simp [Peers.taken, harrived, hreleased, payloads, mex_empty]

theorem turned_delivers {n : ℕ} (hB : B.recoveryPolicy = false) (hn : n % 16777216 = 0)
    (hpos : 0 < n) :
    (runPeers B 1400 (turned n)).failed = false ∧
      payloads 0 (runPeers B 1400 (turned n)).released = [[0xfe, 1]] ∧
      ((orderedOn 0 (runPeers B 1400 (turned n)).log).takeWhile fun p =>
        AllArrived 1340 (runPeers B 1400 (turned n)).arrived p) = [] := by
  have hsends := (lost_losses hB n).transmit hB 1
  obtain ⟨-, -, d, hfailed, hreleased, harrived, hlog⟩ := hsends.deliver (B := B) hn
  rw [turned, runPeers_append, runPeers_append, runPeers_append, runPeers_append]
  refine ⟨hfailed, ?_, ?_⟩
  · rw [hreleased, pulsed_frame hn]
    decide +kernel
  · rw [harrived, hlog, hsends.log]
    obtain ⟨k, rfl⟩ : ∃ k, n = k + 1 := ⟨n - 1, by omega⟩
    -- the first message is not the one that has arrived
    have hfirst : ¬ AllArrived 1340 [pulsed 1 (k + 1) d] (pulse 0, 0) := by
      intro h
      obtain ⟨f, hf, hmessage, -⟩ := h 0 (by decide)
      rw [List.mem_singleton.mp hf] at hmessage
      simp [pulsed] at hmessage
    have hon : On 0 (pulse 0) := by decide
    rw [List.replicate_succ, List.cons_append, orderedOn, List.zipIdx_cons,
      List.filter_cons_of_pos (by simpa using hon), List.takeWhile_cons_of_neg (by simpa using hfirst)]

/-- **A whole turn ahead.** No frame of the run is late and the receiver never fails; but what it
delivers is the message 2^24, and the longest beginning of the messages that has arrived is empty. -/
theorem delivery_turns :
    Always (.insertion false false) 1400 (fun l a => a = .receive → l.Recent 1340)
        (turned 16777216) ∧
      (runPeers (.insertion false false) 1400 (turned 16777216)).failed = false ∧
      payloads 0 (runPeers (.insertion false false) 1400 (turned 16777216)).released = [[0xfe, 1]] ∧
      ((orderedOn 0 (runPeers (.insertion false false) 1400 (turned 16777216)).log).takeWhile fun p =>
        AllArrived 1340 (runPeers (.insertion false false) 1400 (turned 16777216)).arrived p) = [] :=
  ⟨turned_recent rfl (by decide), turned_delivers rfl (by decide) (by decide)⟩

end RustRaknet.Link
