import RustRaknet.Link.Reject
import RustRaknet.Send.Stuck

/-! # A hole that is never filled

The sender bounds how many frames are in flight, the receiver how far the reliable indexes spread.
One frame is lost whenever it is sent, while the others arrive and are acknowledged: the flight never
holds more than two frames, but the receiver still waits for the first. The frame 65,536 ahead of it
is rejected. Every message of the run is inserted with room in the send queue, and every
acknowledgement is one of the receiver. -/

namespace RustRaknet.Link

open RustRaknet.Send RustRaknet.Frame RustRaknet.Sequence RustRaknet.Codec RustRaknet.Recv
open RustRaknet.Lib.Result RustRaknet.Lib.Serial
open RustRaknet.Socket (transmitFrames alone)

/-- A sender by the rules: it inserts a message when the queue has capacity for it, and is given no
acknowledgements but those the receiver has produced. -/
def Regular (B : Build) (l : Peers) : Action → Prop
  | .send (.insert m) => l.sender.queue.hasCapacity B m.reliability m.payload.length = .ok true
  | .send (.flush _) => True
  | .send .enableCoalescing => True
  | .send _ => False
  | .arrive _ => True
  | .receive => True
  | .takeAck => True
  | .takeNack => True
  | .feedback _ _ => True

variable {B : Build}

/-! ### One beat of the sender -/

/-- The frame of the beat `n` as it is transmitted. -/
def beaten (n d : ℕ) : QueuedFrame :=
  ⟨{ beatFrame ((n + 1) % 16777216) with sequenceNumber := (2 * n + 1) % 16777216 }, n + 1, d⟩

theorem beaten_isReliable (n d : ℕ) : (beaten n d).isReliable = true :=
  fromPayload_isReliable (r := .reliable) _ _ _
    (by simp [beatFrame, FrameSetPacket.reliability, FrameSetPacket.fromPayload])

/-- The message of a beat is inserted and sent, and acknowledged alone. -/
theorem stuck_burst {n : ℕ} {q : SendQ} (hB : B.recoveryPolicy = false) (h : Stuck n q)
    (hlog : q.log.length = n + 1) :
    ∃ q' p d, q.insertPayload B beat = .ok q' ∧
      (q'.flush B 0).1 = ⟨[p, beaten n d], false⟩ ∧ (q'.flush B 0).2.log = q.log ++ [beat] ∧
      Stuck (n + 1) ((q'.flush B 0).2.ack B ((2 * n + 1) % 16777216) 0).2 ∧
      ((q'.flush B 0).2.ack B ((2 * n + 1) % 16777216) 0).2.log = q.log ++ [beat] ∧
      (q'.flush B 0).2.groupedAcks = false := by
  obtain ⟨q', hinsert, hloaded⟩ := h.insert (B := B)
  have hq' := insert_beat (B := B) h.mtu (show q.bufferedBytes ≤ 1000 by rw [h.bytes]; omega)
  rw [hinsert] at hq'
  have hq' := Except.ok.inj hq'
  have hpackets : q'.packets = [⟨beatFrame ((n + 1) % 16777216), n + 1, 0⟩] := by
    rw [hq']
    simp [h.packets, h.index, hlog]
  have hlog' : q'.log = q.log ++ [beat] := by rw [hq']
  obtain ⟨p, hflight, hsent, -⟩ := hloaded.flight
  obtain ⟨hout, nextRetry, dirty, hflush⟩ := flush_new (B := B) (some p) 0 hB
    hloaded.toUnconfigured hflight (by simpa using hsent) hloaded.pending hpackets
    (beatFrame_isReliable _ _ _)
  obtain ⟨hstuck, hstays⟩ := hloaded.beat hB
  refine ⟨q', p.packet, q'.allocated, hinsert, ?_, ?_, hstuck, hstays.trans hlog', ?_⟩
  · rw [hout, hloaded.sequence]
    rfl
  · rw [hflush]
    exact hlog'
  · rw [hflush]
    exact hloaded.grouped

theorem ackRanges_single {q : SendQ} (h : q.groupedAcks = false) (s : ℕ) (tick : ℤ) :
    q.ackRanges B [(s, s)] tick = q.ack B s tick := by
  unfold SendQ.ackRanges SendQ.ackRangesInner SendQ.ack
  rw [h, Bool.false_and, if_neg Bool.false_ne_true]
  exact if_pos ⟨rfl, .inl Bool.false_ne_true⟩

theorem stuck_hasCapacity {n : ℕ} {q : SendQ} (hB : B.sendPolicy = false) (h : Stuck n q) :
    q.hasCapacity B beat.reliability beat.payload.length = .ok true := by
  simp [SendQ.hasCapacity, SendQ.requiredBytes, SendQ.maxPayload, SendQ.frameCount, h.mtu, beat,
    frameBudget_eq, maxBufferedBytes, Reassembly.maxFragments, hB, h.bytes, sendHighWater]

/-! ### One beat of the receiver -/

theorem ack_insert {c : Indexes.AckSet} (h : c.ack = []) (s : ℕ) : (c.insert s).ack = [(s, s)] := by
  unfold Indexes.AckSet.insert
  simp only [h, Indexes.AckSet.insertAck]
  split_ifs <;> rfl

theorem counters_beats (n : ℕ) : (counters 1340 (List.replicate n beat)).reliable = n := by
  induction n with
  | zero => rfl
  | succ n ih =>
    rw [List.replicate_succ', counters_append]
    have hone : (Counters.add 1340 (counters 1340 (List.replicate n beat)) beat).reliable =
        (counters 1340 (List.replicate n beat)).reliable + 1 := rfl
    rw [hone, ih]

/-! ### One beat of the peers -/

/-- The peers after `n` beats: the receiver waits for the first message. -/
structure Jammed (n : ℕ) (l : Peers) : Prop where
  stuck : Stuck n l.sender.queue
  log : l.log = List.replicate (n + 1) beat
  wire : l.wire.length = 2 * n
  inbox : l.inbox = []
  arrived : ∀ f ∈ l.arrived, 0 < f.message
  failed : l.failed = false
  control : l.control.length = n
  acks : l.receiver.sequenceNumberAckset.ack = []

/-- The peers when the message of the beat `n` has reached the receiver. -/
structure Arriving (B : Build) (n : ℕ) (l : Peers) : Prop where
  stuck : Stuck (n + 1) (l.sender.queue.ack B ((2 * n + 1) % 16777216) 0).2
  stays : (l.sender.queue.ack B ((2 * n + 1) % 16777216) 0).2.log = l.log
  grouped : l.sender.queue.groupedAcks = false
  log : l.log = List.replicate (n + 2) beat
  wire : l.wire.length = 2 * (n + 1)
  inbox : ∃ d, l.inbox = [(asDecoded (beaten n d).frame, beaten n d)]
  arrived : ∀ f ∈ l.arrived, 0 < f.message
  failed : l.failed = false
  control : l.control.length = n
  acks : l.receiver.sequenceNumberAckset.ack = []

theorem Jammed.transmit {n : ℕ} {actions : List Action} (hB : B.recoveryPolicy = false)
    (h : Jammed n (runPeers B 1400 actions)) :
    Arriving B n (runPeers B 1400 (actions ++ [.send (.insert beat)] ++ [.send (.flush 0)] ++
      [.arrive (2 * n + 1)])) := by
  obtain ⟨q, p, d, hinsert, hout, hlog, hstuck, hstays, hgrouped⟩ := stuck_burst hB h.stuck (by
    rw [show (runPeers B 1400 actions).sender.queue.log = List.replicate (n + 1) beat from h.log,
      List.length_replicate])
  obtain ⟨ops, hops⟩ := runPeers_sender B 1400
    (actions ++ [.send (.insert beat)] ++ [.send (.flush 0)])
  rw [runPeers_append, runPeers_append] at hops
  rw [runPeers_append, runPeers_append, runPeers_append]
  generalize runPeers B 1400 actions = l at h hinsert hlog hstays hops ⊢
  have hfirst : l.step B (.send (.insert beat)) =
      { l with sender := { l.sender with queue := q } } := by
    show ({ l with sender := l.sender.step B (.insert beat) } : Peers) = _
    rw [Run.insert_ok hinsert]
  rw [hfirst] at hops ⊢
  have hframes : ∀ f ∈ [p, beaten n d], f ∈ (run B 1400 ops).output.frames := by
    intro f hf
    rw [← hops]
    show f ∈ (q.flush B 0).1.frames
    rw [hout]
    exact hf
  obtain ⟨b₀, hb₀, -⟩ := burst_encodable (by decide) (hframes p (by simp))
  obtain ⟨b₁, hb₁, hdecode⟩ := burst_encodable (by decide)
    (hframes (beaten n d) (by simp))
  have hencode : encode (transmitFrames (q.flush B 0).1) = [⟨b₀, [p]⟩, ⟨b₁, [beaten n d]⟩] := by
    have hplace : transmitFrames ⟨[p, beaten n d], false⟩ = [[p], [beaten n d]] := rfl
    rw [hout, hplace]
    simp [encode, hb₀, hb₁]
  have hwire : (Peers.step B { l with sender := { l.sender with queue := q } }
      (.send (.flush 0))).wire = l.wire ++ [⟨b₀, [p]⟩, ⟨b₁, [beaten n d]⟩] := by
    rw [← hencode]
    rfl
  have hget : (Peers.step B { l with sender := { l.sender with queue := q } }
      (.send (.flush 0))).wire[2 * n + 1]? = some ⟨b₁, [beaten n d]⟩ := by
    rw [hwire, List.getElem?_append_right (by rw [h.wire]; omega), h.wire,
      show 2 * n + 1 - 2 * n = 1 by omega]
    rfl
  have harrive : Peers.step B (Peers.step B { l with sender := { l.sender with queue := q } }
      (.send (.flush 0))) (.arrive (2 * n + 1)) = { Peers.step B
        { l with sender := { l.sender with queue := q } } (.send (.flush 0)) with
          inbox := [(asDecoded (beaten n d).frame, beaten n d)] } := by
    have hinbox : (Peers.step B { l with sender := { l.sender with queue := q } }
      (.send (.flush 0))).inbox = [] := h.inbox
    generalize Peers.step B { l with sender := { l.sender with queue := q } }
      (.send (.flush 0)) = l' at hget hinbox
    simp only [Peers.step, hget, Peers.arrive, hdecode, hinbox]
    rfl
  rw [harrive]
  have hbeats : l.sender.queue.log ++ [beat] = List.replicate (n + 2) beat := by
    rw [show l.sender.queue.log = _ from h.log, ← List.replicate_succ']
  refine ⟨hstuck, hstays.trans hlog.symm, hgrouped, hlog.trans hbeats, ?_, ⟨d, rfl⟩, h.arrived,
    h.failed, h.control, h.acks⟩
  show (Peers.step B { l with sender := { l.sender with queue := q } } (.send (.flush 0))).wire.length
    = _
  rw [hwire, List.length_append, h.wire]
  simp only [List.length_cons, List.length_nil]
  omega

theorem position_beats {n : ℕ} {f : QueuedFrame} (h : f.message ≤ n) :
    f.position 1340 (List.replicate n beat) = f.message + f.frame.fragmentIndex := by
  unfold QueuedFrame.position
  rw [List.take_replicate, Nat.min_eq_left h, counters_beats]

theorem Arriving.mex_taken {n : ℕ} {l : Peers} (h : Arriving B n l) (hlinked : Linked B 1400 l) :
    mex (l.taken 1340) = 0 := by
  refine Nat.le_zero.mp (mex_le fun hmem => ?_)
  simp only [Peers.taken, List.mem_toFinset, List.mem_map, List.mem_filter] at hmem
  obtain ⟨f, ⟨hf, -⟩, hzero⟩ := hmem
  have hlt : f.message < l.log.length := accepted_message _ l.log f.body (hlinked.arrived f hf)
  have hpos := h.arrived f hf
  rw [h.log, List.length_replicate] at hlt
  rw [h.log, position_beats hlt.le] at hzero
  omega

/-- **The message of a beat** is rejected when it is outside the receive window. -/
theorem Arriving.exceeds_iff {n d : ℕ} {l : Peers} (h : Arriving B n l)
    (hlinked : Linked B 1400 l) :
    Exceeds l 1340 (asDecoded (beaten n d).frame) (beaten n d) ↔ 65536 ≤ n + 1 := by
  have hmex := h.mex_taken hlinked
  have hposition : (beaten n d).position 1340 l.log = n + 1 := by
    rw [h.log, position_beats (show n + 1 ≤ n + 2 by omega)]
    rfl
  have hfragment : (asDecoded (beaten n d).frame).isFragment = false := by
    simp [beaten, beatFrame, asDecoded, FrameSetPacket.isFragment, FrameSetPacket.fromPayload]
  constructor
  · intro he
    cases he with
    | window _ hfar => omega
    | volume _ _ hf | groups _ _ hf => exact absurd (hfragment.symm.trans hf) Bool.false_ne_true
    | ordered _ _ m hm hmode =>
      rw [h.log] at hm
      obtain rfl := (List.mem_replicate.mp (List.mem_of_getElem? hm)).2
      cases hmode
  · intro hfar
    exact .window (beaten_isReliable n d) (by omega)

/-- The message of a beat that has reached the receiver is taken while it is in the receive window,
and rejected from there on. -/
theorem Arriving.receive {n : ℕ} {actions : List Action} (hn : n ≤ 65536)
    (h : Arriving B n (runPeers B 1400 actions)) :
    TimelyRun B 1400 (actions ++ [.receive]) ∧
      ((runPeers B 1400 (actions ++ [.receive])).failed = true ↔ 65536 ≤ n + 1) := by
  obtain ⟨d, hinbox⟩ := h.inbox
  have hfew : (counters 1340 (runPeers B 1400 actions).log).reliable ≤ 8388608 := by
    rw [h.log, counters_beats]
    omega
  have htimely := timely_of_few B 1400 actions hfew
  have hlinked := linked_run B 1400 actions htimely
  have hnow := hlinked.timely hfew
  refine ⟨htimely.concat fun _ => hnow, ?_⟩
  rw [runPeers_append, hlinked.step_failed .receive fun _ => hnow, ← h.exceeds_iff (d := d) hlinked]
  simp [h.failed, hinbox]

/-- The end of a beat: the acknowledgement of the message reaches the sender. -/
theorem Arriving.feedback {n : ℕ} {actions : List Action} (hn : n + 1 < 65536)
    (h : Arriving B n (runPeers B 1400 actions)) :
    Jammed (n + 1) (runPeers B 1400 (actions ++ [.receive] ++ [.takeAck] ++ [.feedback n 0])) := by
  obtain ⟨d, hinbox⟩ := h.inbox
  have hok := (h.receive (by omega)).2
  rw [runPeers_append] at hok
  rw [runPeers_append, runPeers_append, runPeers_append]
  generalize runPeers B 1400 actions = l at h hinbox hok ⊢
  have hmode : (asDecoded (beaten n d).frame).reliability = .ok .reliable := by
    simp [beaten, beatFrame, asDecoded, FrameSetPacket.reliability, FrameSetPacket.fromPayload]
  have hacks := insert_acks (q := l.receiver) hmode
  rcases hinsert : l.receiver.insert (asDecoded (beaten n d).frame) with ⟨r, q⟩
  rw [hinsert] at hacks
  have hstep : l.step B .receive = Peers.insert { l with inbox := [] }
      (asDecoded (beaten n d).frame) (beaten n d) := by
    simp only [Peers.step, hinbox, h.failed]
    rfl
  have hreceive : l.step B .receive = { l with
      inbox := []
      receiver := q.flushInto.2
      released := l.released ++ q.flushInto.1
      arrived := l.arrived ++ [beaten n d] } := by
    rcases r with e | ⟨⟩
    · exfalso
      have hfailed : (l.step B .receive).failed = true := by
        rw [hstep, Peers.insert, hinsert]
      have := hok.mp hfailed
      omega
    · rw [hstep, Peers.insert, hinsert]
  -- the receiver reports the number of the message's datagram, and no other
  have hranges : q.flushInto.2.takeAckInto.1 = [((2 * n + 1) % 16777216, (2 * n + 1) % 16777216)] := by
    show q.sequenceNumberAckset.ack = _
    rw [hacks]
    exact ack_insert h.acks _
  have hfeedback : ((l.step B .receive).step B .takeAck).step B (.feedback n 0) =
      Peers.send B ((l.step B .receive).step B .takeAck)
        (.ackRanges [((2 * n + 1) % 16777216, (2 * n + 1) % 16777216)] 0) := by
    have hget : ((l.step B .receive).step B .takeAck).control[n]? =
        some (.ack [((2 * n + 1) % 16777216, (2 * n + 1) % 16777216)]) := by
      rw [hreceive]
      show (l.control ++ [.ack q.flushInto.2.takeAckInto.1])[n]? = _
      rw [List.getElem?_append_right (by rw [h.control]), h.control, hranges]
      simp
    generalize (l.step B .receive).step B .takeAck = l' at hget
    simp only [Peers.step, hget]
    rfl
  rw [hfeedback, hreceive]
  have hqueue := congrArg Prod.snd (ackRanges_single (B := B) h.grouped ((2 * n + 1) % 16777216) 0)
  refine ⟨?_, ?_, h.wire, rfl, fun f hf => ?_, h.failed, ?_, rfl⟩
  · show Stuck (n + 1) (l.sender.queue.ackRanges B _ 0).2
    rw [hqueue]
    exact h.stuck
  · show (l.sender.queue.ackRanges B _ 0).2.log = _
    rw [hqueue, h.stays, h.log]
  · obtain hf | rfl := Lib.mem_snoc.mp hf
    · exact h.arrived f hf
    · exact Nat.succ_pos n
  · show (l.control ++ [_]).length = n + 1
    rw [List.length_append, h.control]
    rfl

/-! ### Beat after beat -/

/-- The first beats: the first message is lost for the first time. -/
def jam : ℕ → List Action
  | 0 => [.send (.insert beat), .send (.insert beat), .send (.flush 0), .arrive 1, .receive,
      .takeAck, .feedback 0 0]
  | n + 1 => jam n ++ [.send (.insert beat)] ++ [.send (.flush 0)] ++ [.arrive (2 * (n + 1) + 1)] ++
      [.receive] ++ [.takeAck] ++ [.feedback (n + 1) 0]

theorem jammed_one : Jammed 1 (runPeers (.insertion false false) 1400 (jam 0)) where
  stuck := stuck_one (by decide +kernel) (by decide +kernel) (by decide +kernel)
  log := by decide +kernel
  wire := by decide +kernel
  inbox := List.isEmpty_iff.mp (by decide +kernel)
  arrived := by
    have hmessages : (runPeers (.insertion false false) 1400 (jam 0)).arrived.map
        QueuedFrame.message = [1] := by decide +kernel
    intro f hf
    have hmem := List.mem_map_of_mem (f := QueuedFrame.message) hf
    rw [hmessages, List.mem_singleton] at hmem
    omega
  failed := by decide +kernel
  control := by decide +kernel
  acks := by decide +kernel

theorem jammed_run (n : ℕ) (hn : n + 1 < 65536) :
    Jammed (n + 1) (runPeers (.insertion false false) 1400 (jam n)) := by
  induction n with
  | zero => exact jammed_one
  | succ n ih => exact ((ih (by omega)).transmit rfl).feedback hn

/-- Every action of the beats is by the rules. -/
theorem regular_run (n : ℕ) (hn : n + 1 < 65536) :
    Always (.insertion false false) 1400 (Regular (.insertion false false)) (jam n) := by
  induction n with
  | zero =>
    have hjam : jam 0 = [] ++ [Action.send (.insert beat)] ++ [Action.send (.insert beat)] ++
        [Action.send (.flush 0)] ++ [Action.arrive 1] ++ [Action.receive] ++ [Action.takeAck] ++
        [Action.feedback 0 0] := rfl
    rw [hjam]
    have hcapacity : Regular (.insertion false false) (runPeers (.insertion false false) 1400 [])
        (.send (.insert beat)) := by
      unfold Regular
      decide +kernel
    have hcapacity' : Regular (.insertion false false) (runPeers (.insertion false false) 1400
        ([] ++ [.send (.insert beat)])) (.send (.insert beat)) := by
      unfold Regular
      decide +kernel
    refine .concat (.concat (.concat (.concat (.concat (.concat (.concat ?_ hcapacity) hcapacity')
      ?_) ?_) ?_) ?_) ?_
    · exact fun before a after he => by simp at he
    all_goals exact trivial
  | succ n ih =>
    have hcapacity := stuck_hasCapacity (B := .insertion false false) rfl
      (jammed_run n (by omega)).stuck
    rw [jam]
    refine .concat (.concat (.concat (.concat (.concat (.concat (ih (by omega)) hcapacity) ?_) ?_) ?_)
      ?_) ?_
    all_goals exact trivial

/-- The beats, and one more message that arrives. -/
def jammed (n : ℕ) : List Action :=
  jam n ++ [.send (.insert beat)] ++ [.send (.flush 0)] ++ [.arrive (2 * (n + 1) + 1)] ++ [.receive]

theorem jammed_fails {n : ℕ} (hn : n + 2 = 65536) :
    Always (.insertion false false) 1400 (Regular (.insertion false false)) (jammed n) ∧
      TimelyRun (.insertion false false) 1400 (jammed n) ∧
      (runPeers (.insertion false false) 1400 (jammed n)).failed = true := by
  have hjammed := jammed_run n (by omega)
  obtain ⟨htimely, hfailed⟩ := (hjammed.transmit rfl).receive (by omega)
  refine ⟨?_, htimely, hfailed.mpr (by omega)⟩
  have hcapacity := stuck_hasCapacity (B := .insertion false false) rfl hjammed.stuck
  refine .concat (.concat (.concat (.concat (regular_run n (by omega)) hcapacity) ?_) ?_) ?_
  all_goals exact trivial

/-- **The receiver rejects a peer that keeps to the rules.** One message is lost whenever
it is sent, the next 65,535 arrive and are acknowledged; the one after them is outside the receive
window. -/
theorem receiver_jams :
    Always (.insertion false false) 1400 (Regular (.insertion false false)) (jammed 65534) ∧
      TimelyRun (.insertion false false) 1400 (jammed 65534) ∧
      (runPeers (.insertion false false) 1400 (jammed 65534)).failed = true :=
  jammed_fails rfl

end RustRaknet.Link
