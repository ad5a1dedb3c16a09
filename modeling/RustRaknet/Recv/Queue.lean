import RustRaknet.Codec
import RustRaknet.Indexes
import RustRaknet.Reassembly

/-! # The receive queue

`arq.rs`: `RecvQ`. Every frame of a datagram is inserted, passes the reliable window, and goes to
one of three places by its mode: `packets` (released in datagram order), or, for ordered frames,
reassembly and then `ordered_packets`, until its turn comes and it moves to `ready_ordered`.
`flush_into` hands out what is ready.

An insertion that fails has already changed the queue, so `insert` returns the result and the
queue. `Session` is the receiving loop of `start_receiver`: insert, and flush when that succeeded. -/

namespace RustRaknet.Recv

open RustRaknet.Frame RustRaknet.Sequence RustRaknet.Indexes RustRaknet.Reassembly
  RustRaknet.Lib.Keyed

/-! ### The queue -/

/-- Frames by channel and ordered index. -/
abbrev OrderedMap := AList fun _ : ℕ × ℕ => FrameSetPacket

/-- `RecvQ`. The flag `fault` records a subtraction that went below zero. -/
structure RecvQ where
  sequencedFrameIndexes : ChannelIndexes
  lastOrderedIndexes : ChannelIndexes
  sequenceNumberAckset : AckSet
  packets : FrameMap
  orderedPackets : OrderedMap
  fragmentQueue : FragmentQ
  reliableWindow : ReliableWindow
  orderedBytes : ℕ
  readyOrdered : List FrameSetPacket
  readyBytes : ℕ
  fault : Bool

/-- `RecvQ::new`. -/
def RecvQ.new : RecvQ where
  sequencedFrameIndexes := .empty
  lastOrderedIndexes := .empty
  sequenceNumberAckset := .empty
  packets := ∅
  orderedPackets := ∅
  fragmentQueue := .empty
  reliableWindow := .empty
  orderedBytes := 0
  readyOrdered := []
  readyBytes := 0
  fault := false

namespace RecvQ

variable (q : RecvQ)

/-- `self.packets.entry(sequence_number).or_insert(frame)`. -/
def orInsert (frame : FrameSetPacket) : RecvQ :=
  match q.packets.lookup frame.sequenceNumber with
  | none => { q with packets := q.packets.insert frame.sequenceNumber frame }
  | some _ => q

/-- The arms `UnreliableSequenced` and `ReliableSequenced` of `RecvQ::insert`. -/
def insertSequenced (frame : FrameSetPacket) : RecvQ :=
  let lastIndex := q.sequencedFrameIndexes.get frame.orderChannel
  if frame.sequencedFrameIndex = lastIndex ∨ newer frame.sequencedFrameIndex lastIndex then
    let q := q.orInsert frame
    { q with sequencedFrameIndexes :=
        q.sequencedFrameIndexes.set frame.orderChannel (next frame.sequencedFrameIndex) }
  else q

/-- One turn of the loop over `ordered_packets`: the stored frame `frame` of `channel` is next. -/
def release (channel : ℕ) (frame : FrameSetPacket) : RecvQ :=
  let expected := q.lastOrderedIndexes.get channel
  { q with
    orderedPackets := q.orderedPackets.erase (channel, expected)
    orderedBytes := q.orderedBytes - frame.data.len
    fault := q.fault || decide (q.orderedBytes < frame.data.len)
    readyBytes := q.readyBytes + frame.data.len
    readyOrdered := q.readyOrdered ++ [frame]
    lastOrderedIndexes := q.lastOrderedIndexes.set channel (next expected) }

/-- The loop over `ordered_packets`. Every turn takes a frame out, so their number is enough turns
(`drain_induction`). -/
def drain (channel : ℕ) : ℕ → RecvQ → RecvQ
  | 0, q => q
  | n + 1, q =>
    match q.orderedPackets.lookup (channel, q.lastOrderedIndexes.get channel) with
    | none => q
    | some frame => drain channel n (q.release channel frame)

/-- The frame the channel waits for goes straight to `ready_ordered`. -/
def ready (frame : FrameSetPacket) : RecvQ :=
  { q with
    readyBytes := q.readyBytes + frame.data.len
    readyOrdered := q.readyOrdered ++ [frame]
    lastOrderedIndexes := q.lastOrderedIndexes.set frame.orderChannel
      (next (q.lastOrderedIndexes.get frame.orderChannel)) }

/-- A frame ahead of its turn is stored. -/
def store (frame : FrameSetPacket) : RecvQ :=
  { q with
    orderedBytes := q.orderedBytes + frame.data.len
    orderedPackets :=
      q.orderedPackets.insert (frame.orderChannel, frame.orderedFrameIndex) frame }

/-- The rest of the arm `ReliableOrdered` of `RecvQ::insert`, for a complete message. -/
def insertComplete (expectedIndex : ℕ) (frame : FrameSetPacket) : Except RaknetError Unit × RecvQ :=
  match q.orderedPackets.lookup (frame.orderChannel, frame.orderedFrameIndex) with
  | some _ => (.ok (), q)
  | none =>
    if receiveWindow ≤ size q.orderedPackets + q.readyOrdered.length ∨
        maxBytes < q.orderedBytes + q.readyBytes + frame.data.len then
      (.error .packetParseError, q)
    else if frame.orderedFrameIndex = expectedIndex then
      let q := q.ready frame
      (.ok (), drain frame.orderChannel (size q.orderedPackets) q)
    else (.ok (), q.store frame)

/-- A fragment goes to the reassembly, any other frame is complete. -/
def reassemble (frame : FrameSetPacket) : Except RaknetError (Option FrameSetPacket) × RecvQ :=
  if frame.isFragment then
    let (r, fragmentQueue) := q.fragmentQueue.insertAndTakeCompleted frame
    (r, { q with fragmentQueue })
  else (.ok (some frame), q)

/-- The arm `ReliableOrdered` of `RecvQ::insert`. -/
def insertOrdered (frame : FrameSetPacket) : Except RaknetError Unit × RecvQ :=
  let expectedIndex := q.lastOrderedIndexes.get frame.orderChannel
  if newer expectedIndex frame.orderedFrameIndex then (.ok (), q)
  else if receiveWindow ≤ distance frame.orderedFrameIndex expectedIndex then
    (.error .packetParseError, q)
  else
    match q.reassemble frame with
    | (.error e, q) => (.error e, q)
    | (.ok none, q) => (.ok (), q)
    | (.ok (some frame), q) => q.insertComplete expectedIndex frame

/-- The `match` of `RecvQ::insert` on the mode. -/
def dispatch (reliability : Reliability) (frame : FrameSetPacket) :
    Except RaknetError Unit × RecvQ :=
  match reliability with
  | .unreliable => (.ok (), q.orInsert frame)
  | .unreliableSequenced => (.ok (), q.insertSequenced frame)
  | .reliable => (.ok (), { q with packets := q.packets.insert frame.sequenceNumber frame })
  | .reliableOrdered => q.insertOrdered frame
  | .reliableSequenced => (.ok (), q.insertSequenced frame)

/-- `RecvQ::insert`. -/
def insert (frame : FrameSetPacket) : Except RaknetError Unit × RecvQ :=
  match frame.reliability with
  | .error e => (.error e, q)
  | .ok reliability =>
    let q := { q with
      sequenceNumberAckset := q.sequenceNumberAckset.insert frame.sequenceNumber }
    if reliability.isReliable then
      match q.reliableWindow.accept frame.reliableFrameIndex with
      | .error e => (.error e, q)
      | .ok (accepted, reliableWindow) =>
        let q := { q with reliableWindow }
        if accepted then q.dispatch reliability frame else (.ok (), q)
    else q.dispatch reliability frame

/-- The frames of `packets` in the order of their sequence numbers, as `flush_into` sorts them. -/
def sortedPackets : List FrameSetPacket :=
  (q.packets.entries.map Sigma.snd).insertionSort fun a b => a.sequenceNumber ≤ b.sequenceNumber

/-- `RecvQ::flush_into`. -/
def flushInto : List FrameSetPacket × RecvQ :=
  (q.readyOrdered ++ q.sortedPackets,
    { q with readyOrdered := [], readyBytes := 0, packets := ∅ })

/-- `RecvQ::needs_maintenance`. -/
def needsMaintenance : Bool :=
  !q.sequenceNumberAckset.nack.isEmpty || !q.fragmentQueue.fragments.entries.isEmpty

/-- `RecvQ::take_ack_into`. -/
def takeAckInto : List (ℕ × ℕ) × RecvQ :=
  let (ranges, sequenceNumberAckset) := q.sequenceNumberAckset.takeAckInto
  (ranges, { q with sequenceNumberAckset })

/-- `RecvQ::take_nack_into`. -/
def takeNackInto : List (ℕ × ℕ) × RecvQ :=
  let (ranges, sequenceNumberAckset) := q.sequenceNumberAckset.takeNackInto
  (ranges, { q with sequenceNumberAckset })

end RecvQ

/-! ### The receiving loop -/

/-- A receive queue with what was put in and what came out. -/
structure Session where
  queue : RecvQ
  inserted : List FrameSetPacket
  released : List FrameSetPacket

/-- A new connection. -/
def Session.new : Session := ⟨RecvQ.new, [], []⟩

/-- One frame in the loop of `start_receiver`: flush when the insertion succeeded. -/
def Session.receive (s : Session) (frame : FrameSetPacket) : Session :=
  match s.queue.insert frame with
  | (.ok (), q) =>
    let (out, q) := q.flushInto
    ⟨q, s.inserted ++ [frame], s.released ++ out⟩
  | (.error _, q) => ⟨q, s.inserted ++ [frame], s.released⟩

/-- The session after the given frames. A real connection is closed at the first error; here it may
go on. -/
def Session.run (frames : List FrameSetPacket) : Session := frames.foldl Session.receive .new

theorem Session.run_append (frames : List FrameSetPacket) (f : FrameSetPacket) :
    Session.run (frames ++ [f]) = (Session.run frames).receive f := by
  simp [Session.run]

theorem Session.receive_ok {s : Session} {frame : FrameSetPacket} {q : RecvQ}
    (h : s.queue.insert frame = (.ok (), q)) :
    s.receive frame = ⟨q.flushInto.2, s.inserted ++ [frame], s.released ++ q.flushInto.1⟩ := by
  unfold Session.receive; rw [h]

theorem Session.receive_error {s : Session} {frame : FrameSetPacket} {q : RecvQ} {e : RaknetError}
    (h : s.queue.insert frame = (.error e, q)) :
    s.receive frame = ⟨q, s.inserted ++ [frame], s.released⟩ := by
  unfold Session.receive; rw [h]

/-- A frame some datagram decodes to. -/
def Decoded (frame : FrameSetPacket) : Prop :=
  ∃ b frames, Codec.decodeInto b = .ok frames ∧ frame ∈ frames

theorem Decoded.encodable {frame : FrameSetPacket} (h : Decoded frame) :
    ∃ s < 2 ^ 24, Codec.Encodable s frame := by
  obtain ⟨b, frames, hb, hmem⟩ := h
  obtain ⟨_, s, hs, -, hall, -⟩ := Codec.decodeInto_ok hb
  exact ⟨s, hs, (hall frame hmem).1⟩

/-! ### What an insertion does -/

/-- **The rule of the loop**: an invariant of its turns holds at its end, where the channel waits
for a frame that is not stored. -/
theorem drain_induction {I : RecvQ → Prop} (channel : ℕ)
    (hstep : ∀ q frame, I q →
      q.orderedPackets.lookup (channel, q.lastOrderedIndexes.get channel) = some frame →
      I (q.release channel frame)) :
    ∀ (n : ℕ) (q : RecvQ), size q.orderedPackets = n → I q →
      I (RecvQ.drain channel n q) ∧
        (RecvQ.drain channel n q).orderedPackets.lookup
          (channel, (RecvQ.drain channel n q).lastOrderedIndexes.get channel) = none
  | 0, q, hn, hI => by
    refine ⟨hI, ?_⟩
    simp only [RecvQ.drain, eq_empty_of_size hn]
    rfl
  | n + 1, q, hn, hI => by
    rcases h : q.orderedPackets.lookup (channel, q.lastOrderedIndexes.get channel) with _ | frame
    · have e : RecvQ.drain channel (n + 1) q = q := by simp [RecvQ.drain, h]
      rw [e]
      exact ⟨hI, h⟩
    · have e : RecvQ.drain channel (n + 1) q = RecvQ.drain channel n (q.release channel frame) := by
        simp [RecvQ.drain, h]
      have hs := size_erase h
      rw [e]
      exact drain_induction channel hstep n _ (by simp only [RecvQ.release]; omega)
        (hstep q frame hI h)

/-- The queue after `frame` was put among the unordered packets: every packet is an old one or the
frame. -/
def Puts (frame : FrameSetPacket) (q q' : RecvQ) : Prop :=
  ∃ packets sequenced, q' = { q with packets, sequencedFrameIndexes := sequenced } ∧
    ∀ k f, packets.lookup k = some f → q.packets.lookup k = some f ∨ f = frame

theorem puts_insert (frame : FrameSetPacket) (q : RecvQ) :
    Puts frame q { q with packets := q.packets.insert frame.sequenceNumber frame } := by
  refine ⟨_, _, rfl, fun k f hf => ?_⟩
  by_cases hk : k = frame.sequenceNumber
  · subst hk
    rw [AList.lookup_insert] at hf
    exact .inr (Option.some.inj hf).symm
  · rw [AList.lookup_insert_ne hk] at hf
    exact .inl hf

theorem puts_orInsert (frame : FrameSetPacket) (q : RecvQ) : Puts frame q (q.orInsert frame) := by
  unfold RecvQ.orInsert
  split
  · exact puts_insert frame q
  · exact ⟨_, _, rfl, fun k f hf => .inl hf⟩

theorem puts_insertSequenced (frame : FrameSetPacket) (q : RecvQ) :
    Puts frame q (q.insertSequenced frame) := by
  unfold RecvQ.insertSequenced
  simp only
  split_ifs
  · obtain ⟨packets, sequenced, e, h⟩ := puts_orInsert frame q
    exact ⟨packets, _, by rw [e], h⟩
  · exact ⟨_, _, rfl, fun k f hf => .inl hf⟩

/-- A property that does not look at ordered frames and fragments survives an ordered frame. -/
theorem insertOrdered_rule {I : RecvQ → Prop} (frame : FrameSetPacket)
    (hfragments : ∀ q fragmentQueue, I q → I { q with fragmentQueue })
    (hready : ∀ q m, I q → I (q.ready m)) (hrelease : ∀ q c m, I q → I (q.release c m))
    (hstore : ∀ q m, I q → I (q.store m)) (q : RecvQ) (h : I q) :
    I (q.insertOrdered frame).2 := by
  have hcomplete : ∀ q e m, I q → I (q.insertComplete e m).2 := by
    intro q e m h
    unfold RecvQ.insertComplete
    split
    · exact h
    · split_ifs
      · exact h
      · exact (drain_induction m.orderChannel (fun q f hI _ => hrelease q _ f hI) _ (q.ready m) rfl
          (hready q m h)).1
      · exact hstore q m h
  have hreassemble : I (q.reassemble frame).2 := by
    unfold RecvQ.reassemble
    split_ifs
    · exact hfragments q _ h
    · exact h
  unfold RecvQ.insertOrdered
  simp only
  split_ifs
  · exact h
  · exact h
  · rcases he : q.reassemble frame with ⟨_ | _ | m, q'⟩ <;> rw [he] at hreassemble
    · exact hreassemble
    · exact hreassemble
    · exact hcomplete q' _ m hreassemble

theorem dispatch_puts {r : Reliability} (h : r ≠ .reliableOrdered) (q : RecvQ)
    (frame : FrameSetPacket) :
    ∃ q', q.dispatch r frame = (.ok (), q') ∧ Puts frame q q' := by
  cases r with
  | reliableOrdered => exact absurd rfl h
  | unreliable => exact ⟨_, rfl, puts_orInsert frame q⟩
  | unreliableSequenced | reliableSequenced => exact ⟨_, rfl, puts_insertSequenced frame q⟩
  | reliable => exact ⟨_, rfl, puts_insert frame q⟩

theorem insert_eq {q : RecvQ} {frame : FrameSetPacket} {r : Reliability}
    (hmode : frame.reliability = .ok r) :
    q.insert frame =
      if r.isReliable then
        match q.reliableWindow.accept frame.reliableFrameIndex with
        | .error e => (.error e, { q with
          sequenceNumberAckset := q.sequenceNumberAckset.insert frame.sequenceNumber })
        | .ok (accepted, reliableWindow) =>
          if accepted then ({ q with
            sequenceNumberAckset := q.sequenceNumberAckset.insert frame.sequenceNumber
            reliableWindow } : RecvQ).dispatch r frame
          else (.ok (), { q with
            sequenceNumberAckset := q.sequenceNumberAckset.insert frame.sequenceNumber
            reliableWindow })
      else ({ q with
        sequenceNumberAckset := q.sequenceNumberAckset.insert frame.sequenceNumber } :
          RecvQ).dispatch r frame := by
  unfold RecvQ.insert
  exact hmode ▸ rfl

/-- **The rule of `insert`**: a property of the queue survives an insertion when it survives each
of the things an insertion may do. -/
theorem insert_rule {I : RecvQ → Prop} (frame : FrameSetPacket)
    (hack : ∀ q acks, I q → I { q with sequenceNumberAckset := acks })
    (hwindow : ∀ q b w, I q → q.reliableWindow.accept frame.reliableFrameIndex = .ok (b, w) →
      I { q with reliableWindow := w })
    (hput : ∀ q q', I q → Puts frame q q' → frame.reliability ≠ .ok .reliableOrdered → I q')
    (hordered : ∀ q, I q → frame.reliability = .ok .reliableOrdered →
      I (q.insertOrdered frame).2)
    (q : RecvQ) (hI : I q) : I (q.insert frame).2 := by
  have hdispatch : ∀ q r, I q → frame.reliability = .ok r → I (q.dispatch r frame).2 := by
    intro q r hI hr
    by_cases hmode : r = .reliableOrdered
    · subst hmode
      exact hordered q hI hr
    · obtain ⟨q', he, hputs⟩ := dispatch_puts hmode q frame
      rw [he]
      exact hput q q' hI hputs fun h => hmode (Except.ok.inj (hr.symm.trans h))
  rcases hr : frame.reliability with e | r
  · unfold RecvQ.insert
    rw [hr]
    exact hI
  · have hI' := hack q (q.sequenceNumberAckset.insert frame.sequenceNumber) hI
    rw [insert_eq hr]
    split_ifs
    · rcases ha : q.reliableWindow.accept frame.reliableFrameIndex with e | ⟨b, w⟩
      · exact hI'
      · simp only
        split_ifs
        · exact hdispatch _ r (hwindow _ _ w hI' ha) hr
        · exact hwindow _ _ w hI' ha
    · exact hdispatch _ r hI' hr

theorem dispatch_acks (r : Reliability) (q : RecvQ) (frame : FrameSetPacket) :
    (q.dispatch r frame).2.sequenceNumberAckset = q.sequenceNumberAckset := by
  by_cases hmode : r = .reliableOrdered
  · subst hmode
    exact insertOrdered_rule (I := fun q' => q'.sequenceNumberAckset = q.sequenceNumberAckset) frame
      (fun _ _ h => h) (fun _ _ h => h) (fun _ _ _ h => h) (fun _ _ h => h) q rfl
  · obtain ⟨q', he, packets, sequenced, rfl, -⟩ := dispatch_puts hmode q frame
    rw [he]

theorem reliability_of_insert {q q' : RecvQ} {frame : FrameSetPacket}
    (h : q.insert frame = (.ok (), q')) : ∃ r, frame.reliability = .ok r := by
  rcases hr : frame.reliability with e | r
  · unfold RecvQ.insert at h
    rw [hr] at h
    cases h
  · exact ⟨r, rfl⟩

theorem insert_acks {q : RecvQ} {frame : FrameSetPacket} {r : Reliability}
    (hmode : frame.reliability = .ok r) :
    (q.insert frame).2.sequenceNumberAckset =
      q.sequenceNumberAckset.insert frame.sequenceNumber := by
  rw [insert_eq hmode]
  split_ifs
  · rcases q.reliableWindow.accept frame.reliableFrameIndex with e | ⟨accepted, w⟩
    · rfl
    · simp only
      split_ifs
      · exact dispatch_acks r _ frame
      · rfl
  · exact dispatch_acks r _ frame

end RustRaknet.Recv
