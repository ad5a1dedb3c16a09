import RustRaknet.Send.Conserve
import RustRaknet.Send.RefineProbe

/-! # A frame that is never acknowledged

One frame stays in flight while others flow past it. In every beat a message is inserted, the burst
sends it together with the stuck frame, and the message alone is acknowledged; the acknowledgement
shows the stuck frame to be lost, so that it gets a new number and waits for the next burst. A beat
gives out two numbers, an even one to the stuck frame and an odd one to the message, so the
acknowledged number is never one of the stuck frame's.

The queue never holds more than two frames, and its reliable indexes run on without bound: after
2^24 of them a new frame has the index of the stuck one. -/

namespace RustRaknet.Send

open RustRaknet.Frame RustRaknet.Sequence RustRaknet.Lib.Result Ledger

variable {B : Build}

/-! ### One beat -/

/-- The message of a beat. -/
def beat : Message := ⟨.reliable, primaryChannel, [0xfe], false⟩

/-- The frame of the message under a reliable index. -/
def beatFrame (index : ℕ) : FrameSetPacket :=
  { FrameSetPacket.fromPayload .reliable (.copyShared [0xfe]) with reliableFrameIndex := index }

theorem beatFrame_isReliable (index k d : ℕ) :
    (QueuedFrame.mk (beatFrame index) k d).isReliable = true :=
  fromPayload_isReliable (r := .reliable) _ _ _
    (by simp [beatFrame, FrameSetPacket.reliability, FrameSetPacket.fromPayload])

theorem insert_beat {q : SendQ} (hmtu : q.mtu = 1400) (hbytes : q.bufferedBytes ≤ 1000) :
    q.insertPayload B beat = .ok { q with
      packets := q.packets ++ [⟨beatFrame q.reliableFrameIndex, q.log.length, 0⟩]
      reliableFrameIndex := next q.reliableFrameIndex
      bufferedBytes := q.bufferedBytes + 129
      log := q.log ++ [beat] } := by
  have hrequired : q.requiredBytes beat.reliability beat.payload.length = .ok 129 := by
    simp [SendQ.requiredBytes, SendQ.maxPayload, SendQ.frameCount, hmtu, beat, frameBudget_eq,
      maxBufferedBytes, Reassembly.maxFragments]
  unfold SendQ.insertPayload
  rw [hrequired, ok_bind, if_neg (by unfold maxBufferedBytes; omega)]
  simp [SendQ.maxPayload, hmtu, SendQ.pushMessage, beat, SendQ.reliablePayload, SendQ.pushReliable,
    SendQ.book, beatFrame, SendQ.unreliableMode, Reliability.isReliable]

/-- A queue with an MTU of 1,400 of which nothing is configured. -/
structure Unconfigured (q : SendQ) : Prop where
  mtu : q.mtu = 1400
  scheduler : q.scheduler = none
  recovery : q.recovery = none
  coalesce : q.coalesce = false
  grouped : q.groupedAcks = false

/-- The queue when a burst begins and at most one frame, which waits, is in flight. -/
theorem tick_sortFlight {q : SendQ} (tick : ℤ) (hB : B.recoveryPolicy = false)
    (hrecovery : q.recovery = none) {waiting : Option InFlight}
    (hflight : q.sentPacket = waiting.toList) (hunsent : ∀ p ∈ waiting, p.sent = false) :
    ∃ nextRetry flightOrderDirty,
      (q.tick B tick).sortFlight B = { q with nextRetry, flightOrderDirty } := by
  have hexpire : ∃ nextRetry, q.expire B tick = { q with nextRetry } := by
    rcases expire_unsent (B := B) (q := q) (by simpa [hflight] using hunsent) tick with he | he | he
    · exact ⟨q.nextRetry, he⟩
    · exact ⟨i64Max, he⟩
    · refine ⟨i64Max, he.trans ?_⟩
      simp [SendQ.clearRetry, SendQ.dropProbe, hrecovery]
  obtain ⟨nextRetry, hexpire⟩ := hexpire
  have htick : q.tick B tick = { q with nextRetry } := by
    simp [SendQ.tick, hB, hexpire]
  rw [htick]
  unfold SendQ.sortFlight
  split_ifs
  · refine ⟨nextRetry, false, ?_⟩
    have hsort : B.sortByKey q.sentPacket = q.sentPacket := by
      have hperm := B.sort_perm q.sentPacket
      rw [hflight] at hperm ⊢
      cases waiting with
      | none => exact hperm.eq_nil
      | some p => exact List.perm_singleton.mp hperm
    simp [hsort]
  · exact ⟨nextRetry, q.flightOrderDirty, rfl⟩

/-- The queue after a burst of one new frame, and of the frame that waits if there is one. -/
theorem flush_new {q : SendQ} {f : QueuedFrame} (waiting : Option InFlight) (tick : ℤ)
    (hB : B.recoveryPolicy = false) (h : Unconfigured q) (hflight : q.sentPacket = waiting.toList)
    (hunsent : ∀ p ∈ waiting, p.sent = false) (hpending : q.retriesPending = waiting.isSome)
    (hpackets : q.packets = [f]) (hf : f.isReliable = true) :
    (q.flush B tick).1 = ⟨waiting.toList.map InFlight.packet ++
      [f.numbered q.sequenceNumber q.allocated], false⟩ ∧
    ∃ nextRetry flightOrderDirty, (q.flush B tick).2 = { q with
      packets := []
      sentPacket := (waiting.toList.map fun p =>
        { p with sent := true, time := tick, retries := min (p.retries + 1) 4294967295 }) ++
        [⟨f.numbered q.sequenceNumber q.allocated, true, tick, 0, [], []⟩]
      sequenceNumber := next q.sequenceNumber
      allocated := q.allocated + 1
      nextRetry
      flightOrderDirty
      retriesPending := false } := by
  obtain ⟨nextRetry, dirty, hbegin⟩ := tick_sortFlight tick hB h.recovery hflight hunsent
  have hflush : q.flush B tick = q.flushLegacy B tick := by
    simp [SendQ.flush, hB, h.scheduler]
  rw [hflush]
  unfold SendQ.flushLegacy
  rw [hbegin]
  cases waiting with
  | none =>
    simp [SendQ.resendAll, SendQ.burst, hpending, hflight, SendQ.takeProbe, SendQ.probePacking,
      h.recovery, hpackets, Burst.sendLoop, Burst.sendOne, maxInFlightPackets, hf, h.coalesce,
      Burst.pop, Burst.fresh, SendQ.allocate, Burst.launch, OutgoingFrames.push]
  | some p =>
    simp [SendQ.resendAll, SendQ.burst, hpending, hflight, List.range_succ, Burst.resendAt,
      SendQ.takeProbe, SendQ.probePacking, SendQ.probeReplay, h.recovery, hunsent p rfl,
      Burst.resend, SendQ.clearRetries, hpackets, Burst.sendLoop, Burst.sendOne,
      maxInFlightPackets, hf, h.coalesce, Burst.pop, Burst.fresh, SendQ.allocate, Burst.launch,
      OutgoingFrames.push]

theorem expose_one {q : SendQ} {p : InFlight} {previous newest : ℕ} (tick : ℤ)
    (hflight : q.sentPacket = [p]) (hp : p.sent = true)
    (hlost : 0 < distance p.sequence previous ∧
      distance p.sequence previous < distance newest previous) :
    q.expose previous newest tick = (q.reissue 0 p tick).advanceAck newest := by
  simp [SendQ.expose, SendQ.missing, SendQ.nackAll, SendQ.nack, SendQ.nackAt, hflight, hp, hlost.1,
    hlost.2]

theorem sampleRtt_eq (q : SendQ) (tick : ℤ) (p : InFlight) : ∃ rto srtt nextRetry,
    q.sampleRtt B tick p = { q with rto, srtt, nextRetry } := by
  unfold SendQ.sampleRtt
  split_ifs
  · exact ⟨_, _, _, rfl⟩
  · exact ⟨q.rto, q.srtt, q.nextRetry, rfl⟩

/-- The queue after the second frame of its flight is acknowledged: the first is taken for lost. -/
theorem ack_two {q : SendQ} {p b : InFlight} {s : ℕ} (tick : ℤ) (hB : B.recoveryPolicy = false)
    (hgrouped : q.groupedAcks = false) (hflight : q.sentPacket = [p, b]) (hp : p.sent = true)
    (hnot : s ∉ p.ids) (hb : b.sequence = s) (hown : b.packet.frame.sharedPayload = none)
    (hnewer : newer s q.ackSequenceNumber = true)
    (hlost : 0 < distance p.sequence q.ackSequenceNumber ∧
      distance p.sequence q.ackSequenceNumber < distance s q.ackSequenceNumber) :
    ∃ fault rto srtt nextRetry, (q.ack B s tick).2 = { q with
      ackSequenceNumber := s
      sequenceNumber := next q.sequenceNumber
      allocated := q.allocated + 1
      sentPacket := [{ p.renumber q.sequenceNumber q.allocated with time := tick }]
      bufferedBytes := q.bufferedBytes - charge b.packet
      coalescingAllowed := false
      coalesce := false
      flightOrderDirty := true
      retriesPending := true
      fault
      rto
      srtt
      nextRetry } := by
  have hfind : q.sentPacket.findIdx? (fun item => item.ids.contains s) = some 1 := by
    have hp' : p.ids.contains s = false := by simpa using hnot
    have hb' : b.ids.contains s = true := by simp [InFlight.ids, hb]
    rw [hflight, List.findIdx?_cons, hp', List.findIdx?_cons, hb']
    rfl
  have hack : (q.ack B s tick).2 = q.acknowledge B s tick 1 b := by
    unfold SendQ.ack
    rw [hgrouped, Bool.false_and, if_neg Bool.false_ne_true]
    unfold SendQ.ackSingle
    rw [hfind, hflight]
    rfl
  rw [hack]
  have hrest : ((q.remove 1).ungroup.release b.packet).sentPacket = [p] := by
    simp [SendQ.remove, SendQ.ungroup, SendQ.release, hflight]
  have hacknowledge : q.acknowledge B s tick 1 b = SendQ.sampleRtt B
      ((((q.remove 1).ungroup.release b.packet).reissue 0 p tick).advanceAck s) tick b := by
    unfold SendQ.acknowledge
    simp only [SendQ.progress, hB, Bool.false_and, Bool.false_eq_true, if_false]
    rw [show ((q.remove 1).ungroup.release b.packet).ackSequenceNumber = q.ackSequenceNumber from rfl,
      if_pos hnewer, expose_one tick hrest hp hlost]
  rw [hacknowledge]
  obtain ⟨rto, srtt, nextRetry, hsample⟩ := sampleRtt_eq (B := B)
    ((((q.remove 1).ungroup.release b.packet).reissue 0 p tick).advanceAck s) tick b
  rw [hsample]
  refine ⟨q.fault || decide (q.bufferedBytes < charge b.packet), rto, srtt, nextRetry, ?_⟩
  simp [SendQ.advanceAck, SendQ.reissue, SendQ.release, SendQ.ungroup, SendQ.remove,
    SendQ.countDown, SendQ.releasedPayload, SendQ.exhausted, hown, hflight, hgrouped, charge]
  rfl

/-! ### Beat after beat -/

/-- The stuck frame, under the number `2 * n`, waits to be sent again. -/
structure Holding (n : ℕ) (q : SendQ) : Prop extends Unconfigured q where
  flight : ∃ p, q.sentPacket = [p] ∧ p.sent = false ∧ p.packet.frame.reliableFrameIndex = 0 ∧
    p.sequence = 2 * n % 16777216 ∧ ∀ id ∈ p.ids, id % 2 = 0
  sequence : q.sequenceNumber = (2 * n + 1) % 16777216
  acknowledged : q.ackSequenceNumber = (2 * n + 16777215) % 16777216
  pending : q.retriesPending = true

/-- The queue after `n` beats. -/
structure Stuck (n : ℕ) (q : SendQ) : Prop extends Holding n q where
  packets : q.packets = []
  index : q.reliableFrameIndex = (n + 1) % 16777216
  bytes : q.bufferedBytes = 129

/-- The queue between the insertion of the message of a beat and the burst. -/
structure Loaded (n : ℕ) (q : SendQ) : Prop extends Holding n q where
  packets : ∃ k, q.packets = [⟨beatFrame ((n + 1) % 16777216), k, 0⟩]
  index : q.reliableFrameIndex = (n + 2) % 16777216
  bytes : q.bufferedBytes = 258

theorem Stuck.insert {n : ℕ} {q : SendQ} (h : Stuck n q) :
    ∃ q', q.insertPayload B beat = .ok q' ∧ Loaded n q' := by
  refine ⟨_, insert_beat h.mtu (by rw [h.bytes]; omega), { h with }, ⟨q.log.length, ?_⟩, ?_, ?_⟩
  · simp [h.packets, h.index]
  · simp [h.index, Nat.add_assoc]
  · simp [h.bytes]

theorem mem_pushPrevious {previous : List ℕ} {x id : ℕ} (h : id ∈ pushPrevious previous x) :
    id ∈ x :: previous := by
  unfold pushPrevious at h
  rcases List.mem_append.mp h with h | h
  · split_ifs at h
    · exact List.mem_cons_of_mem _ (List.mem_of_mem_drop h)
    · exact List.mem_cons_of_mem _ h
  · simp [List.mem_singleton.mp h]

theorem distance_beat (n : ℕ) :
    distance (2 * n % 16777216) ((2 * n + 16777215) % 16777216) = 1 ∧
      distance ((2 * n + 1) % 16777216) ((2 * n + 16777215) % 16777216) = 2 := by
  constructor
  · rw [← Nat.add_mod_right (2 * n), distance_mod_of_le (by omega) (by omega)]
    omega
  · rw [← Nat.add_mod_right (2 * n + 1), distance_mod_of_le (by omega) (by omega)]
    omega

/-- The burst of a beat and the acknowledgement of its message. -/
theorem Loaded.beat {n : ℕ} {q : SendQ} (hB : B.recoveryPolicy = false) (h : Loaded n q) :
    Stuck (n + 1) ((q.flush B 0).2.ack B ((2 * n + 1) % 16777216) 0).2 ∧
      ((q.flush B 0).2.ack B ((2 * n + 1) % 16777216) 0).2.log = q.log := by
  obtain ⟨k, hpackets⟩ := h.packets
  obtain ⟨p, hflight, hsent, hindex, hseq, heven⟩ := h.flight
  obtain ⟨-, nextRetry, dirty, hflush⟩ := flush_new (some p) 0 hB h.toUnconfigured hflight
    (by simpa using hsent) h.pending hpackets (beatFrame_isReliable _ _ _)
  obtain ⟨hlost, hspan⟩ := distance_beat n
  have hack : ∃ fault rto srtt nextRetry, _ := ack_two (B := B) (q := (q.flush B 0).2)
    (s := (2 * n + 1) % 16777216) (p := { p with
      sent := true, time := 0, retries := min (p.retries + 1) 4294967295 })
    (b := ⟨(QueuedFrame.mk (beatFrame ((n + 1) % 16777216)) k 0).numbered q.sequenceNumber
      q.allocated, true, 0, 0, [], []⟩) 0 hB
    (by rw [hflush]; exact h.grouped) (by rw [hflush]; rfl) rfl
    (fun hid => by
      have := heven _ hid
      omega)
    h.sequence rfl
    (by rw [hflush, newer_iff]; simp only [h.acknowledged, hspan]; omega)
    (by
      rw [hflush]
      show 0 < distance p.sequence q.ackSequenceNumber ∧
        distance p.sequence q.ackSequenceNumber < distance _ q.ackSequenceNumber
      rw [h.acknowledged, hseq, hlost, hspan]
      omega)
  obtain ⟨fault, rto, srtt, nextRetry', hack⟩ := hack
  rw [hack, hflush]
  refine ⟨⟨⟨{ h with coalesce := rfl }, ⟨_, rfl, rfl, hindex, ?_, ?_⟩, ?_, ?_, rfl⟩, rfl, h.index,
    ?_⟩, rfl⟩
  · show next q.sequenceNumber = _
    rw [h.sequence, next_mod]
    omega
  · intro id hid
    rcases List.mem_cons.mp hid with rfl | hid
    · show next q.sequenceNumber % 2 = 0
      rw [h.sequence, next_mod]
      omega
    · exact heven id (mem_pushPrevious hid)
  · show next (next q.sequenceNumber) = _
    rw [h.sequence, next_mod, next_mod]
    omega
  · show (2 * n + 1) % 16777216 = _
    omega
  · show q.bufferedBytes - charge _ = 129
    rw [h.bytes]
    simp [charge, frameBudget_eq, beatFrame, QueuedFrame.numbered, FrameSetPacket.fromPayload,
      FramePayload.len, FramePayload.copyShared, FramePayload.deref]

/-- The operations of `n` beats, after the first. -/
def beats : ℕ → List Op
  | 0 => [.insert beat, .insert beat, .flush 0, .ack 1 0]
  | n + 1 =>
    beats n ++ [.insert beat] ++ [.flush 0] ++ [.ack ((2 * (n + 1) + 1) % 16777216) 0]

/-- A queue that is stuck for the first time. -/
theorem stuck_one {q : SendQ}
    (hflight : q.sentPacket.map (fun p => (p.sent, p.packet.frame.reliableFrameIndex, p.ids)) =
      [(false, 0, [2, 0])])
    (hcounters : q.sequenceNumber = 3 ∧ q.ackSequenceNumber = 1 ∧ q.reliableFrameIndex = 2 ∧
      q.bufferedBytes = 129)
    (hrest : q.mtu = 1400 ∧ q.packets = [] ∧ q.scheduler.isNone ∧ q.recovery = none ∧
      q.coalesce = false ∧ q.groupedAcks = false ∧ q.retriesPending = true) : Stuck 1 q := by
  obtain ⟨p, hl, he⟩ := List.map_eq_singleton_iff.mp hflight
  simp only [Prod.mk.injEq] at he
  obtain ⟨hsequence, hack, hindex, hbytes⟩ := hcounters
  obtain ⟨hmtu, hpackets, hscheduler, hrecovery, hcoalesce, hgrouped, hpending⟩ := hrest
  refine ⟨⟨⟨hmtu, Option.isNone_iff_eq_none.mp hscheduler, hrecovery, hcoalesce, hgrouped⟩,
    ⟨p, hl, he.1, he.2.1, ?_, ?_⟩, hsequence, hack, hpending⟩, hpackets, hindex, hbytes⟩
  · have := congrArg List.head? he.2.2
    simpa [InFlight.ids] using this
  · rw [he.2.2]
    decide

theorem run_beats_zero : Stuck 1 (run (.insertion false false) 1400 (beats 0)).queue :=
  stuck_one (by decide +kernel) (by decide +kernel) (by decide +kernel)

theorem step_insert {n : ℕ} {r : Run} (h : Stuck n r.queue) :
    Loaded n (r.step B (.insert beat)).queue := by
  obtain ⟨q, hq, hloaded⟩ := h.insert (B := B)
  rw [Run.insert_ok hq]
  exact hloaded

theorem run_beat {n : ℕ} {ops : List Op} (hB : B.recoveryPolicy = false)
    (h : Stuck n (run B 1400 ops).queue) :
    Stuck (n + 1) (run B 1400
      (ops ++ [.insert beat] ++ [.flush 0] ++ [.ack ((2 * n + 1) % 16777216) 0])).queue := by
  rw [run_append, run_append, run_append]
  exact ((step_insert h).beat hB).1

theorem run_beats : ∀ n, Stuck (n + 1) (run (.insertion false false) 1400 (beats n)).queue
  | 0 => run_beats_zero
  | n + 1 => run_beat rfl (run_beats n)

theorem run_beats_insert {n : ℕ} (hn : (n + 2) % 16777216 = 0) :
    (run (.insertion false false) 1400 (beats n ++ [.insert beat])).queue.packets.map
        (fun f => f.frame.reliableFrameIndex) = [0] ∧
      (run (.insertion false false) 1400 (beats n ++ [.insert beat])).queue.sentPacket.map
        (fun p => p.packet.frame.reliableFrameIndex) = [0] := by
  have h := step_insert (B := .insertion false false) (run_beats n)
  rw [run_append]
  obtain ⟨k, hpackets⟩ := h.packets
  obtain ⟨p, hflight, -, hindex, -⟩ := h.flight
  rw [hpackets, hflight]
  refine ⟨?_, ?_⟩
  · simp [beatFrame, hn]
  · simp [hindex]

/-- **Reliable indexes of held frames clash.** After 2^24 messages have passed a stuck frame, the
queue holds two frames, and both have the reliable index 0. -/
theorem indexes_clash :
    (run (.insertion false false) 1400 (beats 16777214 ++ [.insert beat])).queue.packets.map
        (fun f => f.frame.reliableFrameIndex) = [0] ∧
      (run (.insertion false false) 1400 (beats 16777214 ++ [.insert beat])).queue.sentPacket.map
        (fun p => p.packet.frame.reliableFrameIndex) = [0] :=
  run_beats_insert (by decide)

end RustRaknet.Send
