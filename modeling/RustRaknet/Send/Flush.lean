import RustRaknet.Send.Feedback

/-! # The send queue: flush

`arq.rs`: `tick`, which finds the frames that timed out and may start a tail probe, and the two ways
to fill a burst of outgoing frames. `flush` without a policy sends every frame that waits for a
retransmission, then new frames while the flight has room. `flush_scheduled` takes turns between
three lanes (unreliable frames, retransmissions, new reliable frames) within a byte budget.

Unfragmented ordered frames may be packed: a frame joins the datagram of the frame before it. -/

namespace RustRaknet.Send

open RustRaknet.Frame RustRaknet.Sequence

/-- `OutgoingFrames`. -/
structure OutgoingFrames where
  frames : List QueuedFrame
  coalesced : Bool
  deriving DecidableEq, Repr

/-- A burst before its first frame. -/
def OutgoingFrames.empty : OutgoingFrames := ⟨[], false⟩

/-- `OutgoingFrames::push`. -/
def OutgoingFrames.push (o : OutgoingFrames) (f : QueuedFrame) : OutgoingFrames :=
  { o with frames := o.frames ++ [f] }

/-- One turn of the loop of `retry_timeout`. The product with `1.5` is exact for these numbers. -/
def backOff (timeout : ℤ) : ℤ := min (timeout * 3 / 2) rtoUbound

/-- `SendQ::retry_timeout`. -/
def retryTimeout (rto : ℤ) (retries : ℕ) : ℤ := backOff^[min retries 32] rto

namespace SendQ

variable (B : Build)

/-! ### Timeouts and probes -/

/-- `SendQ::probe_deadline`. -/
def probeDeadline (q : SendQ) : ℤ :=
  match q.recovery with
  | none => i64Max
  | some r =>
    match r.options.tailProbeMinDelay, q.sentPacket with
    | none, _ => i64Max
    | _, [] => i64Max
    | some delay, first :: _ =>
      if !r.sampledRtt || r.probed then i64Max
      else if !q.packets.isEmpty || decide (maxCoalescedFrames < q.sentPacket.length) then i64Max
      else if q.sentPacket.any fun p => !p.sent || p.retries != 0 || !p.previous.isEmpty ||
          p.sequence != first.sequence then i64Max
      else if q.scheduler.any fun s => !s.unreliable.isEmpty ||
          decide (s.options.flushBytes < (q.sentPacket.map fun p => p.packet.size).sum) then i64Max
      else
        let minimum : ℤ := max (min ((delay / 1000000 : ℕ) : ℤ) i64Max) 1
        saturatingAdd r.lastProgress
          (max minimum (saturatingAdd (saturatingMul q.srtt 3) 1 / 2))

/-- The whole flight, one datagram, gets a new number and waits to be sent again. -/
def replay (q : SendQ) (first : InFlight) (r : Recovery) : SendQ :=
  { q with
    sequenceNumber := next q.sequenceNumber
    allocated := q.allocated + 1
    sentPacket := q.sentPacket.map fun p =>
      { p.renumber q.sequenceNumber q.allocated with
        previous := pushPrevious p.previous first.sequence }
    recovery := some { r with
      probed := true
      probeReplay := some q.sequenceNumber
      pendingProbe := some ⟨q.sequenceNumber,
        saturatingAdd first.time (retryTimeout q.rto first.retries)⟩
      probePacked := decide (1 < q.sentPacket.length) }
    groupedAcks := q.groupedAcks || decide (1 < q.sentPacket.length)
    flightOrderDirty := true
    retriesPending := true }

/-- `SendQ::probe_tail`. -/
def probeTail (q : SendQ) (now : ℤ) : SendQ :=
  let deadline := q.probeDeadline
  if deadline = i64Max ∨ now < deadline ∨ q.nextRetry ≤ now then q
  else
    match q.sentPacket, q.recovery with
    | first :: _, some r => q.replay first r
    | _, _ => q

/-- The body of the loop of `SendQ::tick`. -/
def tickAt (probe : Option ProbeFallback) (tick : ℤ) (q : SendQ) (i : ℕ) : SendQ :=
  match q.sentPacket[i]? with
  | none => q
  | some p =>
    let curRto := retryTimeout q.rto p.retries
    let expired := decide (curRto ≤ tick - p.time) ||
      probe.any fun probe => probe.sequence == p.sequence && decide (probe.deadline ≤ tick)
    if p.sent && expired then q.reissue i p p.time
    else if p.sent then { q with nextRetry := min q.nextRetry (saturatingAdd p.time curRto) }
    else q

/-- `self.next_retry = i64::MAX`. -/
def clearRetry (q : SendQ) : SendQ := { q with nextRetry := i64Max }

/-- `recovery.pending_probe = None`. -/
def dropProbe (q : SendQ) : SendQ :=
  { q with recovery := q.recovery.map fun r => { r with pendingProbe := none } }

/-- The part of `SendQ::tick` after `probe_tail`: the frames that timed out get new numbers. -/
def expire (q : SendQ) (tick : ℤ) : SendQ :=
  let probe := if B.recoveryPolicy then q.activeProbe else none
  if tick < min q.nextRetry (probe.elim i64Max ProbeFallback.deadline) then q
  else
    let q := (List.range q.sentPacket.length).foldl (tickAt probe tick) q.clearRetry
    if probe.any fun probe => decide (probe.deadline ≤ tick) then q.dropProbe else q

/-- `SendQ::tick`. Without `recovery-policy` there is no recovery state and no probe. -/
def tick (q : SendQ) (tick : ℤ) : SendQ :=
  (if B.recoveryPolicy && q.recovery.isSome then q.probeTail tick else q).expire B tick

/-- `SendQ::take_probe_packing`: what it returns. -/
def probePacking (q : SendQ) : Bool := q.recovery.any Recovery.probePacked

/-- `SendQ::take_probe_replay`: what it returns. -/
def probeReplay (q : SendQ) : Option ℕ := q.recovery.bind Recovery.probeReplay

/-- The queue after `take_probe_packing` and `take_probe_replay`. -/
def takeProbe (q : SendQ) : SendQ :=
  { q with recovery := q.recovery.map fun r => { r with probePacked := false, probeReplay := none } }

/-- The beginning of `flush` under `recovery-policy`: a retired flight leaves no deadline behind. -/
def resetRecovery (q : SendQ) (tick : ℤ) : SendQ :=
  if q.sentPacket.isEmpty then
    { q with
      nextRetry := i64Max
      recovery := match q.recovery with
        | none => none
        | some r => if r.options = .default then none else some { r with
            lastProgress := tick
            probed := false
            pendingProbe := none
            probeReplay := none } }
  else q

/-- The frames in the order of their sequence numbers, when a renumbering disturbed it. -/
def sortFlight (q : SendQ) : SendQ :=
  if q.flightOrderDirty then
    { q with sentPacket := B.sortByKey q.sentPacket, flightOrderDirty := false }
  else q

/-! ### Filling a burst -/

end SendQ

/-- The datagram that new frames may join: its number (and its history), its bytes and its
frames. -/
structure Group where
  sequence : Option ℕ
  datagram : ℕ
  bytes : ℕ
  frames : ℕ
  deriving DecidableEq, Repr

/-- The variables of the two flush loops. -/
structure Burst where
  queue : SendQ
  output : OutgoingFrames
  group : Group

namespace Burst

variable (s : Burst)

/-- Transmit the entry `i` of the flight again. The first replay of a probe is not a retry. -/
def resend (probeSequence : Option ℕ) (tick : ℤ) (i : ℕ) (p : InFlight) : Burst :=
  let retries := if probeSequence = some p.sequence then p.retries
    else min (p.retries + 1) 4294967295
  { s with
    output := s.output.push p.packet
    queue := { s.queue with
      sentPacket := s.queue.sentPacket.set i { p with sent := true, time := tick, retries }
      nextRetry := min s.queue.nextRetry
        (saturatingAdd tick (retryTimeout s.queue.rto retries)) } }

/-- The body of the loop of `flush` over the flight. -/
def resendAt (probeSequence : Option ℕ) (tick : ℤ) (s : Burst) (i : ℕ) : Burst :=
  match s.queue.sentPacket[i]? with
  | none => s
  | some p => if p.sent then s else s.resend probeSequence tick i p

/-- A frame gets a number of its own. -/
def fresh (f : QueuedFrame) : QueuedFrame × Burst :=
  (f.numbered s.queue.sequenceNumber s.queue.allocated, { s with queue := s.queue.allocate })

/-- The group the next frames may join. -/
def setGroup (group : Group) : Burst := { s with group }

/-- The next frame stands alone. -/
def closeGroup : Burst := { s with group := { s.group with sequence := none } }

/-- The queue without its first frame. -/
def pop (rest : List QueuedFrame) : Burst := { s with queue := { s.queue with packets := rest } }

/-- The frame is the first of its datagram. -/
def start (packable : Bool) (f : QueuedFrame) : QueuedFrame × Burst :=
  (f.numbered s.queue.sequenceNumber s.queue.allocated, (s.fresh f).2.setGroup {
    sequence := if packable then some s.queue.sequenceNumber else none
    datagram := s.queue.allocated
    bytes := f.size
    frames := 1 })

/-- The frame joins the datagram `sequence` of the frames before it. -/
def join (sequence : ℕ) (f : QueuedFrame) : QueuedFrame × Burst :=
  (f.numbered sequence s.group.datagram,
    { s with
      group := { s.group with
        bytes := s.group.bytes + (f.size - 4), frames := s.group.frames + 1 }
      queue := { s.queue with groupedAcks := true }
      output := { s.output with coalesced := true } })

/-- The number of a new frame: it joins the datagram before it when it may and there is room. -/
def assign (packable : Bool) (f : QueuedFrame) : QueuedFrame × Burst :=
  match s.group.sequence with
  | some sequence =>
    if packable ∧ s.group.frames < maxCoalescedFrames ∧
        s.group.bytes + (f.size - 4) ≤ (s.queue.mtu : ℕ) - 28 then s.join sequence f
    else s.start packable f
  | none => s.start packable f

/-- A numbered reliable frame is transmitted and enters the flight. -/
def launch (tick : ℤ) (f : QueuedFrame) : Burst :=
  { s with
    output := s.output.push f
    queue := { s.queue with
      flightOrderDirty := s.queue.flightOrderDirty ||
        s.queue.sentPacket.getLast?.any fun p => decide (f.frame.sequenceNumber < p.sequence)
      sentPacket := s.queue.sentPacket ++ [{
        packet := f, sent := true, time := tick, retries := 0, previous := [], earlier := [] }]
      nextRetry := min s.queue.nextRetry (saturatingAdd tick s.queue.rto) } }

/-- A numbered unreliable frame of `packets` is transmitted and forgotten. -/
def emit (f : QueuedFrame) : Burst :=
  { s with
    output := s.output.push f
    queue := { s.queue with
      queuedUnreliable := s.queue.queuedUnreliable - 1
      bufferedBytes := s.queue.bufferedBytes - charge f
      fault := s.queue.fault || decide (s.queue.bufferedBytes < charge f) ||
        decide (s.queue.queuedUnreliable = 0) } }

/-- The body of the loop of `flush` over the queue; `none` is its `break`. A reliable frame that
finds the flight full goes to the back of the queue. -/
def sendOne (tick : ℤ) : Option Burst :=
  if maxInFlightPackets ≤ s.queue.sentPacket.length ∧ s.queue.queuedUnreliable = 0 then none
  else
    match s.queue.packets with
    | [] => none
    | f :: rest =>
      if f.isReliable && decide (maxInFlightPackets ≤ s.queue.sentPacket.length) then
        some (s.pop (rest ++ [f]))
      else
        let g := if s.queue.coalesce then (s.pop rest).assign f.packable f
          else (s.pop rest).fresh f
        some (if f.isReliable then g.2.launch tick g.1 else g.2.emit g.1)

/-- The loop of `flush` over the queue, once for every frame queued at its start. -/
def sendLoop (tick : ℤ) : ℕ → Burst → Burst
  | 0, s => s
  | n + 1, s =>
    match s.sendOne tick with
    | none => s
    | some s => sendLoop tick n s

end Burst

/-- The group before the first frame. -/
def Group.empty : Group := ⟨none, 0, 0, 0⟩

/-! ### The scheduled burst -/

/-- The variables of the loops of `flush_scheduled`. The scheduler is taken out of the queue. -/
structure Round where
  burst : Burst
  scheduler : SendScheduler
  flightBytes : ℕ
  bytes : ℕ
  retryCursor : ℕ
  progressed : Bool

namespace Round

/-- The loop that moves the cursor to the next frame waiting for a retransmission. -/
def seek (flight : List InFlight) (cursor : ℕ) : ℕ :=
  cursor + (flight.drop cursor).findIdx fun p => !p.sent

/-- Before its charge is read, the lane of retransmissions moves its cursor. -/
def advance (lane : ℕ) (r : Round) : Round :=
  if lane = 1 ∧ r.burst.queue.retriesPending then
    { r with retryCursor := seek r.burst.queue.sentPacket r.retryCursor }
  else r

/-- The size of the next frame of a lane, if it has one that may be sent. -/
def laneCharge (lane : ℕ) (r : Round) : Option ℕ :=
  match lane with
  | 0 => r.scheduler.unreliable.head?.map QueuedFrame.size
  | 1 =>
    if r.burst.queue.retriesPending then
      (r.burst.queue.sentPacket[r.retryCursor]?).map fun p => p.packet.size
    else none
  | _ => r.burst.queue.packets.head?.bind fun f =>
      if r.burst.queue.sentPacket.length < r.scheduler.options.inFlightFrames ∧
          r.flightBytes + f.size ≤ r.scheduler.options.inFlightBytes then some f.size else none

/-- The next unreliable frame of the scheduler is transmitted and forgotten. -/
def sendUnreliable (r : Round) : Round :=
  match r.scheduler.unreliable with
  | [] => r
  | f :: rest =>
    { r with
      scheduler := { r.scheduler with
        unreliable := rest
        unreliableBytes := r.scheduler.unreliableBytes - charge f }
      burst := {
        output := r.burst.output.push
          (f.numbered r.burst.queue.sequenceNumber r.burst.queue.allocated)
        queue := { r.burst.queue with
          sequenceNumber := next r.burst.queue.sequenceNumber
          allocated := r.burst.queue.allocated + 1
          bufferedBytes := r.burst.queue.bufferedBytes - charge f
          fault := r.burst.queue.fault || decide (r.burst.queue.bufferedBytes < charge f) ||
            decide (r.scheduler.unreliableBytes < charge f) }
        group := { r.burst.group with sequence := none } } }

/-- The frame under the cursor is transmitted again. -/
def sendRetry (probeSequence : Option ℕ) (tick : ℤ) (r : Round) : Round :=
  match r.burst.queue.sentPacket[r.retryCursor]? with
  | none => r
  | some p => { r with
      burst := (r.burst.resend probeSequence tick r.retryCursor p).closeGroup
      retryCursor := r.retryCursor + 1 }

/-- The next reliable frame of the queue is transmitted. -/
def sendNew (tick : ℤ) (r : Round) : Round :=
  match r.burst.queue.packets with
  | [] => r
  | f :: rest =>
    let g := (r.burst.pop rest).assign (r.burst.queue.coalesce && f.packable) f
    { r with burst := g.2.launch tick g.1, flightBytes := r.flightBytes + f.size }

/-- The bookkeeping of one transmission of size `charge`. -/
def charged (lane charge : ℕ) (r : Round) : Round :=
  { r with
    progressed := true
    bytes := r.bytes + charge
    scheduler := { r.scheduler with nextLane := (lane + 1) % 3 } }

/-- The transmission of one frame of a lane, of size `charge`. -/
def laneSend (probeSequence : Option ℕ) (tick : ℤ) (lane charge : ℕ) (r : Round) : Round :=
  match lane with
  | 0 => r.sendUnreliable.charged lane charge
  | 1 => (r.sendRetry probeSequence tick).charged lane charge
  | _ => (r.sendNew tick).charged lane charge

/-- The loop over one lane, for at most `quantum` bytes. The flag is `break 'rounds`. Every turn
sends a frame, so the number of frames that wait is enough turns (`laneLoop_run`). -/
def laneLoop (probeSequence : Option ℕ) (tick : ℤ) (lane quantum : ℕ) :
    ℕ → ℕ → Round → Round × Bool
  | 0, _, r => (r, false)
  | n + 1, laneBytes, r =>
    if quantum ≤ laneBytes then (r, false)
    else
      let r := r.advance lane
      match r.laneCharge lane with
      | none => (r, false)
      | some charge =>
        if r.scheduler.options.flushBytes < r.bytes + charge then (r, false)
        else
          let r := r.laneSend probeSequence tick lane charge
          if r.bytes = r.scheduler.options.flushBytes then (r, true)
          else laneLoop probeSequence tick lane quantum n (laneBytes + charge) r

/-- The frames that wait for transmission: a bound on the turns of the loops. -/
def waiting (r : Round) : ℕ :=
  r.scheduler.unreliable.length + r.burst.queue.packets.length +
    (r.burst.queue.sentPacket.filter fun p => !p.sent).length

/-- The loop over the three lanes of a round. -/
def laneRound (probeSequence : Option ℕ) (tick : ℤ) (quantum start : ℕ) :
    List ℕ → Round → Round × Bool
  | [], r => (r, false)
  | offset :: offsets, r =>
    let (r, stop) :=
      laneLoop probeSequence tick ((start + offset) % 3) quantum (r.waiting + 1) 0 r
    if stop then (r, true) else laneRound probeSequence tick quantum start offsets r

/-- The loop `'rounds`. Every round but the last sends a frame. -/
def rounds (probeSequence : Option ℕ) (tick : ℤ) (quantum : ℕ) : ℕ → Round → Round
  | 0, r => r
  | n + 1, r =>
    let (r, stop) := laneRound probeSequence tick quantum r.scheduler.nextLane [0, 1, 2]
      { r with progressed := false }
    if stop || !r.progressed then r else rounds probeSequence tick quantum n r

end Round

namespace SendQ

variable (B : Build)

/-- The end of `flush_scheduled`: the scheduler is put back. -/
def finish (q : SendQ) (scheduler : SendScheduler) : SendQ :=
  { q with
    retriesPending := q.sentPacket.any fun p => !p.sent
    scheduler := if scheduler.persistent || !scheduler.useLegacy || !scheduler.unreliable.isEmpty
      then some scheduler else none }

/-- The variables of `flush_scheduled` before its loops. -/
def startRound (q : SendQ) (scheduler : SendScheduler) : Round where
  burst := {
    queue := { q.takeProbe with scheduler := none }
    output := ⟨[], q.probePacking⟩
    group := .empty }
  scheduler := scheduler
  flightBytes := (q.sentPacket.map fun p => p.packet.size).sum
  bytes := 0
  retryCursor := 0
  progressed := false

/-- `SendQ::flush_scheduled`. -/
def flushScheduled (q : SendQ) (tick : ℤ) (scheduler : SendScheduler) : OutgoingFrames × SendQ :=
  let q := (q.tick B tick).sortFlight B
  let r := q.startRound scheduler
  let r := r.rounds q.probeReplay tick ((q.mtu : ℕ) * 4) (r.waiting + 1)
  (r.burst.output, r.burst.queue.finish r.scheduler)

/-- `self.retries_pending = false`. -/
def clearRetries (q : SendQ) : SendQ := { q with retriesPending := false }

/-- The variables of `flush` before its first frame. -/
def burst (q : SendQ) : Burst := ⟨q.takeProbe, ⟨[], q.probePacking⟩, .empty⟩

/-- The loop of `flush` over the flight. -/
def resendAll (q : SendQ) (tick : ℤ) : Burst :=
  let s := q.burst
  if q.retriesPending then
    let s := (List.range q.sentPacket.length).foldl (Burst.resendAt q.probeReplay tick) s
    { s with queue := s.queue.clearRetries }
  else s

/-- `SendQ::flush` without a scheduled policy. -/
def flushLegacy (q : SendQ) (tick : ℤ) : OutgoingFrames × SendQ :=
  let s := ((q.tick B tick).sortFlight B).resendAll tick
  let s := Burst.sendLoop tick s.queue.packets.length s
  (s.output, s.queue)

/-- `SendQ::flush`. Without `send-policy` there is no scheduler. -/
def flush (q : SendQ) (tick : ℤ) : OutgoingFrames × SendQ :=
  let q := if B.recoveryPolicy then q.resetRecovery tick else q
  match q.scheduler with
  | some scheduler =>
    if !scheduler.useLegacy || !scheduler.unreliable.isEmpty then
      q.flushScheduled B tick scheduler
    else q.flushLegacy B tick
  | none => q.flushLegacy B tick

/-- `SendQ::is_empty`. -/
def isEmpty (q : SendQ) : Bool :=
  q.packets.isEmpty && q.sentPacket.isEmpty && q.scheduler.all fun s => s.unreliable.isEmpty

end SendQ

/-- A relation that is also kept by the rest of the search for timeouts. -/
structure TickRule (R : SendQ → SendQ → Prop) : Prop extends NackRule R where
  clock : ∀ (q : SendQ) nextRetry, R q { q with nextRetry }
  dropProbe : ∀ q : SendQ, R q q.dropProbe

theorem TickRule.expire {R : SendQ → SendQ → Prop} (h : TickRule R) (B : Build) (q : SendQ)
    (tick : ℤ) : R q (q.expire B tick) := by
  have hloop : ∀ probe (l : List ℕ), R q (l.foldl (SendQ.tickAt probe tick) q.clearRetry) := by
    refine fun probe l => h.trans (h.clock q _) (h.foldl _ (fun q i => ?_) l)
    unfold SendQ.tickAt
    split
    · exact h.refl q
    · next p hp =>
      simp only
      split_ifs with hexpired
      · exact h.reissue hp (Bool.and_eq_true_iff.mp hexpired).1 p.time
      · exact h.clock q _
      · exact h.refl q
  unfold SendQ.expire
  simp only
  generalize (if B.recoveryPolicy = true then q.activeProbe else none) = probe
  split_ifs
  · exact h.refl q
  · exact h.trans (hloop probe _) (h.dropProbe _)
  · exact hloop probe _

end RustRaknet.Send
