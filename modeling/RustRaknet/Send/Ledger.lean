import RustRaknet.Send.Run

/-! # The ledger of the send queue

What the send queue is for, without its clocks and policies: accepted messages become frames; a
reliable frame waits in `packets`, is in `flight` under one datagram number after another, and is
retired by an acknowledgement that names one of them; an unreliable frame is emitted once. A
`Ledger` holds those places and the counters kept about them, and `Step` lists the moves between
them. Times, timeouts, windows and the order in which lanes are served decide *which* move comes
next; they do not appear here.

A message has the frames `Message.frames`, a function of the messages before it: their numbers are
counted from the log (`Counters`), unbounded, and put on the frame modulo the width of the field. -/

namespace RustRaknet.Send

open RustRaknet.Frame

/-! ### The frames of a message -/

/-- How many reliable frames, ordered messages and sequenced messages of each channel, and fragmented
messages there have been. -/
structure Counters where
  reliable : ℕ
  ordered : ℕ → ℕ
  sequenced : ℕ → ℕ
  compound : ℕ

namespace Message

variable (limit : ℕ) (m : Message)

/-- The number of frames of a message. -/
def count : ℕ := SendQ.frameCount m.reliability m.payload.length limit

/-- The message does not fit one frame and may be cut. -/
def Fragmented : Prop := m.reliability = .reliableOrdered ∧ limit < m.payload.length

instance : Decidable (m.Fragmented limit) := by unfold Fragmented; infer_instance

/-- What a message is charged. -/
def cost : ℕ := m.count limit * frameBudget + m.payload.length

end Message

/-- The counters after one more message. -/
def Counters.add (limit : ℕ) (c : Counters) (m : Message) : Counters where
  reliable := c.reliable + if m.reliability.isReliable then m.count limit else 0
  ordered := if m.reliability = .reliableOrdered then
    Function.update c.ordered m.channel (c.ordered m.channel + 1) else c.ordered
  sequenced := if m.reliability.isSequenced then
    Function.update c.sequenced m.channel (c.sequenced m.channel + 1) else c.sequenced
  compound := c.compound + if m.Fragmented limit then 1 else 0

/-- The counters of a new queue. -/
def Counters.zero : Counters := ⟨0, fun _ => 0, fun _ => 0, 0⟩

/-- The counters after a log of messages. -/
def counters (limit : ℕ) (log : List Message) : Counters := log.foldl (Counters.add limit) .zero

/-- The frame of a message that is not cut. -/
def Message.single (c : Counters) (m : Message) : FrameSetPacket :=
  let payload :=
    if m.reliability.isReliable then SendQ.reliablePayload m else SendQ.unreliablePayload m
  { FrameSetPacket.fromPayload m.reliability payload with
    reliableFrameIndex := if m.reliability.isReliable then c.reliable % 16777216 else 0
    sequencedFrameIndex :=
      if m.reliability.isSequenced then c.sequenced m.channel % 16777216 else 0
    orderedFrameIndex := if m.reliability.isOrdered then c.ordered m.channel % 16777216 else 0
    orderChannel := if m.reliability.isOrdered then m.channel else 0 }

/-- The fragment `i` of a message. -/
def Message.fragment (limit number : ℕ) (c : Counters) (m : Message) (i : ℕ) : FrameSetPacket :=
  let start := i * limit
  let len := min limit (m.payload.length - start)
  { FrameSetPacket.fromPayload .reliableOrdered
      (if m.owned then .bytes ((m.payload.drop start).take len)
      else .shared m.payload (start % 4294967296) (len % 65536)) with
    sharedPayload := some { cell := number, bytes := m.payload.length }
    flags := Reliability.reliableOrdered.toU8 <<< 5 ||| 16
    compoundSize := m.count limit
    compoundId := c.compound % 65536
    fragmentIndex := i
    orderChannel := m.channel
    orderedFrameIndex := c.ordered m.channel % 16777216
    reliableFrameIndex := (c.reliable + i) % 16777216 }

theorem single_isFragment (c : Counters) (m : Message) : (m.single c).isFragment = false := by
  cases hm : m.reliability <;>
    simp [Message.single, FrameSetPacket.isFragment, FrameSetPacket.fromPayload, hm,
      Reliability.toU8]

theorem single_deref {m : Message} (h : m.payload.length < 65536) (c : Counters) :
    (m.single c).data.deref = m.payload := by
  unfold Message.single
  simp only [FrameSetPacket.fromPayload]
  unfold SendQ.reliablePayload SendQ.unreliablePayload
  split_ifs
  · rfl
  · exact deref_copyShared h
  · rfl
  · rfl

theorem fragment_isFragment (limit number : ℕ) (c : Counters) (m : Message) (i : ℕ) :
    (m.fragment limit number c i).isFragment = true := by
  simp [Message.fragment, FrameSetPacket.isFragment, FrameSetPacket.fromPayload,
    Reliability.toU8]

/-- The frames of the message `number`, before they have datagrams. -/
def Message.frames (limit number : ℕ) (c : Counters) (m : Message) : List QueuedFrame :=
  if m.Fragmented limit then
    (List.range (m.count limit)).map fun i => ⟨m.fragment limit number c i, number, 0⟩
  else [⟨m.single c, number, 0⟩]

/-- The frames of messages that follow `number` others. -/
def acceptedFrom (limit : ℕ) : ℕ → Counters → List Message → List QueuedFrame
  | _, _, [] => []
  | number, c, m :: log =>
    m.frames limit number c ++ acceptedFrom limit (number + 1) (c.add limit m) log

/-- The frames of a log of messages. -/
def accepted (limit : ℕ) (log : List Message) : List QueuedFrame := acceptedFrom limit 0 .zero log

theorem counters_append (limit : ℕ) (log : List Message) (m : Message) :
    counters limit (log ++ [m]) = (counters limit log).add limit m := by
  simp [counters]

theorem acceptedFrom_append (limit : ℕ) (m : Message) :
    ∀ (log : List Message) (number : ℕ) (c : Counters),
      acceptedFrom limit number c (log ++ [m]) = acceptedFrom limit number c log ++
        m.frames limit (number + log.length) (log.foldl (Counters.add limit) c)
  | [], number, c => by simp [acceptedFrom]
  | m' :: log, number, c => by
    simp only [List.cons_append, acceptedFrom, acceptedFrom_append limit m log, List.foldl_cons,
      List.length_cons, List.append_assoc]
    rw [show number + 1 + log.length = number + (log.length + 1) by omega]

theorem accepted_append (limit : ℕ) (log : List Message) (m : Message) :
    accepted limit (log ++ [m]) =
      accepted limit log ++ m.frames limit log.length (counters limit log) := by
  have h := acceptedFrom_append limit m log 0 .zero
  rw [Nat.zero_add] at h
  exact h

/-! ### The ledger -/

/-- A frame without its datagram: what stays as it was inserted. -/
def QueuedFrame.body (f : QueuedFrame) : QueuedFrame := f.numbered 0 0

/-- An entry of the flight without its clock. -/
def InFlight.timeless (p : InFlight) : InFlight := { p with time := 0, retries := 0 }

/-- The ledger. -/
structure Ledger where
  limit : ℕ
  packets : List QueuedFrame
  flight : List InFlight
  scheduled : Bool
  unreliable : List QueuedFrame
  unreliableBytes : ℕ
  queuedUnreliable : ℕ
  bufferedBytes : ℕ
  remaining : ℕ → ℕ
  fault : Bool
  groupedAcks : Bool
  allocated : ℕ
  log : List Message
  outbox : List QueuedFrame
  packed : Bool
  emitted : List QueuedFrame
  retired : List Retired

/-- The ledger of a run. -/
def Run.ledger (r : Run) : Ledger where
  limit := (r.queue.mtu : ℕ) - 60
  packets := r.queue.packets
  flight := r.queue.sentPacket.map InFlight.timeless
  scheduled := r.queue.scheduler.isSome
  unreliable := r.queue.scheduler.elim [] SendScheduler.unreliable
  unreliableBytes := r.queue.scheduler.elim 0 SendScheduler.unreliableBytes
  queuedUnreliable := r.queue.queuedUnreliable
  bufferedBytes := r.queue.bufferedBytes
  remaining := r.queue.remaining
  fault := r.queue.fault
  groupedAcks := r.queue.groupedAcks
  allocated := r.queue.allocated
  log := r.queue.log
  outbox := r.output.frames
  packed := r.output.coalesced
  emitted := r.emitted
  retired := r.retired

namespace Ledger

variable (L : Ledger)

/-- A frame under the next datagram number. -/
def fresh (f : QueuedFrame) : QueuedFrame := f.numbered (L.allocated % 16777216) L.allocated

/-- The frames of the next message. -/
def framesOf (m : Message) : List QueuedFrame :=
  m.frames L.limit L.log.length (counters L.limit L.log)

/-- The message is logged and charged. -/
def book (m : Message) : Ledger :=
  { L with log := L.log ++ [m], bufferedBytes := L.bufferedBytes + m.cost L.limit }

/-- The budget of a frame with its own payload is given back. -/
def refund (bytes : ℕ) : Ledger :=
  { L with
    bufferedBytes := L.bufferedBytes - bytes
    fault := L.fault || decide (L.bufferedBytes < bytes) }

/-- A frame in flight under a new number. -/
def renumbered (p : InFlight) : InFlight := p.renumber (L.allocated % 16777216) L.allocated

/-- A frame enters the flight. -/
def entry (f : QueuedFrame) : InFlight :=
  { packet := f, sent := true, time := 0, retries := 0, previous := [], earlier := [] }

/-- The share of a retired frame in its message and its budget are given back. -/
def release (f : QueuedFrame) : Ledger :=
  { L with
    remaining := SendQ.countDown L.remaining f
    bufferedBytes := L.bufferedBytes - (SendQ.releasedPayload L.remaining f + frameBudget)
    fault := L.fault || SendQ.exhausted L.remaining f ||
      decide (L.bufferedBytes < SendQ.releasedPayload L.remaining f + frameBudget) }

/-- A frame of the flight is retired. -/
def retireAt (i : ℕ) (p : InFlight) (id : ℕ) : Ledger :=
  { L.release p.packet with
    flight := L.flight.eraseIdx i
    retired := L.retired ++ [⟨p.packet, id⟩] }

/-- A message may be accepted: it fits a frame or may be cut, and the budget has room. -/
structure Admits (m : Message) : Prop where
  limit_pos : 0 < L.limit
  fits : m.Fragmented L.limit ∨ m.payload.length ≤ L.limit
  count_le : m.count L.limit ≤ 65536
  budget : L.bufferedBytes + m.cost L.limit ≤ maxBufferedBytes

/-- **The moves of the ledger.** -/
inductive Step : Ledger → Ledger → Prop
  /-- A reliable message is queued. -/
  | acceptReliable {L : Ledger} {m : Message} (h : L.Admits m)
      (hr : m.reliability.isReliable = true) :
      Step L { L.book m with
        packets := L.packets ++ L.framesOf m
        remaining := if m.Fragmented L.limit then
          Function.update L.remaining L.log.length (m.count L.limit) else L.remaining }
  /-- An unreliable message is queued without a number. -/
  | acceptUnreliable {L : Ledger} {m : Message} (h : L.Admits m)
      (hr : m.reliability.isReliable = false) (hs : L.scheduled = false) :
      Step L { L.book m with
        packets := L.packets ++ L.framesOf m
        queuedUnreliable := L.queuedUnreliable + 1 }
  /-- An unreliable message is queued and numbered. -/
  | acceptNumbered {L : Ledger} {m : Message} (h : L.Admits m)
      (hr : m.reliability.isReliable = false) (hs : L.scheduled = false) :
      Step L { L.book m with
        packets := L.packets ++ (L.framesOf m).map L.fresh
        queuedUnreliable := L.queuedUnreliable + 1
        allocated := L.allocated + 1 }
  /-- An unreliable message goes to the scheduler. -/
  | acceptScheduled {L : Ledger} {m : Message} (h : L.Admits m)
      (hr : m.reliability.isReliable = false) (hs : L.scheduled = true) :
      Step L { L.book m with
        unreliable := L.unreliable ++ L.framesOf m
        unreliableBytes := L.unreliableBytes + ((L.framesOf m).map charge).sum }
  /-- A scheduler is made; the unreliable frames move to it. -/
  | migrate {L : Ledger} (hs : L.scheduled = false) :
      Step L { L with
        scheduled := true
        packets := L.packets.filter QueuedFrame.isReliable
        unreliable := L.packets.filter fun f => !f.isReliable
        unreliableBytes := ((L.packets.filter fun f => !f.isReliable).map charge).sum
        queuedUnreliable := 0 }
  /-- A frame in flight gets a new number and waits to be sent again. -/
  | renumber {L : Ledger} {i : ℕ} {p : InFlight} (h : L.flight[i]? = some p) (hp : p.sent = true) :
      Step L { L with
        flight := L.flight.set i (L.renumbered p)
        allocated := L.allocated + 1 }
  /-- A burst begins. -/
  | burst {L : Ledger} : Step L { L with outbox := [], packed := false }
  /-- A frame in flight that waits is sent again. -/
  | resend {L : Ledger} {i : ℕ} {p : InFlight} (h : L.flight[i]? = some p) (hp : p.sent = false) :
      Step L { L with
        flight := L.flight.set i { p with sent := true }
        outbox := L.outbox ++ [p.packet] }
  /-- A queued reliable frame is sent in a datagram of its own. -/
  | launch {L : Ledger} {f : QueuedFrame} {rest : List QueuedFrame} (h : L.packets = f :: rest)
      (hf : f.isReliable = true) :
      Step L { L with
        packets := rest
        flight := L.flight ++ [entry (L.fresh f)]
        allocated := L.allocated + 1
        outbox := L.outbox ++ [L.fresh f] }
  /-- A queued reliable frame joins the datagram of the frame sent before it. -/
  | join {L : Ledger} {f g : QueuedFrame} {rest : List QueuedFrame} (h : L.packets = f :: rest)
      (hf : f.isReliable = true) (hg : L.outbox.getLast? = some g) :
      Step L { L with
        packets := rest
        flight := L.flight ++ [entry (f.numbered g.frame.sequenceNumber g.datagram)]
        groupedAcks := true
        outbox := L.outbox ++ [f.numbered g.frame.sequenceNumber g.datagram]
        packed := true }
  /-- A queued unreliable frame is emitted. -/
  | emit {L : Ledger} {f : QueuedFrame} {rest : List QueuedFrame} (h : L.packets = f :: rest)
      (hf : f.isReliable = false) :
      Step L { L.refund (charge f) with
        packets := rest
        queuedUnreliable := L.queuedUnreliable - 1
        fault := (L.refund (charge f)).fault || decide (L.queuedUnreliable = 0)
        allocated := L.allocated + 1
        outbox := L.outbox ++ [L.fresh f]
        emitted := L.emitted ++ [L.fresh f] }
  /-- An unreliable frame of the scheduler is emitted. -/
  | emitScheduled {L : Ledger} {f : QueuedFrame} {rest : List QueuedFrame}
      (h : L.unreliable = f :: rest) :
      Step L { L.refund (charge f) with
        unreliable := rest
        unreliableBytes := L.unreliableBytes - charge f
        fault := (L.refund (charge f)).fault || decide (L.unreliableBytes < charge f)
        allocated := L.allocated + 1
        outbox := L.outbox ++ [L.fresh f]
        emitted := L.emitted ++ [L.fresh f] }
  /-- A frame that finds the flight full goes to the back of the queue. -/
  | rotate {L : Ledger} {f : QueuedFrame} {rest : List QueuedFrame} (h : L.packets = f :: rest) :
      Step L { L with packets := rest ++ [f] }
  /-- A frame is acknowledged by one of its numbers. -/
  | retire {L : Ledger} {i : ℕ} {p : InFlight} {id : ℕ} (h : L.flight[i]? = some p)
      (hid : id ∈ p.ids) : Step L (L.retireAt i p id)
  /-- The flight is sorted. -/
  | sort {L : Ledger} {flight : List InFlight} (h : flight.Perm L.flight) :
      Step L { L with flight }
  /-- An empty flight has no shared datagrams. -/
  | ungroup {L : Ledger} (h : L.flight = []) : Step L { L with groupedAcks := false }
  /-- The whole flight, one datagram that was never sent again, is sent under a new number. -/
  | probe {L : Ledger} {s : ℕ} {flight : List InFlight} (hout : L.outbox = [])
      (hflight : ∀ p ∈ L.flight, p.sent = true ∧ p.sequence = s ∧ p.previous = [])
      (h : flight.Perm (L.flight.map fun p => { L.renumbered p with sent := true })) :
      Step L { L with
        flight
        groupedAcks := L.groupedAcks || decide (1 < L.flight.length)
        allocated := L.allocated + 1
        outbox := flight.map InFlight.packet
        packed := decide (1 < L.flight.length) }

theorem split_at {flight : List InFlight} {i : ℕ} {p : InFlight} (h : flight[i]? = some p) :
    ∃ l₁ l₂, flight = l₁ ++ p :: l₂ ∧ (∀ p', flight.set i p' = l₁ ++ p' :: l₂) ∧
      flight.eraseIdx i = l₁ ++ l₂ := by
  obtain ⟨hlt, rfl⟩ := List.getElem?_eq_some_iff.mp h
  refine ⟨flight.take i, flight.drop (i + 1), ?_, fun p' => ?_, List.eraseIdx_eq_take_drop_succ _ _⟩
  · rw [List.getElem_cons_drop, List.take_append_drop]
  · exact List.set_eq_take_append_cons_drop.trans (if_pos hlt)

/-- An entry of the flight is replaced: the others stay, and stay in any symmetric relation. -/
theorem pairwise_exchange {R : InFlight → InFlight → Prop} (hsymm : ∀ {p p'}, R p p' → R p' p)
    {flight : List InFlight} {i : ℕ} {p : InFlight} (h : flight.Pairwise R)
    (hi : flight[i]? = some p) (new : InFlight) :
    ∃ others : List InFlight, (∀ p' ∈ others, p' ∈ flight ∧ R p p') ∧
      (∀ p' ∈ flight.set i new, p' = new ∨ p' ∈ others) ∧
      ((∀ p' ∈ others, R new p') → (flight.set i new).Pairwise R) := by
  obtain ⟨l₁, l₂, hl, hset, -⟩ := split_at hi
  rw [hl, List.pairwise_middle hsymm] at h
  obtain ⟨hhead, htail⟩ := List.pairwise_cons.mp h
  refine ⟨l₁ ++ l₂, fun p' hp' => ⟨?_, hhead p' hp'⟩, fun p' hp' => ?_, fun hnew => ?_⟩
  · rw [hl]
    exact List.perm_middle.mem_iff.mpr (List.mem_cons_of_mem _ hp')
  · rw [hset] at hp'
    exact List.mem_cons.mp (List.perm_middle.mem_iff.mp hp')
  · rw [hset]
    exact (List.pairwise_middle hsymm).mpr (List.pairwise_cons.mpr ⟨hnew, htail⟩)

/-- A sequence of moves. -/
abbrev Steps : Ledger → Ledger → Prop := Relation.ReflTransGen Step

/-- **The rule of the ledger**: what every move keeps, every sequence of moves keeps. -/
theorem Steps.preserves {I : Ledger → Prop} (hstep : ∀ {L L'}, Step L L' → I L → I L')
    {L L' : Ledger} (h : Steps L L') (hI : I L) : I L' := by
  induction h with
  | refl => exact hI
  | tail _ hs ih => exact hstep hs ih

end Ledger

end RustRaknet.Send
