import RustRaknet.Frame
import RustRaknet.Indexes
import RustRaknet.Reassembly

/-! # The send queue: state and insertion

`arq.rs`, `send_options.rs` and `recovery_options.rs`: the state of `SendQ`, its limits, and
`insert_payload`, which numbers a message, cuts it into fragments and queues it.

The crate has two features that change this code, `send-policy` and `recovery-policy`; a `Build`
says which are on. Time is in milliseconds, an integer.

Some components are not in the source, and no definition takes a decision on them; they record
history. A frame keeps the number of the message it belongs to (`message`) and the unbounded number
of its datagram (`datagram`), whose low 24 bits are its sequence number; a frame in flight keeps all
its `earlier` datagrams; the queue keeps the messages accepted so far (`log`) and how many datagram
numbers it has given out (`allocated`). Two more stand for the memory and the overflow checks of
Rust: `remaining` holds the shared counters of the fragmented messages by address, and `fault` is
set by a subtraction that goes below zero. -/

namespace RustRaknet.Send

open RustRaknet.Frame RustRaknet.Sequence RustRaknet.Indexes RustRaknet.Lib.Result
open RustRaknet.Reassembly (maxFragments)

/-! ### Options -/

/-- `SendOptions`. -/
structure SendOptions where
  inFlightFrames : ℕ
  inFlightBytes : ℕ
  reliableQueueBytes : ℕ
  unreliableQueueBytes : ℕ
  flushBytes : ℕ
  deriving DecidableEq, Repr

/-- `SendOptions::default`. -/
def SendOptions.default : SendOptions where
  inFlightFrames := 64
  inFlightBytes := 64 * 1024 * 1024
  reliableQueueBytes := 256 * 1024
  unreliableQueueBytes := 64 * 1024
  flushBytes := 256 * 1024

/-- `RecoveryOptions`. A duration is a number of nanoseconds. -/
structure RecoveryOptions where
  deadlineDriven : Bool
  tailProbeMinDelay : Option ℕ
  resetBackoffOnProgress : Bool
  deriving DecidableEq, Repr

/-- `RecoveryOptions::default`. -/
def RecoveryOptions.default : RecoveryOptions := ⟨false, none, false⟩

/-! ### Frames on the sending side -/

/-- A frame of the send queue, with its history. -/
structure QueuedFrame where
  frame : FrameSetPacket
  message : ℕ
  datagram : ℕ
  deriving DecidableEq, Repr

namespace QueuedFrame

/-- The frame under a datagram number. -/
def numbered (f : QueuedFrame) (sequence datagram : ℕ) : QueuedFrame :=
  { f with frame := { f.frame with sequenceNumber := sequence }, datagram }

/-- `is_reliable().unwrap_or(false)`. -/
def isReliable (f : QueuedFrame) : Bool :=
  match f.frame.isReliable with
  | .ok b => b
  | .error _ => false

/-- `_size().unwrap()`. Every queued frame has a mode, so it has a size. -/
def size (f : QueuedFrame) : ℕ :=
  match f.frame.size with
  | .ok n => n
  | .error _ => 0

/-- An unfragmented ordered frame, which may share a datagram. -/
def packable (f : QueuedFrame) : Bool :=
  (match f.frame.reliability with
    | .ok .reliableOrdered => true
    | _ => false) && !f.frame.isFragment

end QueuedFrame

/-- An entry of `sent_packet`: the frame, whether it is sent, the time of its last transmission, its
retries and its last 64 sequence numbers. -/
structure InFlight where
  packet : QueuedFrame
  sent : Bool
  time : ℤ
  retries : ℕ
  previous : List ℕ
  earlier : List ℕ
  deriving DecidableEq, Repr

/-- The sequence number of a frame in flight. -/
abbrev InFlight.sequence (p : InFlight) : ℕ := p.packet.frame.sequenceNumber

/-- The sequence numbers an acknowledgement may name a frame by. -/
def InFlight.ids (p : InFlight) : List ℕ := p.sequence :: p.previous

/-- `if previous.len() == 64 { previous.remove(0); } previous.push(id)`. -/
def pushPrevious (previous : List ℕ) (id : ℕ) : List ℕ :=
  (if previous.length = 64 then previous.drop 1 else previous) ++ [id]

/-- A frame in flight gets a new number and waits to be sent again. -/
def InFlight.renumber (p : InFlight) (sequence datagram : ℕ) : InFlight :=
  { p with
    packet := p.packet.numbered sequence datagram
    sent := false
    previous := pushPrevious p.previous p.sequence
    earlier := p.earlier ++ [p.packet.datagram] }

/-! ### The queue -/

/-- The features of a build. `sort_unstable_by_key` may put entries of one key in any order, so a
build also fixes the sorting function. -/
structure Build where
  sendPolicy : Bool
  recoveryPolicy : Bool
  sortByKey : List InFlight → List InFlight
  sort_perm : ∀ l, (sortByKey l).Perm l
  sort_sorted : ∀ l, (sortByKey l).Pairwise fun a b => a.sequence ≤ b.sequence

/-- The build that sorts by insertion. -/
def Build.insertion (sendPolicy recoveryPolicy : Bool) : Build where
  sendPolicy := sendPolicy
  recoveryPolicy := recoveryPolicy
  sortByKey := List.insertionSort fun a b => a.sequence ≤ b.sequence
  sort_perm := List.perm_insertionSort _
  sort_sorted l := by
    have : Std.Total fun a b : InFlight => a.sequence ≤ b.sequence := ⟨fun a b => le_total _ _⟩
    have : IsTrans InFlight fun a b => a.sequence ≤ b.sequence := ⟨fun _ _ _ => le_trans⟩
    exact List.pairwise_insertionSort _ l

/-- `SendScheduler`, without the notifier of waiting senders. -/
structure SendScheduler where
  options : SendOptions
  unreliable : List QueuedFrame
  unreliableBytes : ℕ
  useLegacy : Bool
  persistent : Bool
  nextLane : ℕ
  deriving DecidableEq

/-- `ProbeFallback`. -/
structure ProbeFallback where
  sequence : ℕ
  deadline : ℤ
  deriving DecidableEq, Repr

/-- `Recovery`. -/
structure Recovery where
  options : RecoveryOptions
  lastProgress : ℤ
  sampledRtt : Bool
  probed : Bool
  probePacked : Bool
  pendingProbe : Option ProbeFallback
  probeReplay : Option ℕ
  deriving DecidableEq, Repr

/-- The channel 0, whose indexes are kept apart from those of the others. -/
def primaryChannel : Fin 256 := 0

/-- A message as it was given to `insert` (`owned` off) or `insert_bytes` (`owned` on). -/
structure Message where
  reliability : Reliability
  channel : Fin 256
  payload : Bytes
  owned : Bool
  deriving DecidableEq, Repr

/-- `SendQ`. -/
structure SendQ where
  mtu : Fin 65536
  ackSequenceNumber : ℕ
  sequenceNumber : ℕ
  reliableFrameIndex : ℕ
  sequencedFrameIndexes : ChannelIndexes
  orderedFrameIndexes : ChannelIndexes
  compoundId : ℕ
  packets : List QueuedFrame
  queuedUnreliable : ℕ
  bufferedBytes : ℕ
  rto : ℤ
  srtt : ℤ
  recovery : Option Recovery
  sentPacket : List InFlight
  flightOrderDirty : Bool
  nextRetry : ℤ
  retriesPending : Bool
  coalesce : Bool
  coalescingAllowed : Bool
  groupedAcks : Bool
  scheduler : Option SendScheduler
  remaining : ℕ → ℕ
  fault : Bool
  log : List Message
  allocated : ℕ

/-- `i64::MAX`. -/
def i64Max : ℤ := 9223372036854775807

/-- `i64::saturating_add`. -/
def saturatingAdd (a b : ℤ) : ℤ := max (-9223372036854775808) (min i64Max (a + b))

/-- `i64::saturating_sub`. -/
def saturatingSub (a b : ℤ) : ℤ := max (-9223372036854775808) (min i64Max (a - b))

/-- `i64::saturating_mul`. -/
def saturatingMul (a b : ℤ) : ℤ := max (-9223372036854775808) (min i64Max (a * b))

/-- `MAX_IN_FLIGHT_PACKETS`. -/
def maxInFlightPackets : ℕ := 64

/-- `MAX_COALESCED_FRAMES`. -/
def maxCoalescedFrames : ℕ := 8

/-- `MAX_BUFFERED_BYTES`. -/
def maxBufferedBytes : ℕ := 64 * 1024 * 1024

/-- `SEND_HIGH_WATER`. -/
def sendHighWater : ℕ := 256 * 1024

/-- `FRAME_BUDGET`. Irreducible: unifying two queues must not count a subtraction down. -/
@[irreducible] def frameBudget : ℕ := 128

theorem frameBudget_eq : frameBudget = 128 := by unfold frameBudget; rfl

/-- `RTO_UBOUND`. -/
def rtoUbound : ℤ := 12000

/-- `RTO_LBOUND`. -/
def rtoLbound : ℤ := 50

/-- `DEFAULT_TIMEOUT_MILLS`. -/
def defaultTimeoutMills : ℤ := 50

/-- What a frame is charged against the budget when it does not share its payload. -/
def charge (f : QueuedFrame) : ℕ := f.frame.data.len + frameBudget

namespace SendQ

/-- `SendQ::new`. -/
def new (mtu : Fin 65536) : SendQ where
  mtu := mtu
  ackSequenceNumber := mask
  sequenceNumber := 0
  reliableFrameIndex := 0
  sequencedFrameIndexes := .empty
  orderedFrameIndexes := .empty
  compoundId := 0
  packets := []
  queuedUnreliable := 0
  bufferedBytes := 0
  rto := defaultTimeoutMills
  srtt := defaultTimeoutMills
  recovery := none
  sentPacket := []
  flightOrderDirty := false
  nextRetry := i64Max
  retriesPending := false
  coalesce := false
  coalescingAllowed := true
  groupedAcks := false
  scheduler := none
  remaining := fun _ => 0
  fault := false
  log := []
  allocated := 0

variable (B : Build) (q : SendQ)

/-- `self.sequence_number = sequence::next(self.sequence_number)`. -/
def allocate : SendQ :=
  { q with sequenceNumber := next q.sequenceNumber, allocated := q.allocated + 1 }

/-! ### Capacity -/

/-- `mtu.checked_sub(60).filter(|n| *n > 0)`. -/
def maxPayload : Except RaknetError ℕ :=
  if (q.mtu : ℕ) - 60 = 0 then .error .packetSizeExceedMTU else .ok ((q.mtu : ℕ) - 60)

/-- The number of frames `required_bytes` counts for a message. -/
def frameCount (reliability : Reliability) (len payload : ℕ) : ℕ :=
  if reliability = .reliableOrdered ∧ payload < len then (len + payload - 1) / payload else 1

/-- `SendQ::required_bytes`. -/
def requiredBytes (reliability : Reliability) (len : ℕ) : Except RaknetError ℕ := do
  let payload ← q.maxPayload
  let frames := frameCount reliability len payload
  if maxFragments < frames then .error .packetSizeExceedMTU else
  if maxBufferedBytes < frames * frameBudget + len then .error .packetSizeExceedMTU else
  .ok (frames * frameBudget + len)

/-- The modes `Unreliable` and `UnreliableSequenced`. -/
def unreliableMode (reliability : Reliability) : Bool := !reliability.isReliable

/-- `SendQ::has_reserved_capacity`. -/
def hasReservedCapacity (reliability : Reliability) (required : ℕ) : Except RaknetError Bool :=
  match q.scheduler with
  | none => .ok (decide (q.bufferedBytes + required ≤ max sendHighWater required))
  | some s =>
    if ¬ unreliableMode reliability ∧ s.unreliableBytes = 0 ∧
        required ≤ s.options.reliableQueueBytes then
      .ok (decide (q.bufferedBytes + required ≤ s.options.reliableQueueBytes))
    else if unreliableMode reliability then
      if s.options.unreliableQueueBytes < required then .error .packetSizeExceedMTU
      else .ok (decide (s.unreliableBytes + required ≤ s.options.unreliableQueueBytes) &&
        decide (q.bufferedBytes + required ≤ maxBufferedBytes))
    else
      let hardLimit := maxBufferedBytes - s.options.unreliableQueueBytes
      if hardLimit < required then .error .packetSizeExceedMTU
      else
        let limit := min (max s.options.reliableQueueBytes required) hardLimit
        .ok (decide (q.bufferedBytes - s.unreliableBytes + required ≤ limit) &&
          decide (q.bufferedBytes + required ≤ maxBufferedBytes))

/-- `SendQ::has_capacity`. Without `send-policy` the scheduler is absent. -/
def hasCapacity (reliability : Reliability) (len : ℕ) : Except RaknetError Bool := do
  let required ← q.requiredBytes reliability len
  if B.sendPolicy then q.hasReservedCapacity reliability required
  else .ok (decide (q.bufferedBytes + required ≤ max sendHighWater required))

/-- `SendQ::enable_coalescing`. -/
def enableCoalescing : SendQ := { q with coalesce := q.coalescingAllowed }

/-! ### Insertion -/

/-- The payload of an unreliable frame. -/
def unreliablePayload (m : Message) : FramePayload :=
  if m.owned then .bytes m.payload else .owned m.payload

/-- The payload of an unfragmented reliable frame. -/
def reliablePayload (m : Message) : FramePayload :=
  if m.owned then .bytes m.payload else .copyShared m.payload

/-- `SendQ::push_unreliable`, and the push of a build without `send-policy`. -/
def pushUnreliable (frame : FrameSetPacket) : SendQ :=
  let f : QueuedFrame := { frame, message := q.log.length, datagram := 0 }
  if B.sendPolicy then
    match q.scheduler with
    | some s => { q with scheduler := some { s with
        unreliableBytes := s.unreliableBytes + charge f
        unreliable := s.unreliable ++ [f] } }
    | none => { q with
        sequenceNumber := next q.sequenceNumber
        allocated := q.allocated + 1
        queuedUnreliable := q.queuedUnreliable + 1
        packets := q.packets ++ [f.numbered q.sequenceNumber q.allocated] }
  else { q with packets := q.packets ++ [f] }

/-- Queue a reliable frame under the next reliable index. -/
def pushReliable (frame : FrameSetPacket) : SendQ :=
  { q with
    packets := q.packets ++ [{
      frame := { frame with reliableFrameIndex := q.reliableFrameIndex }
      message := q.log.length
      datagram := 0 }]
    reliableFrameIndex := next q.reliableFrameIndex }

/-- `*index = sequence::next(*index)` on the ordered index of a channel. -/
def advanceOrdered (channel : ℕ) : SendQ :=
  { q with orderedFrameIndexes :=
      q.orderedFrameIndexes.set channel (next (q.orderedFrameIndexes.get channel)) }

/-- The same on the sequenced index. -/
def advanceSequenced (channel : ℕ) : SendQ :=
  { q with sequencedFrameIndexes :=
      q.sequencedFrameIndexes.set channel (next (q.sequencedFrameIndexes.get channel)) }

/-- The frame of the fragment `index` of a message cut into pieces of `maxPayload` bytes. -/
def fragmentFrame (m : Message) (maxPayload compoundSize index : ℕ) : FrameSetPacket :=
  let start := index * maxPayload
  let len := min maxPayload (m.payload.length - start)
  { FrameSetPacket.fromPayload .reliableOrdered
      (if m.owned then .bytes ((m.payload.drop start).take len)
      else .shared m.payload (start % 4294967296) (len % 65536)) with
    sharedPayload := some { cell := q.log.length, bytes := m.payload.length }
    flags := Reliability.reliableOrdered.toU8 <<< 5 ||| 16
    compoundSize
    compoundId := q.compoundId
    fragmentIndex := index
    orderChannel := m.channel
    orderedFrameIndex := q.orderedFrameIndexes.get m.channel }

/-- The shared counter of a fragmented message, at the address of its number. -/
def share (compoundSize : ℕ) : SendQ :=
  { q with remaining := Function.update q.remaining q.log.length compoundSize }

/-- `self.compound_id = self.compound_id.wrapping_add(1)`. -/
def nextCompound : SendQ := { q with compoundId := (q.compoundId + 1) % 65536 }

/-- The fragments of a message, one reliable frame each. The shared counter starts at their
number. -/
def pushFragments (m : Message) (maxPayload : ℕ) : SendQ :=
  let compoundSize := (m.payload.length + maxPayload - 1) / maxPayload
  let frames := (List.range compoundSize).map (q.fragmentFrame m maxPayload compoundSize)
  (frames.foldl pushReliable (q.share compoundSize)).nextCompound

/-- The `match` of `insert_payload` on the mode. -/
def pushMessage (m : Message) (maxPayload : ℕ) : Except RaknetError SendQ :=
  match m.reliability with
  | .unreliable =>
    if maxPayload < m.payload.length then .error .packetSizeExceedMTU
    else .ok (q.pushUnreliable B (.fromPayload .unreliable (unreliablePayload m)))
  | .unreliableSequenced =>
    if maxPayload < m.payload.length then .error .packetSizeExceedMTU
    else
      let frame := { FrameSetPacket.fromPayload .unreliableSequenced (unreliablePayload m) with
        orderChannel := m.channel
        orderedFrameIndex := q.orderedFrameIndexes.get m.channel
        sequencedFrameIndex := q.sequencedFrameIndexes.get m.channel }
      .ok ((q.advanceSequenced m.channel).pushUnreliable B frame)
  | .reliable =>
    if maxPayload < m.payload.length then .error .packetSizeExceedMTU
    else .ok (q.pushReliable (.fromPayload .reliable (reliablePayload m)))
  | .reliableOrdered =>
    if m.payload.length ≤ maxPayload then
      let frame := { FrameSetPacket.fromPayload .reliableOrdered (reliablePayload m) with
        orderChannel := m.channel
        orderedFrameIndex := q.orderedFrameIndexes.get m.channel }
      .ok ((q.pushReliable frame).advanceOrdered m.channel)
    else .ok ((q.pushFragments m maxPayload).advanceOrdered m.channel)
  | .reliableSequenced =>
    if maxPayload < m.payload.length then .error .packetSizeExceedMTU
    else
      let frame := { FrameSetPacket.fromPayload .reliableSequenced (reliablePayload m) with
        orderChannel := m.channel
        orderedFrameIndex := q.orderedFrameIndexes.get m.channel
        sequencedFrameIndex := q.sequencedFrameIndexes.get m.channel }
      .ok ((q.advanceSequenced m.channel).pushReliable frame)

/-- The end of `insert_payload`. A build without `send-policy` counts unreliable frames here. -/
def book (m : Message) (reserved : ℕ) : SendQ :=
  { q with
    bufferedBytes := q.bufferedBytes + reserved
    queuedUnreliable := q.queuedUnreliable +
      if !B.sendPolicy && unreliableMode m.reliability then 1 else 0
    log := q.log ++ [m] }

/-- `SendQ::insert_payload`. -/
def insertPayload (m : Message) : Except RaknetError SendQ := do
  let reserved ← q.requiredBytes m.reliability m.payload.length
  if maxBufferedBytes - q.bufferedBytes < reserved then .error .packetSizeExceedMTU else
  let maxPayload ← q.maxPayload
  let pushed ← q.pushMessage B m maxPayload
  .ok (pushed.book B m reserved)

/-! ### Policies -/

/-- `SendQ::ensure_scheduler`. -/
def ensureScheduler : SendQ :=
  match q.scheduler with
  | some _ => q
  | none =>
    let unreliable := q.packets.filter fun f => !f.isReliable
    { q with
      packets := q.packets.filter QueuedFrame.isReliable
      queuedUnreliable := 0
      scheduler := some {
        options := .default
        unreliable
        unreliableBytes := (unreliable.map charge).sum
        useLegacy := decide ((q.mtu : ℕ) * maxInFlightPackets ≤ SendOptions.default.flushBytes)
        persistent := true
        nextLane := 2 } }

/-- The options are put in place; the default limits leave the flush as it was. -/
def configure (options : SendOptions) : SendQ :=
  { q with scheduler := q.scheduler.map fun s => { s with
    options
    persistent := true
    useLegacy := options.inFlightFrames == SendOptions.default.inFlightFrames &&
      options.inFlightBytes == SendOptions.default.inFlightBytes &&
      options.flushBytes == SendOptions.default.flushBytes &&
      decide ((q.mtu : ℕ) * maxInFlightPackets ≤ options.flushBytes) } }

/-- `SendQ::set_send_options`. -/
def setSendOptions (options : SendOptions) : Except RaknetError SendQ :=
  if options.inFlightBytes < (q.mtu : ℕ) ∨ options.flushBytes < (q.mtu : ℕ) ∨
      options.unreliableQueueBytes < (q.mtu : ℕ) then .error .packetSizeExceedMTU
  else .ok (q.ensureScheduler.configure options)

end SendQ

/-! ### The rule of insertions -/

theorem pushUnreliable_eq (B : Build) (q : SendQ) (frame : FrameSetPacket) :
    ∃ scheduler sequenceNumber allocated queuedUnreliable packets, q.pushUnreliable B frame =
      { q with scheduler, sequenceNumber, allocated, queuedUnreliable, packets } := by
  unfold SendQ.pushUnreliable
  simp only
  split_ifs
  · split
    · exact ⟨_, _, _, _, _, rfl⟩
    · exact ⟨_, _, _, _, _, rfl⟩
  · exact ⟨_, _, _, _, _, rfl⟩

/-- A transitive relation that holds across every step of an insertion, but for the booking. -/
structure PushRule (B : Build) (R : SendQ → SendQ → Prop) : Prop where
  trans : ∀ {q q' q''}, R q q' → R q' q'' → R q q''
  unreliable : ∀ q frame, R q (q.pushUnreliable B frame)
  reliable : ∀ q frame, R q (q.pushReliable frame)
  ordered : ∀ q channel, R q (q.advanceOrdered channel)
  sequenced : ∀ q channel, R q (q.advanceSequenced channel)
  share : ∀ q size, R q (q.share size)
  compound : ∀ q, R q q.nextCompound

/-- A message that is accepted is pushed and booked. -/
theorem insertPayload_ok {B : Build} {m : Message} {q q' : SendQ} (h : q.insertPayload B m = .ok q') :
    ∃ reserved limit pushed, q.requiredBytes m.reliability m.payload.length = .ok reserved ∧
      reserved ≤ maxBufferedBytes - q.bufferedBytes ∧ q.maxPayload = .ok limit ∧
      q.pushMessage B m limit = .ok pushed ∧ pushed.book B m reserved = q' := by
  unfold SendQ.insertPayload at h
  simp only [bind_eq_ok, guard_eq_ok] at h
  obtain ⟨reserved, hreserved, hbudget, limit, hlimit, pushed, hpush, hbook⟩ := h
  exact ⟨reserved, limit, pushed, hreserved, not_lt.mp hbudget, hlimit, hpush, Except.ok.inj hbook⟩

section pushRule

variable {B : Build} {R : SendQ → SendQ → Prop} (hR : PushRule B R) {m : Message} {q q' : SendQ}
include hR

theorem PushRule.fragments (n : ℕ) : R q (q.pushFragments m n) := by
  have hfold : ∀ (frames : List FrameSetPacket) {x : SendQ}, R q x →
      R q (frames.foldl SendQ.pushReliable x) := by
    intro frames
    induction frames with
    | nil => exact id
    | cons frame frames ih => exact fun h => ih (hR.trans h (hR.reliable _ _))
  exact hR.trans (hfold _ (hR.share _ _)) (hR.compound _)

theorem PushRule.message {n : ℕ} (h : q.pushMessage B m n = .ok q') : R q q' := by
  unfold SendQ.pushMessage at h
  cases hr : m.reliability with
  | unreliable =>
    simp only [hr, guard_eq_ok] at h
    rw [← Except.ok.inj h.2]
    exact hR.unreliable q _
  | unreliableSequenced =>
    simp only [hr, guard_eq_ok] at h
    rw [← Except.ok.inj h.2]
    exact hR.trans (hR.sequenced q _) (hR.unreliable _ _)
  | reliable =>
    simp only [hr, guard_eq_ok] at h
    rw [← Except.ok.inj h.2]
    exact hR.reliable q _
  | reliableOrdered =>
    simp only [hr] at h
    by_cases hn : m.payload.length ≤ n
    · rw [if_pos hn] at h
      rw [← Except.ok.inj h]
      exact hR.trans (hR.reliable q _) (hR.ordered _ _)
    · rw [if_neg hn] at h
      rw [← Except.ok.inj h]
      exact hR.trans (hR.fragments n) (hR.ordered _ _)
  | reliableSequenced =>
    simp only [hr, guard_eq_ok] at h
    rw [← Except.ok.inj h.2]
    exact hR.trans (hR.sequenced q _) (hR.reliable _ _)

theorem PushRule.insert (hbook : ∀ q n, R q (q.book B m n)) (h : q.insertPayload B m = .ok q') :
    R q q' := by
  obtain ⟨reserved, limit, pushed, -, -, -, hpush, rfl⟩ := insertPayload_ok h
  exact hR.trans (hR.message hpush) (hbook pushed reserved)

end pushRule

/-- What the steps of an insertion leave as it is. -/
theorem PushRule.of_key {κ : Type*} {B : Build} (key : SendQ → κ)
    (hunreliable : ∀ q frame, key (q.pushUnreliable B frame) = key q)
    (hreliable : ∀ q frame, key (q.pushReliable frame) = key q)
    (hordered : ∀ q channel, key (q.advanceOrdered channel) = key q)
    (hsequenced : ∀ q channel, key (q.advanceSequenced channel) = key q)
    (hshare : ∀ q size, key (q.share size) = key q) (hcompound : ∀ q, key q.nextCompound = key q) :
    PushRule B fun q q' => key q' = key q :=
  ⟨fun h h' => h'.trans h, hunreliable, hreliable, hordered, hsequenced, hshare, hcompound⟩

end RustRaknet.Send
