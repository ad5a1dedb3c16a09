import RustRaknet.Lib.Machine
import RustRaknet.Lib.Notify
import RustRaknet.Send.Progress
import RustRaknet.Send.Timers
import RustRaknet.Socket.Reply
import RustRaknet.Socket.ReceiveLoop

/-! # The maintenance task

`socket.rs`: `start_tick`, the struct `Maintenance` it shares with the rest of a connection, and every
place that touches it. The task sleeps for 50 ms, flushes both queues and sleeps again. A connection
that has been quiet for half a second may be put to sleep until its timeout: then the others wake the
task when they give it work. Under the recovery policy the task also wakes for the deadline of the
send queue, which whoever holds the lock of that queue publishes.

One action is one access to what the tasks share: an atomic variable, the notification, or a queue
under its lock. A lock section changes its queue in one action, but then publishes step by step, with
the lock held. The accesses are interleaved in any order; each sees the last one before it.

* `State.step`: the task, the receive worker, the callers of the API, and time.
* What a worker or a caller has still to do after its lock section is its `Access`.
* `loop_realised`: the receive worker of `Socket.ReceiveLoop`. -/

namespace RustRaknet.Maintenance

open RustRaknet.Frame RustRaknet.Send RustRaknet.Recv RustRaknet.Reply RustRaknet.Lib
open RustRaknet.Lib.Notification (notifyOne enable complete drop registered ready pending)

/-- `RECEIVE_TIMEOUT`. -/
def receiveTimeout : ℤ := 60000

/-- `MAINTENANCE_IDLE_MILLIS`. -/
def maintenanceIdleMillis : ℤ := 500

/-! ### Who does what -/

/-- The next access of a caller that has left its lock section. -/
inductive Access
  /-- `maintenance.idle.load()`, before a swap. -/
  | load
  /-- `maintenance.idle.swap(false)`. -/
  | swap
  /-- `maintenance.idle.store(false)`, before a notification. -/
  | clear
  /-- `maintenance.wakeup.notify_one()`. -/
  | notify
  /-- `close_notifier.close()`. -/
  | close
  deriving DecidableEq, Repr

/-- Who holds the lock of the send queue, and what is next. -/
inductive Owner
  /-- The maintenance task. -/
  | task
  /-- `connect_with_version_and_mtu`, which flushes the first request. -/
  | connect
  /-- The receive worker, after an ACK or a NACK. -/
  | feedback
  /-- The receive worker, after a control message; `sent` says that the flush gave frames. -/
  | reply (sent : Bool)
  /-- A caller of the API. -/
  | caller (next : Access)
  /-- `set_recovery_options`. -/
  | options
  deriving DecidableEq, Repr

/-- `publish` is called with `wake` by all but the task. -/
def Owner.wake : Owner → Bool
  | .task => false
  | _ => true

/-- The next access of the owner of the lock: `Maintenance::publish`, with what
`set_recovery_options` does before and after it. -/
inductive Publish
  | setDriven (deadlines : Bool)
  | reset
  | driven
  | store
  | compare (deadline : ℤ)
  | notify
  | last
  deriving DecidableEq, Repr

/-- A lock section of the send queue. -/
structure Section where
  owner : Owner
  next : Publish
  deriving DecidableEq, Repr

/-- The receive worker: between datagrams; under the lock of the receive queue, before it swaps the
flag or notifies; after `handle`, before the flush of the replies; in a section of the send queue;
after the flush of a reply, before it swaps the flag or notifies; or ended. -/
inductive Worker
  | free
  | receiving (notify invalid : Bool)
  | replying
  | busy
  | replied (notify : Bool)
  | ended
  deriving DecidableEq, Repr

/-- The maintenance task: the next access, with the local variables that are alive. `armed` is the
time for which the timer was set against the deadline. -/
inductive Phase
  | top (idle : Bool)
  | created (idle : Bool) (delay : ℤ)
  | enable (idle : Bool) (delay : ℤ)
  | clock (idle : Bool) (delay : ℤ)
  | load (idle : Bool) (delay now : ℤ)
  | store (idle : Bool) (delay now : ℤ)
  | reload (idle : Bool) (delay now : ℤ)
  | restore (idle : Bool) (delay now : ℤ)
  | select (idle : Bool) (delay : ℤ) (armed : Option ℤ)
  | waiting (idle : Bool) (delay timer : ℤ) (armed : Option ℤ)
  | woken
  | mark (quiet : Bool)
  | receive (quiet : Bool)
  | flush (quiet receiveIdle : Bool)
  | publishing (idle : Bool)
  | decide (idle : Bool)
  | finish (idle : Bool)
  | ended
  deriving DecidableEq, Repr

/-- The task leaves the section of the send queue. -/
def Phase.published : Phase → Phase
  | .publishing idle => .decide idle
  | task => task

/-- A connection: both queues, the clock, the time of the last datagram, whether a client is still in
its constructor, the fields of `Maintenance`, and where everyone stands. `wakeup` is the
`tokio::sync::Notify` of the source, of which nothing is used but the laws of `Notification`. -/
structure State (ν : Type) [Notification ν] where
  send : Run
  recv : RecvQ
  clock : ℤ
  lastHeartbeat : ℤ
  connecting : Bool
  connected : Bool
  wakeup : ν
  idle : Bool
  enabled : Bool
  deadline : ℤ
  deadlineDriven : Bool
  wakeAt : ℤ
  task : Phase
  lock : Option Section
  worker : Worker
  callers : List Access

/-- What may happen. -/
inductive Action
  /-- Time passes. -/
  | elapse (millis : ℕ)
  /-- The next access of the maintenance task. -/
  | task
  /-- The arms of its `select!`. -/
  | timer
  | notified
  | closed
  /-- The task finds a compound that has waited too long. -/
  | expired
  /-- The next access of the owner of the lock. -/
  | publish
  /-- The next access of the receive worker. -/
  | worker
  /-- The next access of a caller. -/
  | caller (i : ℕ)
  /-- The worker receives a datagram. -/
  | heartbeat
  /-- The worker handles an ACK or a NACK; it has read the clock before the lock. -/
  | ack (ranges : List (ℕ × ℕ)) (now : ℤ)
  | nack (ranges : List (ℕ × ℕ)) (now : ℤ)
  /-- The worker inserts the frames of a datagram, and takes the acknowledgements or not. -/
  | frames (frames : List FrameSetPacket) (takeAck : Bool)
  /-- The worker handles a control message. -/
  | handle (stamp stamp' : Int64) (receiverOpen : Bool) (data : Bytes)
  /-- The first flush of a client. -/
  | connect
  /-- `send_payload`. -/
  | payload (m : Message)
  /-- `send_batch_payload`, for a batch that can be coalesced. -/
  | batch (channel : Fin 256) (owned : Bool) (payloads : List Bytes)
  /-- `set_send_options`; options come from their constructors. -/
  | setSendOptions (options : { o : SendOptions // o.Valid })
  /-- `set_recovery_options`. -/
  | setRecoveryOptions (options : RecoveryOptions)
  /-- `set_idle_maintenance`. -/
  | setIdleMaintenance (enabled : Bool)
  /-- `close`. -/
  | close
  /-- The connection is closed in another way: the socket is dropped, or the worker gives up. -/
  | shut

namespace State

variable {ν : Type} [Notification ν]

/-- A new connection. A client has put its request in the queue. -/
def new (B : Build) (mtu : Fin 65536) (request : Option Bytes) : State ν where
  send := request.elim (.new mtu) fun buf =>
    (Run.new mtu).step B (.insert (message .reliableOrdered buf))
  recv := .new
  clock := 0
  lastHeartbeat := 0
  connecting := request.isSome
  connected := true
  wakeup := Notification.new
  idle := false
  enabled := false
  deadline := i64Max
  deadlineDriven := false
  wakeAt := i64Max
  task := .top false
  lock := none
  worker := .free
  callers := []

variable (B : Build) (s : State ν)

/-! ### The lock of the send queue -/

/-- The owner leaves its section. -/
def release : Owner → State ν
  | .task => { s with lock := none, task := s.task.published }
  | .connect => { s with lock := none }
  | .feedback => { s with lock := none, worker := .free }
  | .reply sent => { s with lock := none, worker := if sent then .replied false else .free }
  | .caller next => { s with lock := none, callers := s.callers ++ [next] }
  | .options => { s with lock := none }

/-- The owner goes on in its section. -/
def goto (owner : Owner) (next : Publish) : State ν := { s with lock := some ⟨owner, next⟩ }

/-- `publish` returns. `set_recovery_options` notifies once more. -/
def published (owner : Owner) : State ν :=
  if owner = .options then s.goto owner .last else s.release owner

/-- `publish` begins. Without `recovery-policy` it is not there. -/
def enter (owner : Owner) : State ν :=
  if B.recoveryPolicy then s.goto owner .driven else s.release owner

/-- The next access of the owner of the lock. -/
def publish : State ν :=
  match s.lock with
  | none => s
  | some ⟨owner, .setDriven deadlines⟩ =>
    { s with deadlineDriven := deadlines }.goto owner (if deadlines then .driven else .reset)
  | some ⟨owner, .reset⟩ => { s with deadline := i64Max }.goto owner .driven
  | some ⟨owner, .driven⟩ =>
    if s.deadlineDriven then s.goto owner .store else s.published owner
  | some ⟨owner, .store⟩ =>
    { s with deadline := s.send.queue.recoveryDeadline }.goto owner
      (.compare s.send.queue.recoveryDeadline)
  | some ⟨owner, .compare deadline⟩ =>
    if owner.wake && decide (deadline < s.wakeAt) then s.goto owner .notify
    else s.published owner
  | some ⟨owner, .notify⟩ => { s with wakeup := notifyOne s.wakeup }.published owner
  | some ⟨owner, .last⟩ => { s with wakeup := notifyOne s.wakeup }.release owner

/-! ### The maintenance task -/

/-- `deadline.saturating_sub(now).max(1)`. -/
def remaining (now : ℤ) : ℤ := max (saturatingSub s.deadline now) 1

/-- The lock of the receive queue is free. -/
def recvFree : Bool :=
  match s.worker with
  | .receiving _ _ => false
  | _ => true

/-- The task goes on. -/
def goOn (task : Phase) : State ν := { s with task }

/-- The next access of the maintenance task; what it sends is left out. -/
def tick : State ν :=
  match s.task with
  | .top idle =>
    let delay := if idle then max (receiveTimeout - (s.clock - s.lastHeartbeat)) 1
      else defaultTimeoutMills
    s.goOn (if B.recoveryPolicy then .created idle delay else .select idle delay none)
  | .created idle delay =>
    s.goOn (if s.deadlineDriven then .enable idle delay else .select idle delay none)
  | .enable idle delay => { s with wakeup := enable s.wakeup }.goOn (.clock idle delay)
  | .clock idle delay => s.goOn (.load idle delay s.clock)
  | .load idle delay now => s.goOn (.store idle (min delay (s.remaining now)) now)
  | .store idle delay now =>
    { s with wakeAt := saturatingAdd now delay }.goOn (.reload idle delay now)
  | .reload idle delay now => s.goOn (.restore idle (min delay (s.remaining now)) now)
  | .restore idle delay now =>
    { s with wakeAt := saturatingAdd now delay }.goOn (.select idle delay (some now))
  | .select idle delay armed =>
    { s with wakeup := if B.recoveryPolicy || idle then enable s.wakeup else s.wakeup }.goOn
      (.waiting idle delay (s.clock + delay) armed)
  | .waiting _ _ _ _ => s
  | .woken =>
    s.goOn (.mark (s.enabled && decide (maintenanceIdleMillis ≤ s.clock - s.lastHeartbeat)))
  | .mark quiet => { s with idle := quiet || s.idle }.goOn (.receive quiet)
  | .receive quiet =>
    if s.recvFree then
      { s with recv := s.recv.takeNackInto.2 }.goOn
        (.flush quiet (!s.recv.takeNackInto.2.needsMaintenance))
    else s
  | .flush quiet receiveIdle =>
    if s.lock.isNone then
      ({ s with send := s.send.step B (.flush s.clock) }.goOn (.publishing (quiet && receiveIdle &&
        (s.send.step B (.flush s.clock)).queue.isEmpty))).enter B .task
    else s
  | .publishing _ => s
  | .decide idle => { s with idle := idle && s.idle }.goOn (.finish idle)
  | .finish idle =>
    if receiveTimeout < s.clock - s.lastHeartbeat then { s with connected := false }.goOn .ended
    else s.goOn (if s.connected then .top idle else .ended)
  | .ended => s

/-- The task leaves its `select!`; the future of the notification is dropped. -/
def wake (wakeup : ν) : State ν := { s with wakeup, task := .woken }

/-- The arm of the timer. -/
def timer : State ν :=
  match s.task with
  | .waiting _ _ timer _ => if timer ≤ s.clock then s.wake (drop s.wakeup) else s
  | _ => s

/-- The arm of the notification. -/
def notified : State ν :=
  match s.task with
  | .waiting _ _ _ _ => if ready s.wakeup then s.wake (complete s.wakeup) else s
  | _ => s

/-- The arm of the end of the connection. -/
def closed : State ν :=
  match s.task with
  | .waiting _ _ _ _ => if s.connected then s else s.wake (drop s.wakeup)
  | _ => s

/-- `fragments_expired` is true in the section of the receive queue: the task closes the connection
and ends. -/
def expired : State ν :=
  match s.task with
  | .receive _ =>
    if s.recvFree && !s.recv.fragmentQueue.fragments.entries.isEmpty then
      { s with connected := false }.goOn .ended
    else s
  | _ => s

/-! ### The receive worker -/

/-- The worker leaves the section of the receive queue. A rejected frame ends it. -/
def received (invalid : Bool) : State ν :=
  if invalid then { s with connected := false, worker := .ended } else { s with worker := .free }

/-- The next access of the worker. -/
def work : State ν :=
  match s.worker with
  | .receiving false invalid =>
    if s.idle then { s with idle := false, worker := .receiving true invalid }
    else s.received invalid
  | .receiving true invalid => { s with wakeup := notifyOne s.wakeup }.received invalid
  | .replying =>
    if s.lock.isNone then
      { s with send := s.send.step B (.flush s.clock), worker := .busy }.enter B
        (.reply !(s.send.queue.flush B s.clock).1.frames.isEmpty)
    else s
  | .replied false =>
    if s.idle then { s with idle := false, worker := .replied true } else { s with worker := .free }
  | .replied true => { s with wakeup := notifyOne s.wakeup, worker := .free }
  | _ => s

/-- The worker is between datagrams. -/
def workerFree : Bool := s.worker == .free

/-- The section of the send queue for an ACK or a NACK. Under `recovery-policy` the flush reads the
clock again. -/
def feedback (op : Op) (now : ℤ) : State ν :=
  if s.workerFree && s.lock.isNone && decide (0 ≤ now) && decide (now ≤ s.clock) then
    { s with
      send := (s.send.step B op).step B (.flush (if B.recoveryPolicy then s.clock else now))
      worker := .busy }.enter B .feedback
  else s

/-- The section of the receive queue for a frame set. -/
def frames (frames : List FrameSetPacket) (takeAck : Bool) : State ν :=
  if s.workerFree then
    let (_, invalid, recv) := Socket.insertAll s.recv [] frames
    let recv := if takeAck then recv.takeAckInto.2 else recv
    if recv.needsMaintenance then { s with recv, worker := .receiving false invalid }
    else { s with recv }.received invalid
  else s

/-- A control message. A reply is flushed in a section of its own, and so is whatever else waits;
after an error it is not. -/
def handle (e : Endpoint) (stamp stamp' : Int64) (receiverOpen : Bool) (data : Bytes) : State ν :=
  if s.workerFree && s.lock.isNone then
    match Reply.handle B e stamp stamp' receiverOpen data s.send with
    | (.error _, send) => { s with send }
    | (.ok .disconnect, send) => { s with send, connected := false, worker := .ended }
    | (.ok _, send) => { s with send, worker := .replying }
  else s

/-! ### The callers -/

/-- The caller `i` goes on with `next`. -/
def callNext (i : ℕ) (next : Access) : State ν := { s with callers := s.callers.set i next }

/-- The caller `i` has nothing more to do with the maintenance task. -/
def callDone (i : ℕ) : State ν := { s with callers := s.callers.eraseIdx i }

/-- The next access of the caller `i`. -/
def call (i : ℕ) : State ν :=
  match s.callers[i]? with
  | none => s
  | some .load => if s.idle then s.callNext i .swap else s.callDone i
  | some .swap => if s.idle then { s with idle := false }.callNext i .notify else s.callDone i
  | some .clear => { s with idle := false }.callNext i .notify
  | some .notify => { s with wakeup := notifyOne s.wakeup }.callDone i
  | some .close => { s with connected := false }.callDone i

/-- The section of the send queue of `connect_with_version_and_mtu`, before it gives the socket to
anyone. -/
def connect : State ν :=
  if s.lock.isNone && s.connecting then
    { s with send := s.send.step B (.flush s.clock), connecting := false }.enter B .connect
  else s

/-- Someone has the socket, and may take the lock. -/
def callable : Bool := s.lock.isNone && !s.connecting

/-- The section of the send queue of `send_payload`. -/
def payload (m : Message) : State ν :=
  if s.callable && m.payload.head? == some 0xfe then
    match s.send.queue.hasCapacity B m.reliability m.payload.length with
    | .ok true =>
      match s.send.queue.insertPayload B m with
      | .error _ => s
      | .ok _ =>
        { s with send := (s.send.step B (.insert m)).step B (.flush s.clock) }.enter B
          (.caller .load)
    | _ => s
  else s

/-- The messages of a batch. -/
def messages (channel : Fin 256) (owned : Bool) (payloads : List Bytes) : List Message :=
  payloads.map fun payload => ⟨.reliableOrdered, channel, payload, owned⟩

/-- The section of the send queue of `send_batch_payload`. -/
def batch (channel : Fin 256) (owned : Bool) (payloads : List Bytes) : State ν :=
  if s.callable && payloads.all fun payload => payload.head? == some 0xfe then
    match s.send.queue.hasBatchCapacity B .reliableOrdered (payloads.map List.length) with
    | .ok true =>
      match insertEach B (s.send.step B .enableCoalescing) (messages channel owned payloads) with
      | (.error _, send) => { s with send }
      | (.ok (), send) => { s with send := send.step B (.flush s.clock) }.enter B (.caller .swap)
    | _ => s
  else s

/-- The section of the send queue of `set_send_options`. -/
def setSendOptions (options : SendOptions) : State ν :=
  if B.sendPolicy && s.callable && s.connected then
    match s.send.queue.setSendOptions options with
    | .error _ => s
    | .ok _ => { s with
        send := s.send.step B (.setSendOptions options)
        callers := s.callers ++ [.clear] }
  else s

/-- The section of the send queue of `set_recovery_options`, up to its first access. -/
def setRecoveryOptions (options : RecoveryOptions) : State ν :=
  if B.recoveryPolicy && s.callable && s.connected then
    { s with send := s.send.step B (.setRecoveryOptions options s.clock) }.goto .options
      (.setDriven (options.deadlineDriven || options.tailProbeMinDelay.isSome))
  else s

/-- `set_idle_maintenance`. -/
def setIdleMaintenance (enabled : Bool) : State ν :=
  if s.connecting then s
  else { s with enabled, callers := if enabled then s.callers else s.callers ++ [.notify] }

/-- The packet that `close` leaves in the queue. -/
def disconnectMessage : Message := message .reliable [Packet.PacketID.disconnect.toU8]

/-- The section of the send queue of `close`. -/
def close : State ν :=
  if s.callable && s.connected then
    match s.send.queue.insertPayload B disconnectMessage with
    | .error _ => s
    | .ok _ => { s with
        send := s.send.step B (.insert disconnectMessage)
        callers := s.callers ++ [.close] }
  else s

/-- One action. One that is not possible changes nothing. -/
def step (e : Endpoint) : Action → State ν
  | .elapse millis => { s with clock := s.clock + millis }
  | .task => s.tick B
  | .timer => s.timer
  | .notified => s.notified
  | .closed => s.closed
  | .expired => s.expired
  | .publish => s.publish
  | .worker => s.work B
  | .caller i => s.call i
  | .heartbeat => if s.workerFree then { s with lastHeartbeat := s.clock } else s
  | .ack ranges now => s.feedback B (.ackRanges ranges now) now
  | .nack ranges now => s.feedback B (.nackRanges ranges now) now
  | .frames frames takeAck => s.frames frames takeAck
  | .handle stamp stamp' receiverOpen data => s.handle B e stamp stamp' receiverOpen data
  | .connect => s.connect B
  | .payload m => s.payload B m
  | .batch channel owned payloads => s.batch B channel owned payloads
  | .setSendOptions options => s.setSendOptions B options
  | .setRecoveryOptions options => s.setRecoveryOptions B options
  | .setIdleMaintenance enabled => s.setIdleMaintenance enabled
  | .close => s.close B
  | .shut => { s with connected := false }

end State

/-- The connection after the given actions. -/
abbrev runConnection (ν : Type) [Notification ν] (B : Build) (e : Endpoint) (mtu : Fin 65536)
    (request : Option Bytes) (actions : List Action) : State ν :=
  Machine.run (fun s a => s.step B e a) (.new B mtu request) actions

/-! ### The receive loop

The worker is that of `Socket.ReceiveLoop`, of which only the sections of the receive queue are left
here. Whatever that loop makes of its queue, a run of the connection does. -/

section receiveLoop

variable {ν : Type} [Notification ν] {B : Build} {e : Endpoint} {mtu : Fin 65536}
  {request : Option Bytes} {recv recv' : RecvQ}

/-- Everyone is between two rounds, and idle maintenance is off. -/
def State.Resting (s : State ν) : Prop :=
  s.task = .top false ∧ s.lock = none ∧ s.worker = .free ∧ s.connected = true ∧ s.idle = false ∧
    s.enabled = false

/-- Some run of the connection has this receive queue. -/
def Realised (ν : Type) [Notification ν] (B : Build) (e : Endpoint) (mtu : Fin 65536)
    (request : Option Bytes) (recv : RecvQ) : Prop :=
  ∃ actions, (runConnection ν B e mtu request actions).Resting ∧
    (runConnection ν B e mtu request actions).recv = recv

theorem Realised.after (h : Realised ν B e mtu request recv) (more : List Action)
    (hmore : ∀ s : State ν, s.Resting → s.recv = recv →
      (Machine.run (fun s a => s.step B e a) s more).Resting ∧
        (Machine.run (fun s a => s.step B e a) s more).recv = recv') :
    Realised ν B e mtu request recv' := by
  obtain ⟨actions, hrest, hrecv⟩ := h
  refine ⟨actions ++ more, ?_⟩
  unfold runConnection Machine.run
  rw [List.foldl_append]
  exact hmore _ hrest hrecv

/-- The worker inserts frames, none of which is rejected. -/
theorem Realised.frames (h : Realised ν B e mtu request recv) {f ready : List FrameSetPacket}
    (hinsert : Socket.insertAll recv [] f = (ready, false, recv')) (takeAck : Bool) :
    Realised ν B e mtu request (if takeAck then recv'.takeAckInto.2 else recv') := by
  refine h.after [.frames f takeAck, .worker] fun s ⟨htask, hlock, hworker, hrest⟩ hrecv => ?_
  cases hneeds : (if takeAck then recv'.takeAckInto.2 else recv').needsMaintenance <;>
    simp [Machine.run, State.step, State.frames, State.workerFree, State.work, State.received,
      State.Resting, htask, hlock, hworker, hrest, hrecv, hinsert, hneeds]

/-- The task takes the missing ranges in one of its rounds. -/
theorem Realised.takeNack (hB : B.recoveryPolicy = false) (h : Realised ν B e mtu request recv) :
    Realised ν B e mtu request recv.takeNackInto.2 := by
  refine h.after [.task, .task, .elapse 50, .heartbeat, .timer, .task, .task, .task, .task, .task,
    .task] fun s ⟨htask, hlock, hworker, hconnected, hidle, henabled⟩ hrecv => ?_
  simp [Machine.run, State.step, State.tick, State.goOn, State.timer, State.wake, State.enter,
    State.release, State.workerFree, State.recvFree, Phase.published, State.Resting, htask, hlock,
    hworker, hconnected, hidle, henabled, hB, hrecv, defaultTimeoutMills, receiveTimeout]

theorem Realised.step {r : Socket.ReceiveLoop} (hB : B.recoveryPolicy = false)
    (h : r.phase = .ended ∨ Realised ν B e mtu request r.recvq) (a : Socket.LoopAction) :
    (r.step a).phase = .ended ∨ Realised ν B e mtu request (r.step a).recvq := by
  cases a with
  | takeNack => exact h.imp_right (·.takeNack hB)
  | worker m =>
    rcases h with hended | h
    · left
      show (r.move m).phase = _
      unfold Socket.ReceiveLoop.move
      rw [hended]
      exact hended
    show (r.move m).phase = _ ∨ Realised ν B e mtu request (r.move m).recvq
    rcases r.move_recvq m with heq | heq | ⟨frames, heq⟩
    · exact .inr (heq ▸ h)
    · exact .inr (heq ▸ h.frames (f := []) rfl true)
    · rw [heq]
      unfold Socket.ReceiveLoop.insert
      rcases hinsert : Socket.insertAll r.recvq [] frames with ⟨ready, _ | _, recv⟩
      · right
        simp only [Bool.false_eq_true, ↓reduceIte]
        split_ifs
        · exact h.frames hinsert true
        · exact h.frames hinsert false
      · exact .inl rfl
  | _ => exact h

/-- **The receive loop is realised**: without the recovery policy, and until the loop ends, its
receive queue is that of some run of the connection. -/
theorem loop_realised (hB : B.recoveryPolicy = false) (peer : Option SocketAddr)
    (actions : List Socket.LoopAction) (hgoing : (Socket.runLoop peer actions).phase ≠ .ended) :
    Realised ν B e mtu request (Socket.runLoop peer actions).recvq := by
  have h : (Socket.runLoop peer actions).phase = .ended ∨
      Realised ν B e mtu request (Socket.runLoop peer actions).recvq :=
    Machine.run_invariant
      (I := fun r : Socket.ReceiveLoop => r.phase = .ended ∨ Realised ν B e mtu request r.recvq)
      (.inr ⟨[], ⟨rfl, rfl, rfl, rfl, rfl, rfl⟩, rfl⟩) (fun _ a h => Realised.step hB h a) actions
  exact h.resolve_left hgoing

end receiveLoop

end RustRaknet.Maintenance
