import RustRaknet.Socket.Wakeups

/-! # A connection that sleeps is woken

The task puts a connection to sleep when it has found it quiet, set its flag, found nothing to do in
the receive queue and found the send queue empty, in this order. What it has found still holds at
each later step, or someone will wake it (`Attentive`). So at any moment that a task sleeps while
there is something to do, someone has still to look at the flag or to notify it (`sleep_attended`),
and it is woken as soon as everyone has finished what they began (`no_wakeup_lost`).

The worker looks at the flag after it has sent replies, and not after an error. Replies go to an
empty queue as a whole or not at all only when a frame takes the nine bytes of a ping, that is from
an MTU of 69 bytes on. -/

namespace RustRaknet.Maintenance

open RustRaknet.Frame RustRaknet.Send RustRaknet.Reply RustRaknet.Lib
open RustRaknet.Lib.Notification (notifyOne enable registered ready pending)

variable {ν : Type} [Notification ν]

/-- The send queue is empty, or someone will wake the task for it; or the worker has put replies
in an empty queue. -/
def State.Settled (s : State ν) : Prop :=
  s.send.queue.isEmpty = true ∨ s.attended = true ∨
    (s.worker = .replying ∧ s.send.queue.sentPacket = [])

/-- What has been found on the way to sleep still holds, or someone will wake the task. -/
structure Attentive (B : Build) (mtu : Fin 65536) (s : State ν) : Prop
    extends Sound B mtu s, Locked s where
  connecting : s.connecting = true → s.enabled = false ∧ s.task.drowsy = 0
  listens : s.Listens B
  flag : 2 ≤ s.task.drowsy → s.idle = true ∨ s.alarmed = true
  recvQueue : 3 ≤ s.task.drowsy → s.recv.needsMaintenance = false ∨ s.attended = true
  sendQueue : 4 ≤ s.task.drowsy → s.Settled

section attentive

variable {B : Build} {mtu : Fin 65536} {s s' : State ν}

theorem Attentive.keep (h : Attentive B mtu s) (hsound : Sound B mtu s') (hlocked : Locked s')
    (hconnecting : s'.connecting = true → s.connecting = true ∧ s'.enabled = s.enabled)
    (hkeeps : Keeps B s s')
    (hrecv : s'.recv.needsMaintenance = true →
      s.recv.needsMaintenance = true ∨ s'.attended = true)
    (hsend : 4 ≤ s.task.drowsy → s.Settled → s'.Settled) : Attentive B mtu s' where
  toSound := hsound
  toLocked := hlocked
  connecting hc := by
    obtain ⟨hc, henabled⟩ := hconnecting hc
    obtain ⟨hdisabled, hdrowsy⟩ := h.connecting hc
    exact ⟨henabled.trans hdisabled, Nat.le_zero.mp (hdrowsy ▸ hkeeps.drowsy)⟩
  listens := hkeeps.listens h.listens
  flag hd := (h.flag (hd.trans hkeeps.drowsy)).elim hkeeps.idle fun ha => .inr (hkeeps.alarmed ha)
  recvQueue hd := by
    have hd := hd.trans hkeeps.drowsy
    have hwatched := h.flag (by omega)
    cases hneeds : s'.recv.needsMaintenance with
    | false => exact .inl rfl
    | true =>
      refine .inr ((hrecv hneeds).elim (fun hneeds => ?_) id)
      refine hkeeps.attended hwatched ((h.recvQueue hd).resolve_left ?_)
      simp [hneeds]
  sendQueue hd := hsend (hd.trans hkeeps.drowsy) (h.sendQueue (hd.trans hkeeps.drowsy))

theorem Attentive.aside (h : Attentive B mtu s) (haside : Aside B s s') (hsound : Sound B mtu s')
    (hconnecting : s'.connecting = true → s.connecting = true ∧ s'.enabled = s.enabled)
    (hrecv : s'.recv.needsMaintenance = true →
      s.recv.needsMaintenance = true ∨ s'.attended = true)
    (hsend : 4 ≤ s.task.drowsy → s.Settled → s'.Settled) : Attentive B mtu s' :=
  h.keep hsound (haside.locked h.toLocked) hconnecting haside.toKeeps hrecv hsend

theorem Attentive.settled (h : Attentive B mtu s) (hkeeps : Keeps B s s')
    (hsend : s'.send = s.send)
    (hworker : s.worker = .replying → s'.worker = .replying) (hd : 4 ≤ s.task.drowsy)
    (hs : s.Settled) : s'.Settled := by
  rcases hs with hempty | hattended | ⟨hreplying, hflight⟩
  · exact .inl (by rw [hsend, hempty])
  · exact .inr (.inl (hkeeps.attended (h.flag (by omega)) hattended))
  · exact .inr (.inr ⟨hworker hreplying, by rw [hsend, hflight]⟩)

theorem Attentive.awake (h : Attentive B mtu s) (hsound : Sound B mtu s') (hlocked : Locked s')
    (hconnecting : s'.connecting = true → s.connecting = true ∧ s'.enabled = s.enabled)
    (hdrowsy : s'.task.drowsy = 0) (hlistens : s'.Listens B) : Attentive B mtu s' where
  toSound := hsound
  toLocked := hlocked
  connecting hc := ⟨(hconnecting hc).2.trans (h.connecting (hconnecting hc).1).1, hdrowsy⟩
  listens := hlistens
  flag hd := by omega
  recvQueue hd := by omega
  sendQueue hd := by omega

/-! ### The owner of the lock -/

theorem Attentive.publish (h : Attentive B mtu s) : Attentive B mtu s.publish := by
  have hkeeps : Keeps B s s.publish := .publish h.worker
  have hsound := h.toSound.publish
  have hlocked := h.toLocked.publish
  rcases publish_cases s with heq |
    ⟨owner, next, hlock, wakeup, deadline, driven, ⟨next', heq⟩ | heq⟩
  · rwa [heq]
  · rw [heq] at hkeeps hsound hlocked ⊢
    exact h.keep hsound hlocked (fun hc => ⟨hc, rfl⟩) hkeeps .inl (h.settled hkeeps rfl id)
  · rw [heq] at hkeeps hsound hlocked ⊢
    have hframe := frame_release (s := { s with wakeup, deadline, deadlineDriven := driven }) owner
    refine h.keep hsound hlocked (fun hc => ⟨hframe.connecting ▸ hc, hframe.enabled⟩) hkeeps
      (fun hneeds => .inl (hframe.recv ▸ hneeds)) (h.settled hkeeps hframe.send fun hreplying => ?_)
    rw [worker_release ?_]
    · exact hreplying
    · by_contra hworker
      have hbusy := h.worker _ hlock (by simpa using hworker)
      rw [hreplying] at hbusy
      cases hbusy

/-! ### The worker -/

/-- What the worker has put in an empty queue leaves it here, and then the worker looks at the
flag. -/
theorem Attentive.work (h : Attentive B mtu s) : Attentive B mtu (s.work B) := by
  have haside : Aside B s (s.work B) := .work
  have hsound := h.toSound.work
  rcases work_cases B s with heq | ⟨hworker, hlock, heq⟩ |
    ⟨hreplying, hbusy, connected, wakeup, idle, worker, heq⟩
  · rwa [heq]
  · rw [heq] at haside hsound ⊢
    have hframe := frame_enter (B := B)
      (s := { s with send := s.send.step B (.flush s.clock), worker := .busy })
      (.reply !(s.send.queue.flush B s.clock).1.frames.isEmpty)
    refine h.aside haside hsound (fun hc => ⟨hframe.connecting ▸ hc, hframe.enabled⟩)
      (fun hneeds => .inl (hframe.recv ▸ hneeds)) fun hd hsettled => ?_
    cases hempty : s.send.queue.isEmpty with
    | true =>
      refine .inl ?_
      rw [hframe.send]
      exact h.send.isEmpty_step rfl hempty
    | false =>
      rcases hsettled with hempty' | hattended | ⟨-, hflight⟩
      · exact absurd hempty' (by simp [hempty])
      · exact .inr (.inl (haside.attended (h.flag (by omega)) hattended))
      · refine .inr (.inl (attended_enter ?_))
        show (!(s.send.queue.flush B s.clock).1.frames.isEmpty) = true
        rw [h.send.flush_frames s.clock hempty hflight]
        rfl
  · rw [heq] at haside hsound ⊢
    exact h.aside haside hsound (fun hc => ⟨hc, rfl⟩) .inl
      (h.settled haside.toKeeps rfl fun hr => absurd hr hreplying)

/-- Feedback takes frames away, and a flush sends them. -/
theorem Attentive.feedback (h : Attentive B mtu s) (op : Op) (hvalid : op.ValidOptions)
    (hinsert : op.isInsert = false) (hop : ∀ tick, op ≠ .flush tick) (now : ℤ) :
    Attentive B mtu (s.feedback B op now) := by
  have haside : Aside B s (s.feedback B op now) := .feedback op now
  have hsound := h.toSound.feedback op hvalid hop now
  unfold State.feedback at haside hsound ⊢
  split
  · next hguard =>
    rw [if_pos hguard] at haside hsound
    simp only [Bool.and_eq_true, State.workerFree, beq_iff_eq] at hguard
    have hworker := hguard.1.1.1
    set flushed := (s.send.step B op).step B (.flush (if B.recoveryPolicy then s.clock else now))
    have hframe := frame_enter (B := B) (s := { s with send := flushed, worker := .busy }) .feedback
    refine h.aside haside hsound (fun hc => ⟨hframe.connecting ▸ hc, hframe.enabled⟩)
      (fun hneeds => .inl (hframe.recv ▸ hneeds)) fun hd hsettled => ?_
    rcases hsettled with hempty | hattended | ⟨hreplying, -⟩
    · refine .inl ?_
      rw [hframe.send]
      have hstep : (s.send.step B op).queue.isEmpty = true := h.send.isEmpty_step hinsert hempty
      have hreached := h.send.step op hvalid fun tick he => absurd he (hop tick)
      exact hreached.isEmpty_step rfl hstep
    · exact .inr (.inl (haside.attended (h.flag (by omega)) hattended))
    · rw [hworker] at hreplying
      cases hreplying
  · exact h

theorem Attentive.frames (h : Attentive B mtu s) (frames : List FrameSetPacket) (takeAck : Bool) :
    Attentive B mtu (s.frames frames takeAck) := by
  have haside : Aside B s (s.frames frames takeAck) := .frames frames takeAck
  have hsound := h.toSound.frames frames takeAck
  unfold State.frames at haside hsound ⊢
  split
  · next hguard =>
    rw [if_pos hguard] at haside hsound
    have hworker : s.worker = .free := by simpa [State.workerFree] using hguard
    have hreplying : s.worker ≠ .replying := by simp [hworker]
    simp only at haside hsound ⊢
    set recv := if takeAck then (Socket.insertAll s.recv [] frames).2.2.takeAckInto.2
      else (Socket.insertAll s.recv [] frames).2.2
    by_cases hneeds : recv.needsMaintenance = true
    · rw [if_pos hneeds] at haside hsound ⊢
      refine h.aside haside hsound (fun hc => ⟨hc, rfl⟩) (fun _ => .inr ?_)
        (h.settled haside.toKeeps rfl fun hr => absurd hr hreplying)
      simp [State.attended, Worker.checks]
    · rw [if_neg hneeds] at haside hsound ⊢
      obtain ⟨connected, worker, heq⟩ := received_eq { s with recv }
        (Socket.insertAll s.recv [] frames).2.1
      rw [heq] at haside hsound ⊢
      exact h.aside haside hsound (fun hc => ⟨hc, rfl⟩) (fun hn => absurd hn hneeds)
        (h.settled haside.toKeeps rfl fun hr => absurd hr hreplying)
  · exact h

theorem sentPacket_of_isEmpty {q : SendQ} (h : q.isEmpty = true) : q.sentPacket = [] := by
  unfold SendQ.isEmpty at h
  simp only [Bool.and_eq_true, List.isEmpty_iff] at h
  exact h.1.2

/-- Replies are put in an empty queue, or beside what someone else will see to. -/
theorem Attentive.handle (h : Attentive B mtu s) (hmtu : 69 ≤ (mtu : ℕ)) (e : Endpoint)
    (stamp stamp' : Int64) (receiverOpen : Bool) (data : Bytes) :
    Attentive B mtu (s.handle B e stamp stamp' receiverOpen data) := by
  have haside : Aside B s (s.handle B e stamp stamp' receiverOpen data) :=
    .handle e stamp stamp' receiverOpen data
  have hsound := h.toSound.handle e stamp stamp' receiverOpen data
  have hflight := handle_sentPacket (B := B) e stamp stamp' receiverOpen data s.send
  unfold State.handle at haside hsound ⊢
  split
  · next hguard =>
    rw [if_pos hguard] at haside hsound
    simp only [Bool.and_eq_true, State.workerFree, beq_iff_eq] at hguard
    have hreplying : ∀ {P : Prop}, s.worker = .replying → P := fun hr => by
      rw [hguard.1] at hr
      cases hr
    rcases hhandle : Reply.handle B e stamp stamp' receiverOpen data s.send with ⟨result, send⟩
    rw [hhandle] at haside hsound hflight
    rcases result with error | action
    · refine h.aside haside hsound (fun hc => ⟨hc, rfl⟩) .inl fun hd hsettled => ?_
      rcases hsettled with hempty | hattended | ⟨hr, -⟩
      · rw [h.send.handle_error hmtu hempty hhandle]
        exact .inl hempty
      · exact .inr (.inl (haside.attended (h.flag (by omega)) hattended))
      · exact hreplying hr
    · have hreply : Aside B s { s with send, worker := .replying } →
          Sound B mtu { s with send, worker := .replying } →
          Attentive B mtu { s with send, worker := .replying } := by
        intro haside hsound
        refine h.aside haside hsound (fun hc => ⟨hc, rfl⟩) .inl fun hd hsettled => ?_
        rcases hsettled with hempty | hattended | ⟨hr, -⟩
        · exact .inr (.inr ⟨rfl, hflight.trans (sentPacket_of_isEmpty hempty)⟩)
        · exact .inr (.inl (haside.attended (h.flag (by omega)) hattended))
        · exact hreplying hr
      cases action with
      | disconnect =>
        exact h.aside haside hsound (fun hc => ⟨hc, rfl⟩) .inl
          fun _ _ => .inr (.inl (attended_of_alarmed (alarmed_of_closed rfl)))
      | «continue» | handshakeComplete => exact hreply haside hsound
  · exact h

/-! ### The callers -/

theorem Attentive.call (h : Attentive B mtu s) (i : ℕ) : Attentive B mtu (s.call i) := by
  have haside : Aside B s (s.call i) := .call i
  have hsound := h.toSound.call i
  obtain ⟨connected, wakeup, idle, callers, heq⟩ := call_eq s i
  rw [heq] at haside hsound ⊢
  exact h.aside haside hsound (fun hc => ⟨hc, rfl⟩) .inl (h.settled haside.toKeeps rfl id)

theorem Attentive.caller (h : Attentive B mtu s) (hlock : s.lock = none) {send : Run}
    (hsend : Reached B mtu send) (next : Access) :
    Attentive B mtu ({ s with send }.enter B (.caller next)) := by
  have hframe := frame_enter (B := B) (s := { s with send }) (.caller next)
  have hsound : Sound B mtu { s with send } := ⟨hsend, h.clock⟩
  exact h.aside (.caller hlock send next) (hsound.enter _)
    (fun hc => ⟨hframe.connecting ▸ hc, hframe.enabled⟩)
    (fun hneeds => .inl (hframe.recv ▸ hneeds)) fun _ _ => .inr (.inl (attended_enter rfl))

theorem Attentive.bound (h : Attentive B mtu s) {send : Run} (hsend : Reached B mtu send)
    (enabled : Bool) (henabled : s.connecting = true → enabled = s.enabled) {next : Access}
    (hnext : next.notifies = true) :
    Attentive B mtu { s with send, enabled, callers := s.callers ++ [next] } := by
  refine h.aside (.bound send enabled hnext) ⟨hsend, h.clock⟩ (fun hc => ⟨hc, henabled hc⟩) .inl
    fun _ _ => .inr (.inl (attended_of_alarmed ?_))
  simp [State.alarmed, hnext]

theorem Attentive.payload (h : Attentive B mtu s) (m : Message) :
    Attentive B mtu (s.payload B m) := by
  unfold State.payload
  split_ifs with hguard
  · simp only [Bool.and_eq_true, State.callable, Option.isNone_iff_eq_none] at hguard
    split
    · split
      · exact h
      · exact h.caller hguard.1.1 ((h.send.insert m).flush h.clock) .load
    · exact h
  · exact h

theorem Attentive.batch (h : Attentive B mtu s) (channel : Fin 256) (owned : Bool)
    (payloads : List Bytes) : Attentive B mtu (s.batch B channel owned payloads) := by
  unfold State.batch
  split_ifs with hguard
  · simp only [Bool.and_eq_true, State.callable, Option.isNone_iff_eq_none] at hguard
    split
    · next hroom =>
      obtain ⟨send, hsend⟩ := h.send.batch channel owned hroom
      have hreached := (h.send.step .enableCoalescing trivial fun _ he => by cases he).insertEach
        (State.messages channel owned payloads)
      rw [hsend] at hreached ⊢
      exact h.caller hguard.1.1 (hreached.flush h.clock) .swap
    · exact h
  · exact h

theorem Attentive.setSendOptions (h : Attentive B mtu s)
    (options : { o : SendOptions // o.Valid }) : Attentive B mtu (s.setSendOptions B options) := by
  unfold State.setSendOptions
  split_ifs
  · split
    · exact h
    · refine h.bound ?_ s.enabled (fun _ => rfl) rfl
      exact h.send.step (.setSendOptions options) options.2 fun _ he => by cases he
  · exact h

theorem Attentive.setRecoveryOptions (h : Attentive B mtu s) (options : RecoveryOptions) :
    Attentive B mtu (s.setRecoveryOptions B options) := by
  have haside : Aside B s (s.setRecoveryOptions B options) := .setRecoveryOptions options
  unfold State.setRecoveryOptions at haside ⊢
  split
  · next hguard =>
    rw [if_pos hguard] at haside
    have hsend : Reached B mtu (s.send.step B (.setRecoveryOptions options s.clock)) :=
      h.send.step _ trivial fun _ he => by cases he
    refine h.aside haside ⟨hsend, h.clock⟩ (fun hc => ⟨hc, rfl⟩) .inl
      fun _ _ => .inr (.inl (attended_of_alarmed ?_))
    simp [State.alarmed, State.goto, Section.notifies]
  · exact h

theorem Attentive.setIdleMaintenance (h : Attentive B mtu s) (enabled : Bool) :
    Attentive B mtu (s.setIdleMaintenance enabled) := by
  have haside : Aside B s (s.setIdleMaintenance enabled) := .setIdleMaintenance enabled
  unfold State.setIdleMaintenance at haside ⊢
  split_ifs at haside ⊢ with hconnecting henabled
  · exact h
  · exact h.aside haside (h.toSound.congr rfl rfl) (fun hc => absurd hc hconnecting) .inl
      (h.settled haside.toKeeps rfl id)
  · exact h.bound h.send enabled (fun hc => absurd hc hconnecting) rfl

theorem Attentive.close (h : Attentive B mtu s) : Attentive B mtu (s.close B) := by
  unfold State.close
  split_ifs
  · split
    · exact h
    · exact h.bound (h.send.insert _) s.enabled (fun _ => rfl) rfl
  · exact h

/-- A client has not been able to put its connection to sleep. -/
theorem Attentive.connect (h : Attentive B mtu s) : Attentive B mtu (s.connect B) := by
  have haside : Aside B s (s.connect B) := .connect
  unfold State.connect at haside ⊢
  split
  · next hguard =>
    rw [if_pos hguard] at haside
    simp only [Bool.and_eq_true] at hguard
    set flushed := s.send.step B (.flush s.clock)
    have hframe := frame_enter (B := B) (s := { s with send := flushed, connecting := false })
      .connect
    have hsound : Sound B mtu { s with send := flushed, connecting := false } :=
      ⟨h.send.flush h.clock, h.clock⟩
    refine h.aside haside (hsound.enter _) (fun hc => ?_)
      (fun hneeds => .inl (hframe.recv ▸ hneeds)) fun hd => ?_
    · rw [hframe.connecting] at hc
      cases hc
    · rw [(h.connecting hguard.2).2] at hd
      omega
  · exact h

/-! ### The task -/

theorem Attentive.goOn (h : Attentive B mtu s) {wakeup : ν} {wakeAt : ℤ} {task : Phase}
    (htask : ∀ idle, s.task ≠ .publishing idle) (hdrowsy : task.drowsy = s.task.drowsy)
    (hpending : pending wakeup = pending s.wakeup)
    (hlistens : { s with wakeup, wakeAt, task }.Listens B) :
    Attentive B mtu { s with wakeup, wakeAt, task } := by
  have hkeeps : Keeps B s { s with wakeup, wakeAt, task } := by
    refine ⟨hdrowsy.le, fun _ => hlistens, ?_, .inl, fun _ => ?_⟩
    · simp only [State.alarmed, hpending]
      exact id
    · simp only [State.attended, State.alarmed, hpending]
      exact id
  exact h.keep (h.toSound.congr rfl rfl) (h.toLocked.leave rfl rfl htask) (fun hc => ⟨hc, rfl⟩)
    hkeeps .inl (h.settled hkeeps rfl id)

/-- A step towards sleep that does not reach it. -/
theorem Attentive.onward (h : Attentive B mtu s) (htask : ∀ idle, s.task ≠ .publishing idle)
    {idle : Bool} {recv : Recv.RecvQ} {task : Phase}
    (hwaiting : ∀ idle delay timer armed, task ≠ .waiting idle delay timer armed)
    (hconnecting : s.connecting = true → task.drowsy = 0)
    (hflag : 2 ≤ task.drowsy → idle = true ∨ s.alarmed = true)
    (hrecv : 3 ≤ task.drowsy → recv.needsMaintenance = false) (hsend : task.drowsy < 4) :
    Attentive B mtu { s with idle, recv, task } where
  toSound := h.toSound.congr rfl rfl
  toLocked := h.toLocked.leave rfl rfl htask
  connecting hc := ⟨(h.connecting hc).1, hconnecting hc⟩
  listens := fun _ _ _ _ hw => absurd hw (hwaiting _ _ _ _)
  flag := hflag
  recvQueue hd := .inl (hrecv hd)
  sendQueue hd := absurd hd (not_le.mpr hsend)

theorem Attentive.quiet (h : Attentive B mtu s) (htask : s.task = .woken) {quiet : Bool}
    (hquiet : quiet = true → s.enabled = true) : Attentive B mtu (s.goOn (.mark quiet)) := by
  refine h.onward (by simp [htask]) (by simp) (fun hc => ?_) ?_ ?_ ?_
  · cases quiet with
    | true => exact absurd (hquiet rfl) (by simp [(h.connecting hc).1])
    | false => rfl
  all_goals cases quiet <;> simp [Phase.drowsy]

theorem Attentive.mark (h : Attentive B mtu s) {quiet : Bool} (htask : s.task = .mark quiet) :
    Attentive B mtu ({ s with idle := quiet || s.idle }.goOn (.receive quiet)) := by
  refine h.onward (by simp [htask]) (by simp) (fun hc => ?_) ?_ ?_ ?_
  · have hdrowsy := (h.connecting hc).2
    rw [htask] at hdrowsy
    cases quiet <;> simp_all [Phase.drowsy]
  all_goals cases quiet <;> simp [Phase.drowsy]

theorem Attentive.receive (h : Attentive B mtu s) {quiet : Bool} (htask : s.task = .receive quiet)
    (recv : Recv.RecvQ) :
    Attentive B mtu ({ s with recv }.goOn (.flush quiet !recv.needsMaintenance)) := by
  refine h.onward (by simp [htask]) (by simp) (fun hc => ?_) (fun hd => h.flag ?_) ?_ ?_
  · have hdrowsy := (h.connecting hc).2
    rw [htask] at hdrowsy
    cases quiet <;> simp_all [Phase.drowsy]
  · rw [htask]
    cases quiet <;> simp [Phase.drowsy] at hd ⊢
  all_goals cases quiet <;> cases recv.needsMaintenance <;> simp [Phase.drowsy]

theorem Attentive.flush (h : Attentive B mtu s) {quiet receiveIdle : Bool}
    (htask : s.task = .flush quiet receiveIdle) {send : Run} (hsend : Reached B mtu send) :
    Attentive B mtu ({ s with send }.goOn
      (.publishing (quiet && receiveIdle && send.queue.isEmpty))) := by
  have hway : 0 < (Phase.publishing (quiet && receiveIdle && send.queue.isEmpty)).drowsy →
      s.task.drowsy = 3 ∧ send.queue.isEmpty = true := by
    intro hd
    simp only [Phase.drowsy] at hd
    split_ifs at hd with hidle
    · simp only [Bool.and_eq_true] at hidle
      exact ⟨by rw [htask, hidle.1.1, hidle.1.2]; rfl, hidle.2⟩
    · omega
  refine ⟨⟨hsend, h.clock⟩, h.toLocked.leave rfl rfl (by simp [htask]), fun hc => ?_,
    fun _ _ _ _ hw => (by cases hw), fun hd => ?_, fun hd => ?_, fun hd => ?_⟩
  · obtain ⟨hdisabled, hdrowsy⟩ := h.connecting hc
    refine ⟨hdisabled, ?_⟩
    by_contra hd
    have := (hway (Nat.pos_of_ne_zero hd)).1
    omega
  · exact h.flag (by rw [(hway (by exact lt_of_lt_of_le (by omega) hd)).1]; omega)
  · exact h.recvQueue (by rw [(hway (by exact lt_of_lt_of_le (by omega) hd)).1])
  · exact .inl (hway (by exact lt_of_lt_of_le (by omega) hd)).2

theorem Attentive.enter (h : Attentive B mtu s) (hlock : s.lock = none)
    (htask : ∃ idle, s.task = .publishing idle) :
    Attentive B mtu (s.enter B .task) := by
  have hkeeps : Keeps B s (s.enter B .task) := .enter hlock (by simp) fun hw => by cases hw
  have hframe := frame_enter (B := B) (s := s) .task
  refine h.keep (h.toSound.enter _) (.enter (fun hw => by cases hw) fun _ => htask)
    (fun hc => ⟨hframe.connecting ▸ hc, hframe.enabled⟩) hkeeps
    (fun hneeds => .inl (hframe.recv ▸ hneeds)) (h.settled hkeeps hframe.send fun hr => ?_)
  unfold State.enter
  split_ifs <;> exact hr

theorem Attentive.tick (h : Attentive B mtu s) : Attentive B mtu (s.tick B) := by
  have hsame : ∀ {task : Phase}, (∀ idle, s.task ≠ .publishing idle) →
      task.drowsy = s.task.drowsy →
      (∀ idle delay timer armed, task ≠ .waiting idle delay timer armed) →
      Attentive B mtu (s.goOn task) := fun htask hdrowsy hwaiting =>
    h.goOn htask hdrowsy rfl fun _ _ _ _ hw => absurd hw (hwaiting _ _ _ _)
  have hawake : ∀ {connected idle : Bool} {task : Phase}, (∀ idle, s.task ≠ .publishing idle) →
      task.drowsy = 0 → (∀ idle delay timer armed, task ≠ .waiting idle delay timer armed) →
      Attentive B mtu { s with connected, idle, task } := fun htask hdrowsy hwaiting =>
    h.awake (h.toSound.congr rfl rfl) (h.toLocked.leave rfl rfl htask) (fun hc => ⟨hc, rfl⟩) hdrowsy
      fun _ _ _ _ hw => absurd hw (hwaiting _ _ _ _)
  unfold State.tick
  split
  · next htask =>
    exact hsame (by simp [htask]) (by rw [htask]; split_ifs <;> rfl) (by split_ifs <;> simp)
  · next htask =>
    exact hsame (by simp [htask]) (by rw [htask]; split_ifs <;> rfl) (by split_ifs <;> simp)
  · next htask =>
    exact h.goOn (by simp [htask]) (by rw [htask]; rfl) (by simp) fun _ _ _ _ hw => by cases hw
  · next htask => exact hsame (by simp [htask]) (by rw [htask]; rfl) (by simp)
  · next htask => exact hsame (by simp [htask]) (by rw [htask]; rfl) (by simp)
  · next htask =>
    exact h.goOn (by simp [htask]) (by rw [htask]; rfl) rfl fun _ _ _ _ hw => by cases hw
  · next htask => exact hsame (by simp [htask]) (by rw [htask]; rfl) (by simp)
  · next htask =>
    exact h.goOn (by simp [htask]) (by rw [htask]; rfl) rfl fun _ _ _ _ hw => by cases hw
  · next htask =>
    refine h.goOn (by simp [htask]) (by rw [htask]; rfl) (by split_ifs <;> simp) ?_
    intro idle' delay' timer armed' hw hl
    obtain ⟨rfl, -⟩ := Phase.waiting.inj hw
    show registered (if _ then _ else _ : ν) = true
    rw [if_pos hl]
    exact Notification.registered_enable _
  · exact h
  · next htask => exact h.quiet htask fun hq => (by simpa using hq : _ ∧ _).1
  · next htask => exact h.mark htask
  · next htask =>
    split_ifs
    · exact h.receive htask _
    · exact h
  · next htask =>
    split_ifs with hlock
    · have hflushed := h.flush htask (h.send.flush h.clock)
      exact hflushed.enter (Option.isNone_iff_eq_none.mp hlock) ⟨_, rfl⟩
    · exact h
  · exact h
  · next idle htask =>
    cases idle with
    | true => exact hsame (by simp [htask]) (by rw [htask]; rfl) (by simp)
    | false => exact hawake (by simp [htask]) rfl (by simp)
  · next htask =>
    split_ifs
    · exact hawake (by simp [htask]) rfl (by simp)
    · exact hsame (by simp [htask]) (by rw [htask]; rfl) (by simp)
    · exact hawake (by simp [htask]) rfl (by simp)
  · exact h

theorem Attentive.step (h : Attentive B mtu s) (hmtu : 69 ≤ (mtu : ℕ)) (e : Endpoint) (a : Action) :
    Attentive B mtu (s.step B e a) := by
  have hsound := h.toSound.step e a
  cases ha : a.ofTask with
  | true =>
    rcases task_cases (s := s) (B := B) e ha with heq | heq | heq |
      ⟨⟨_, _, _, _, htask⟩, _, heq⟩ | ⟨⟨_, htask⟩, heq⟩
    · rwa [heq]
    · rw [heq]
      exact h.tick
    · rw [heq]
      exact h.publish
    all_goals
      rw [heq]
      exact h.awake (h.toSound.congr rfl rfl) (h.toLocked.leave rfl rfl (by simp [htask]))
        (fun hc => ⟨hc, rfl⟩) rfl fun _ _ _ _ hw => by cases hw
  | false =>
    have haside : Aside B s (s.step B e a) := aside_step e ha
    cases a with
    | elapse millis | shut =>
      exact h.aside haside hsound (fun hc => ⟨hc, rfl⟩) .inl (h.settled haside.toKeeps rfl id)
    | worker => exact h.work
    | caller i => exact h.call i
    | heartbeat =>
      by_cases hfree : s.workerFree = true
      · have heq : s.step B e .heartbeat = { s with lastHeartbeat := s.clock } := if_pos hfree
        rw [heq] at haside hsound ⊢
        exact h.aside haside hsound (fun hc => ⟨hc, rfl⟩) .inl (h.settled haside.toKeeps rfl id)
      · rw [show s.step B e .heartbeat = s from if_neg hfree]
        exact h
    | ack ranges now =>
      exact h.feedback (.ackRanges ranges now) trivial rfl (fun _ he => by cases he) now
    | nack ranges now =>
      exact h.feedback (.nackRanges ranges now) trivial rfl (fun _ he => by cases he) now
    | frames frames takeAck => exact h.frames frames takeAck
    | handle stamp stamp' receiverOpen data => exact h.handle hmtu e stamp stamp' receiverOpen data
    | connect => exact h.connect
    | payload m => exact h.payload m
    | batch channel owned payloads => exact h.batch channel owned payloads
    | setSendOptions options => exact h.setSendOptions options
    | setRecoveryOptions options => exact h.setRecoveryOptions options
    | setIdleMaintenance enabled => exact h.setIdleMaintenance enabled
    | close => exact h.close
    | _ => cases ha

theorem attentive_new (B : Build) (mtu : Fin 65536) (request : Option Bytes) :
    Attentive B mtu (.new B mtu request : State ν) where
  toSound := sound_new B mtu request
  toLocked := .of_none rfl
  connecting _ := ⟨rfl, rfl⟩
  listens := fun _ _ _ _ hw => by cases hw
  flag hd := by cases hd
  recvQueue hd := by cases hd
  sendQueue hd := by cases hd

theorem attentive_run (B : Build) (e : Endpoint) {mtu : Fin 65536} (hmtu : 69 ≤ (mtu : ℕ))
    (request : Option Bytes) (actions : List Action) :
    Attentive B mtu (runConnection ν B e mtu request actions) :=
  Machine.run_invariant (attentive_new B mtu request) (fun _ a h => h.step hmtu e a) actions

/-! ### The timer -/

/-- A task that does not sleep waits for no more than the usual delay. -/
def Phase.Prompt (clock : ℤ) : Phase → Prop
  | .created idle delay | .enable idle delay | .clock idle delay | .load idle delay _
  | .store idle delay _ | .reload idle delay _ | .restore idle delay _ | .select idle delay _ =>
    idle = false → delay ≤ defaultTimeoutMills
  | .waiting idle _ timer _ => idle = false → timer ≤ clock + defaultTimeoutMills
  | _ => True

theorem Phase.Prompt.mono {task : Phase} {clock clock' : ℤ} (h : task.Prompt clock)
    (hclock : clock ≤ clock') : task.Prompt clock' := by
  cases task <;> first | exact h | exact fun hidle => (h hidle).trans (by omega)

theorem Phase.Prompt.published {task : Phase} {clock : ℤ} (h : task.Prompt clock) :
    task.published.Prompt clock := by
  cases task <;> exact h

theorem prompt_tick (h : s.task.Prompt s.clock) : (s.tick B).task.Prompt (s.tick B).clock := by
  unfold State.tick
  split
  · next idle htask =>
    simp only [State.goOn]
    cases idle with
    | true => split_ifs <;> exact fun hidle => by cases hidle
    | false => split_ifs <;> first | contradiction | exact fun _ => le_refl _
  · next htask =>
    rw [htask] at h
    simp only [State.goOn]
    split_ifs <;> exact h
  · next htask =>
    rw [htask] at h
    exact h
  · next htask =>
    rw [htask] at h
    exact h
  · next htask =>
    rw [htask] at h
    exact fun hidle => (min_le_left _ _).trans (h hidle)
  · next htask =>
    rw [htask] at h
    exact h
  · next htask =>
    rw [htask] at h
    exact fun hidle => (min_le_left _ _).trans (h hidle)
  · next htask =>
    rw [htask] at h
    exact h
  · next htask =>
    rw [htask] at h
    exact fun hidle => add_le_add_right (h hidle) s.clock
  · exact h
  · exact trivial
  · exact trivial
  · split_ifs
    · exact trivial
    · exact h
  · split_ifs
    · unfold State.enter
      split_ifs <;> exact trivial
    · exact h
  · exact h
  · exact trivial
  · split_ifs <;> exact trivial
  · exact h

theorem prompt_kept : Phase.Kept ν B Phase.Prompt where
  mono := .mono
  published := .published
  woken _ := trivial
  ended _ := trivial
  tick := prompt_tick

end attentive

/-- **No wake-up is lost.** Whatever the tasks of a connection do, in any order: whenever the
maintenance task waits, and everyone else has finished what they began, and there is something to
do in one of the queues, the task has been notified, or its timer ends within the usual delay. -/
theorem no_wakeup_lost {ν : Type} [Notification ν] (B : Build) (e : Endpoint) {mtu : Fin 65536}
    (hmtu : 69 ≤ (mtu : ℕ)) (request : Option Bytes) (actions : List Action) {idle : Bool}
    {delay timer : ℤ} {armed : Option ℤ}
    (hwaiting : (runConnection ν B e mtu request actions).task = .waiting idle delay timer armed)
    (hrest : (runConnection ν B e mtu request actions).atRest = true)
    (hopen : (runConnection ν B e mtu request actions).connected = true)
    (hwork : (runConnection ν B e mtu request actions).send.queue.isEmpty = false ∨
      (runConnection ν B e mtu request actions).recv.needsMaintenance = true) :
    ready (runConnection ν B e mtu request actions).wakeup = true ∨
      timer ≤ (runConnection ν B e mtu request actions).clock + defaultTimeoutMills := by
  have h := attentive_run (ν := ν) B e hmtu request actions
  have hprompt := (prompt_kept (ν := ν) (B := B)).run trivial e mtu request actions
  generalize runConnection ν B e mtu request actions = s at *
  rw [hwaiting] at hprompt
  cases idle with
  | false => exact .inr (hprompt rfl)
  | true =>
    refine .inl (Notification.ready_of_pending ?_ ?_)
    · exact h.listens true delay timer armed hwaiting (by simp)
    · have hdrowsy : s.task.drowsy = 4 := by rw [hwaiting]; rfl
      refine pending_of_attended hrest hopen ?_
      rcases hwork with hwork | hwork
      · rcases h.sendQueue hdrowsy.ge with hempty | hattended | ⟨hreplying, -⟩
        · exact absurd hempty (by simp [hwork])
        · exact hattended
        · simp [State.atRest, hreplying] at hrest
      · exact (h.recvQueue (by omega)).resolve_left (by simp [hwork])

/-- A connection that has gone to sleep, and a caller who gives it a message. -/
def sleepingActions : List Action :=
  [.setIdleMaintenance true, .task, .task, .elapse 600, .timer, .task, .task, .task, .task, .task,
    .task, .task, .task, .payload ⟨.reliableOrdered, primaryChannel, [0xfe, 1], false⟩,
    .caller 0, .caller 0, .caller 0]

theorem no_wakeup_lost_asleep :
    (runConnection Notify (.insertion false false) ⟨.v4 0 0, .v4 0 0⟩ 1400 none sleepingActions).task =
        .waiting true 59400 60000 none ∧
      (ready (runConnection Notify (.insertion false false) ⟨.v4 0 0, .v4 0 0⟩ 1400 none
          sleepingActions).wakeup = true ∨
        60000 ≤ (runConnection Notify (.insertion false false) ⟨.v4 0 0, .v4 0 0⟩ 1400 none
          sleepingActions).clock + defaultTimeoutMills) :=
  have hwaiting : (runConnection Notify (.insertion false false) ⟨.v4 0 0, .v4 0 0⟩ 1400 none
      sleepingActions).task = .waiting true 59400 60000 none := by decide +kernel
  ⟨hwaiting, no_wakeup_lost (.insertion false false) ⟨.v4 0 0, .v4 0 0⟩ (by decide) none
    sleepingActions hwaiting (by decide +kernel) (by decide +kernel) (.inl (by decide +kernel))⟩

/-! ### At any moment -/

/-- Someone has still to notify the task, having found the flag set and cleared it or whatever it
finds, or to close the connection. -/
def State.owesWakeup (s : State ν) : Bool :=
  s.callers.any Access.notifies || s.worker.notifies || s.lock.any Section.notifies

/-- Someone has changed a queue and has still to look at the flag. The worker does so after a flush
that sends something, as it does when frames wait and none is in flight. -/
def State.owesCheck (s : State ν) : Bool :=
  (s.callers.any fun access => !access.notifies) || (s.worker.checks && !s.worker.notifies) ||
    s.lock.any Section.checks || (s.worker == .replying && s.send.queue.sentPacket.isEmpty)

theorem owes_of_attended {s : State ν} (hopen : s.connected = true)
    (hflag : s.idle = true ∨ s.alarmed = true) (h : s.attended = true) :
    pending s.wakeup = true ∨ s.owesWakeup = true ∨ s.idle = true ∧ s.owesCheck = true := by
  cases halarmed : s.alarmed with
  | true =>
    simp only [State.alarmed, hopen, Bool.not_true, Bool.false_or, Bool.or_assoc] at halarmed
    rcases Bool.or_eq_true_iff.mp halarmed with hpending | howes
    · exact .inl hpending
    · exact .inr (.inl (by rwa [State.owesWakeup, Bool.or_assoc]))
  | false =>
    -- nobody is bound to notify, so whoever is not done has still to look at the flag
    refine .inr (.inr ⟨hflag.resolve_right (by simp [halarmed]), ?_⟩)
    simp only [State.attended, halarmed, Bool.false_or, Bool.or_eq_true] at h
    simp only [State.alarmed, Bool.or_eq_false_iff] at halarmed
    obtain ⟨⟨⟨-, hcallers⟩, hworker⟩, -⟩ := halarmed
    rcases h with (hcaller | hchecks) | hlock
    · obtain ⟨access, hmem⟩ := List.exists_mem_of_ne_nil _ (by simpa using hcaller)
      have hany : (s.callers.any fun access => !access.notifies) = true :=
        List.any_eq_true.mpr ⟨access, hmem, by simpa using List.any_eq_false.mp hcallers access hmem⟩
      simp [State.owesCheck, hany]
    · simp [State.owesCheck, hchecks, hworker]
    · simp [State.owesCheck, hlock]

/-- **A task that sleeps is attended to.** Whatever the tasks of a connection do, in any order:
whenever the maintenance task sleeps, the queues have no work; or it has been notified; or someone
has still to notify it; or the flag is set, and someone who has changed a queue has still to look at
it. -/
theorem sleep_attended {ν : Type} [Notification ν] (B : Build) (e : Endpoint) {mtu : Fin 65536}
    (hmtu : 69 ≤ (mtu : ℕ)) (request : Option Bytes) (actions : List Action) {delay timer : ℤ}
    {armed : Option ℤ}
    (hasleep : (runConnection ν B e mtu request actions).task = .waiting true delay timer armed)
    (hopen : (runConnection ν B e mtu request actions).connected = true) :
    let s := runConnection ν B e mtu request actions
    (s.send.queue.isEmpty = true ∧ s.recv.needsMaintenance = false) ∨ pending s.wakeup = true ∨
      s.owesWakeup = true ∨ s.idle = true ∧ s.owesCheck = true := by
  intro s
  have h : Attentive B mtu s := attentive_run B e hmtu request actions
  have hdrowsy : s.task.drowsy = 4 := by rw [hasleep]; rfl
  have hflag := h.flag (by omega)
  rcases h.sendQueue hdrowsy.ge with hempty | hattended | ⟨hreplying, hflight⟩
  · rcases h.recvQueue (by omega) with hrecv | hattended
    · exact .inl ⟨hempty, hrecv⟩
    · exact .inr (owes_of_attended hopen hflag hattended)
  · exact .inr (owes_of_attended hopen hflag hattended)
  · rcases hflag with hidle | halarmed
    · exact .inr (.inr (.inr ⟨hidle, by simp [State.owesCheck, hreplying, hflight]⟩))
    · exact .inr (owes_of_attended hopen (.inr halarmed) (by simp [State.attended, halarmed]))

/-- A connection of a server, in the default build. -/
abbrev servedRun (mtu : Fin 65536) (actions : List Action) : State Notify :=
  runConnection Notify (.insertion false false) ⟨.v4 0 0, .v4 0 0⟩ mtu none actions

theorem sleep_attended_message :
    let s := servedRun 1400 (sleepingActions.take 14)
    s.send.queue.isEmpty = false ∧ (pending s.wakeup = true ∨ s.owesWakeup = true ∨
      s.idle = true ∧ s.owesCheck = true) := by
  intro s
  have hwork : s.send.queue.isEmpty = false := by decide +kernel
  have hasleep : s.task = .waiting true 59400 60000 none := by decide +kernel
  refine ⟨hwork, ?_⟩
  rcases sleep_attended (ν := Notify) (.insertion false false) ⟨.v4 0 0, .v4 0 0⟩ (by decide) none
    (sleepingActions.take 14) hasleep (by decide +kernel) with ⟨hempty, -⟩ | howes
  · cases hwork.symm.trans hempty
  · exact howes

/-- A connection that has gone to sleep, and a `ConnectionRequestAccepted` without internal
addresses. -/
def strandedActions : List Action :=
  sleepingActions.take 13 ++ [.handle 0 0 true
    ([16, 4, 255, 255, 255, 255, 0, 0, 0, 0] ++ List.replicate 16 0)]

/-- A wake-up that is lost: with an MTU of 68 bytes the worker puts the first of two replies in the
queue, fails to put the ping behind it, and neither flushes nor looks at the flag. And one that is
on its way: a caller has looked at the flag and cleared it, and has not yet notified the task. -/
theorem wakeup_lost_narrow :
    (let s := servedRun 68 strandedActions;
      s.task = .waiting true 59400 60000 none ∧ s.connected = true ∧
        s.send.queue.isEmpty = false ∧ pending s.wakeup = false ∧ s.atRest = true) ∧
    (let s := servedRun 1400 (sleepingActions.take 16);
      s.task = .waiting true 59400 60000 none ∧ s.connected = true ∧
        s.send.queue.isEmpty = false ∧ pending s.wakeup = false ∧ s.owesCheck = false) := by
  decide +kernel

end RustRaknet.Maintenance
