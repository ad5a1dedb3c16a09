import RustRaknet.Socket.Maintenance

/-! # The send queue of a connection

Whatever the tasks of a connection do, its send queue is one that operations with valid options and
a clock that never runs below zero have reached (`reached_run`), so what holds of every run of the
queue holds here. On an empty queue neither the replies to a control message nor the messages of a
batch fail half way. -/

namespace RustRaknet.Maintenance

open RustRaknet.Frame RustRaknet.Send RustRaknet.Reply RustRaknet.Packet RustRaknet.Lib.Result
open RustRaknet.Lib (Notification)
open RustRaknet.Lib.Notification (notifyOne)
open RustRaknet.Datatype (writeU8 writeU16 writeU32 writeI64)

/-- A queue after operations with valid options and times. -/
def Reached (B : Build) (mtu : Fin 65536) (r : Run) : Prop :=
  ∃ ops, r = Send.run B mtu ops ∧ (∀ op ∈ ops, op.ValidOptions) ∧
    ∀ tick, Op.flush tick ∈ ops → 0 ≤ tick

section queue

variable {B : Build} {mtu : Fin 65536} {r : Run}

theorem reached_new (B : Build) (mtu : Fin 65536) : Reached B mtu (.new mtu) :=
  ⟨[], rfl, fun _ h => (List.not_mem_nil h).elim, fun _ h => (List.not_mem_nil h).elim⟩

theorem Reached.step (h : Reached B mtu r) (op : Op) (hvalid : op.ValidOptions)
    (htick : ∀ tick, op = .flush tick → 0 ≤ tick) : Reached B mtu (r.step B op) := by
  obtain ⟨ops, rfl, hops, hticks⟩ := h
  refine ⟨ops ++ [op], (Send.run_append B mtu ops op).symm, fun op' hop' => ?_, fun tick ht => ?_⟩
  · obtain hop' | rfl := Lib.mem_snoc.mp hop'
    · exact hops op' hop'
    · exact hvalid
  · rcases List.mem_append.mp ht with ht | ht
    · exact hticks tick ht
    · exact htick tick (List.mem_singleton.mp ht).symm

theorem Reached.flush (h : Reached B mtu r) {tick : ℤ} (htick : 0 ≤ tick) :
    Reached B mtu (r.step B (.flush tick)) :=
  h.step _ trivial fun _ he => Op.flush.inj he ▸ htick

theorem Reached.insert (h : Reached B mtu r) (m : Message) : Reached B mtu (r.step B (.insert m)) :=
  h.step _ trivial fun _ he => by cases he

theorem Reached.caches (h : Reached B mtu r) : Caches r.queue := by
  obtain ⟨ops, rfl, -, hticks⟩ := h
  exact caches_run B mtu ops hticks

theorem Reached.mtu_eq (h : Reached B mtu r) : r.queue.mtu = mtu := by
  obtain ⟨ops, rfl, -⟩ := h
  exact (legacy_room B mtu ops).1

theorem Reached.validOptions (h : Reached B mtu r) : r.queue.ValidOptions := by
  obtain ⟨ops, rfl, hops, -⟩ := h
  exact options_valid_run B mtu hops

theorem Reached.isEmpty_step (h : Reached B mtu r) {op : Op} (hop : op.isInsert = false)
    (hempty : r.queue.isEmpty = true) : (r.step B op).queue.isEmpty = true := by
  obtain ⟨ops, rfl, -⟩ := h
  exact Send.isEmpty_step hop hempty

theorem Reached.flush_frames (h : Reached B mtu r) (tick : ℤ) (hempty : r.queue.isEmpty = false)
    (hflight : r.queue.sentPacket = []) : (r.queue.flush B tick).1.frames.isEmpty = false := by
  obtain ⟨ops, rfl, hops, -⟩ := h
  have hwaiting : 0 < (Send.run B mtu ops).queue.waiting := by
    by_contra hzero
    have := isEmpty_of_waiting (Nat.eq_zero_of_not_pos hzero) hflight
    exact Bool.false_ne_true (hempty.symm.trans this)
  have hframes := flush_progress hops tick hflight hwaiting
  rw [List.isEmpty_eq_false_iff]
  exact List.ne_nil_of_length_pos hframes

/-! ### Insertions one after the other -/

theorem insertEach_cons_ok {m : Message} {ms : List Message} {queue : SendQ}
    (h : r.queue.insertPayload B m = .ok queue) :
    insertEach B r (m :: ms) = insertEach B { r with queue } ms := by
  have hnext : insertNext B (.ok (), r) m = (.ok (), { r with queue }) := by
    unfold insertNext
    simp only
    rw [h]
  unfold insertEach
  rw [List.foldl_cons, hnext]

theorem insertEach_cons_error {m : Message} {ms : List Message} {e : RaknetError}
    (h : r.queue.insertPayload B m = .error e) : insertEach B r (m :: ms) = (.error e, r) := by
  have hnext : insertNext B (.ok (), r) m = (.error e, r) := by
    unfold insertNext
    simp only
    rw [h]
  unfold insertEach
  rw [List.foldl_cons, hnext]
  exact List.foldl_fixed' (fun _ => rfl) ms

theorem Reached.insertEach (h : Reached B mtu r) (ms : List Message) :
    Reached B mtu (Reply.insertEach B r ms).2 := by
  induction ms generalizing r with
  | nil => exact h
  | cons m ms ih =>
    cases hq : r.queue.insertPayload B m with
    | error e =>
      rw [insertEach_cons_error hq]
      exact h
    | ok queue =>
      rw [insertEach_cons_ok hq]
      refine ih ?_
      rw [← Run.insert_ok hq]
      exact h.insert m

theorem insertEach_sentPacket (r : Run) (ms : List Message) :
    (insertEach B r ms).2.queue.sentPacket = r.queue.sentPacket := by
  induction ms generalizing r with
  | nil => rfl
  | cons m ms ih =>
    cases hq : r.queue.insertPayload B m with
    | error e => rw [insertEach_cons_error hq]
    | ok queue =>
      rw [insertEach_cons_ok hq, ih]
      exact (insertPayload_behind hq).sentPacket

theorem insertEach_ok {ms : List Message} {queue : SendQ}
    (h : r.queue.insertAll B ms = .ok queue) : insertEach B r ms = (.ok (), { r with queue }) := by
  induction ms generalizing r with
  | nil =>
    obtain rfl := Except.ok.inj h
    rfl
  | cons m ms ih =>
    unfold SendQ.insertAll at h
    rw [List.foldlM_cons] at h
    obtain ⟨q, hq, hrest⟩ := bind_eq_ok.mp h
    rw [insertEach_cons_ok hq]
    exact ih (r := { r with queue := q }) hrest

/-- **A batch that has room is inserted whole.** -/
theorem Reached.batch (h : Reached B mtu r) (channel : Fin 256) (owned : Bool)
    {payloads : List Bytes}
    (hroom : r.queue.hasBatchCapacity B .reliableOrdered (payloads.map List.length) = .ok true) :
    ∃ send, Reply.insertEach B (r.step B .enableCoalescing)
      (State.messages channel owned payloads) = (.ok (), send) := by
  obtain ⟨total, htotal, hfits⟩ := hasBatchCapacity_room h.validOptions hroom
  obtain ⟨charges, hcharges, rfl⟩ := batchBytes_charges htotal
  rw [Nat.zero_add] at hfits
  have hmembers : List.Forall₂ (fun m c =>
      r.queue.enableCoalescing.requiredBytes .reliableOrdered m.payload.length = .ok c)
      (State.messages channel owned payloads) charges := by
    unfold State.messages
    rw [List.forall₂_map_left_iff] at hcharges ⊢
    exact hcharges
  obtain ⟨queue, hall, -⟩ := insertAll_of_room (B := B) hmembers
    (fun m hm => by
      obtain ⟨payload, -, rfl⟩ := List.mem_map.mp hm
      rfl) hfits
  exact ⟨_, insertEach_ok (r := r.step B .enableCoalescing) hall⟩

/-! ### Replies -/

/-- At most one reply, or the two that a client answers the end of its handshake with. -/
theorem replies_cases {e : Endpoint} {stamp stamp' : Int64} {receiverOpen : Bool} {data : Bytes}
    {ms : List Message} {action : ControlAction}
    (h : replies e stamp stamp' receiverOpen data = .ok (ms, action)) :
    ms.length ≤ 1 ∨ ∃ p : NewIncomingConnection, ms = [message .reliableOrdered p.write,
      message .unreliable (ConnectedPing.write ⟨stamp'⟩)] := by
  unfold replies at h
  cases data with
  | nil => cases h
  | cons id rest =>
    obtain ⟨kind, -, h⟩ := bind_eq_ok.mp h
    cases kind with
    | connectionRequest | newIncomingConnection | connectedPing =>
      obtain ⟨packet, -, h⟩ := bind_eq_ok.mp h
      exact .inl (by simp [← (Prod.mk.inj (Except.ok.inj h)).1])
    | connectionRequestAccepted =>
      obtain ⟨packet, -, h⟩ := bind_eq_ok.mp h
      exact .inr ⟨_, (Prod.mk.inj (Except.ok.inj h)).1.symm⟩
    | _ => exact .inl (by simp [← (Prod.mk.inj (Except.ok.inj h)).1])

theorem length_newIncomingConnection (p : NewIncomingConnection) : p.write.length ≤ 116 := by
  have haddress : p.serverAddress.write.length ≤ 29 := by
    cases p.serverAddress <;> simp [SocketAddr.write, writeU8, writeU16, writeU32]
  have hlist : (List.replicate 10 (SocketAddr.v4 0 0).write).flatten.length = 70 := by decide
  simp only [NewIncomingConnection.write, List.length_cons, List.length_append, hlist, writeI64,
    Datatype.length_writeUInt]
  omega

theorem insertPayload_charged {q q' : SendQ} {m : Message} (h : q.insertPayload B m = .ok q') :
    ∃ required, q.requiredBytes m.reliability m.payload.length = .ok required ∧
      q'.bufferedBytes = q.bufferedBytes + required ∧ q'.mtu = q.mtu := by
  have hmtu : q'.mtu = q.mtu := congrArg Given.mtu (insertPayload_given h)
  obtain ⟨required, limit, pushed, hrequired, -, -, hpush, rfl⟩ := insertPayload_ok h
  refine ⟨required, hrequired, ?_, hmtu⟩
  show pushed.bufferedBytes + required = _
  rw [pushMessage_bytes hpush]

/-- The ping after the end of the handshake fits beside it, as long as a frame takes nine bytes. -/
theorem ping_fits {q q' : SendQ} (hmtu : 69 ≤ (q.mtu : ℕ)) (hbytes : q.bufferedBytes = 0)
    (p : NewIncomingConnection) (stamp : Int64)
    (h : q.insertPayload B (message .reliableOrdered p.write) = .ok q') :
    ∃ q'', q'.insertPayload B (message .unreliable (ConnectedPing.write ⟨stamp⟩)) = .ok q'' := by
  obtain ⟨required, hrequired, hcharged, hmtu'⟩ := insertPayload_charged h
  obtain ⟨hpos, -, -, hvalue⟩ := requiredBytes_eq_ok.mp hrequired
  have hlength : (message .reliableOrdered p.write).payload.length ≤ 116 :=
    length_newIncomingConnection p
  have hcount : SendQ.frameCount .reliableOrdered
      (message .reliableOrdered p.write).payload.length ((q.mtu : ℕ) - 60) ≤ 116 := by
    unfold SendQ.frameCount
    split_ifs
    · exact Nat.div_le_of_le_mul (by omega)
    · omega
  have hping : (ConnectedPing.write ⟨stamp⟩).length = 9 := by
    simp [ConnectedPing.write, writeI64]
  have hsmall : q'.requiredBytes .unreliable 9 = .ok (frameBudget + 9) := by
    refine requiredBytes_eq_ok.mpr ⟨by rw [hmtu']; exact hpos, ?_, ?_, ?_⟩
    · simp [SendQ.frameCount, Reassembly.maxFragments]
    · rw [frameBudget_eq]
      decide
    · simp [SendQ.frameCount]
  have hroom : q'.bufferedBytes + (frameBudget + 9) ≤ maxBufferedBytes := by
    have hmax : maxBufferedBytes = 67108864 := by decide
    have hcharge : required ≤ 116 * 128 + 116 := by
      rw [hvalue, frameBudget_eq]
      exact add_le_add (Nat.mul_le_mul_right _ hcount) hlength
    rw [frameBudget_eq, hcharged, hbytes, hmax]
    omega
  obtain ⟨q'', hq'', -⟩ := insertPayload_of_room (B := B)
    (m := message .unreliable (ConnectedPing.write ⟨stamp⟩)) (q := q')
    (by rw [show (message .unreliable (ConnectedPing.write ⟨stamp⟩)).payload.length = 9 from hping]
        exact hsmall) hroom
    (.inr (by
      rw [show (message .unreliable (ConnectedPing.write ⟨stamp⟩)).payload.length = 9 from hping,
        hmtu']
      omega))
  exact ⟨q'', hq''⟩

theorem handle_sentPacket (e : Endpoint) (stamp stamp' : Int64) (receiverOpen : Bool) (data : Bytes)
    (r : Run) : (Reply.handle B e stamp stamp' receiverOpen data r).2.queue.sentPacket =
      r.queue.sentPacket := by
  unfold Reply.handle
  split
  · rfl
  · next ms action _ =>
    have hinserted := insertEach_sentPacket (B := B) r ms
    split
    · next hms => rwa [hms] at hinserted
    · next hms => rwa [hms] at hinserted

/-- **A control message that fails leaves an empty queue empty**, as long as a frame takes nine
bytes. -/
theorem Reached.handle_error (h : Reached B mtu r) (hmtu : 69 ≤ (mtu : ℕ))
    (hempty : r.queue.isEmpty = true) {e : Endpoint} {stamp stamp' : Int64} {receiverOpen : Bool}
    {data : Bytes} {error : RaknetError} {send : Run}
    (herror : Reply.handle B e stamp stamp' receiverOpen data r = (.error error, send)) :
    send = r := by
  have hbytes : r.queue.bufferedBytes = 0 := by
    obtain ⟨ops, rfl, -⟩ := h
    rw [bytes_held, isEmpty_held hempty]
    rfl
  unfold Reply.handle at herror
  cases hreplies : replies e stamp stamp' receiverOpen data with
  | error err =>
    rw [hreplies] at herror
    exact (Prod.mk.inj herror).2.symm
  | ok reply =>
    obtain ⟨ms, action⟩ := reply
    rw [hreplies] at herror
    simp only at herror
    rcases hms : Reply.insertEach B r ms with ⟨result, send'⟩
    rw [hms] at herror
    cases result with
    | ok _ => cases (Prod.mk.inj herror).1
    | error err =>
      obtain rfl : send' = send := (Prod.mk.inj herror).2
      have hfirst : ∀ {m : Message} {rest : List Message} {err : RaknetError},
          ms = m :: rest → r.queue.insertPayload B m = .error err → send' = r := by
        rintro m rest err rfl hm
        rw [insertEach_cons_error hm] at hms
        exact (Prod.mk.inj hms).2.symm
      cases ms with
      | nil => exact (Prod.mk.inj hms).2.symm
      | cons m rest =>
        cases hm : r.queue.insertPayload B m with
        | error err => exact hfirst rfl hm
        | ok queue =>
          rw [insertEach_cons_ok hm] at hms
          rcases replies_cases hreplies with hlength | ⟨p, hp⟩
          · -- there was one insertion, and it succeeded
            obtain rfl : rest = [] := by simpa using hlength
            cases (Prod.mk.inj hms).1
          · -- the second one cannot fail
            obtain ⟨rfl, rfl⟩ := List.cons.inj hp
            obtain ⟨queue', hping⟩ := ping_fits (h.mtu_eq ▸ hmtu) hbytes p stamp' hm
            rw [insertEach_cons_ok (r := { r with queue }) hping] at hms
            cases (Prod.mk.inj hms).1

end queue

/-! ### The connection -/

section connection

variable {ν : Type} [Notification ν] {B : Build} {mtu : Fin 65536} {s : State ν}

/-- The send queue and the clock of a connection. -/
structure Sound (B : Build) (mtu : Fin 65536) (s : State ν) : Prop where
  send : Reached B mtu s.send
  clock : 0 ≤ s.clock

theorem Sound.congr {s' : State ν} (h : Sound B mtu s) (hsend : s'.send = s.send)
    (hclock : s'.clock = s.clock) : Sound B mtu s' :=
  ⟨hsend ▸ h.send, hclock ▸ h.clock⟩

theorem Sound.release (h : Sound B mtu s) (owner : Owner) : Sound B mtu (s.release owner) := by
  cases owner <;> exact h.congr rfl rfl

theorem Sound.published (h : Sound B mtu s) (owner : Owner) : Sound B mtu (s.published owner) := by
  unfold State.published
  split_ifs
  · exact h.congr rfl rfl
  · exact h.release owner

theorem Sound.enter (h : Sound B mtu s) (owner : Owner) : Sound B mtu (s.enter B owner) := by
  unfold State.enter
  split_ifs
  · exact h.congr rfl rfl
  · exact h.release owner

theorem Sound.received (h : Sound B mtu s) (invalid : Bool) : Sound B mtu (s.received invalid) := by
  unfold State.received
  split_ifs <;> exact h.congr rfl rfl

theorem Sound.publish (h : Sound B mtu s) : Sound B mtu s.publish := by
  unfold State.publish
  split
  · exact h
  · exact h.congr rfl rfl
  · exact h.congr rfl rfl
  · split_ifs
    · exact h.congr rfl rfl
    · exact h.published _
  · exact h.congr rfl rfl
  · split_ifs
    · exact h.congr rfl rfl
    · exact h.published _
  · exact (h.congr rfl rfl : Sound B mtu { s with wakeup := notifyOne s.wakeup }).published _
  · exact (h.congr rfl rfl : Sound B mtu { s with wakeup := notifyOne s.wakeup }).release _

theorem Sound.flush (h : Sound B mtu s) :
    Sound B mtu { s with send := s.send.step B (.flush s.clock) } :=
  ⟨h.send.flush h.clock, h.clock⟩

theorem Sound.tick (h : Sound B mtu s) : Sound B mtu (s.tick B) := by
  unfold State.tick
  split
  case h_13 =>
    split_ifs
    · exact h.congr rfl rfl
    · exact h
  case h_14 =>
    split_ifs
    · refine Sound.enter ?_ _
      exact h.flush.congr rfl rfl
    · exact h
  case h_17 => split_ifs <;> exact h.congr rfl rfl
  all_goals exact h.congr rfl rfl

theorem Sound.work (h : Sound B mtu s) : Sound B mtu (s.work B) := by
  unfold State.work
  split
  · split_ifs
    · exact h.congr rfl rfl
    · exact h.received _
  · exact (h.congr rfl rfl : Sound B mtu { s with wakeup := notifyOne s.wakeup }).received _
  · split_ifs
    · refine Sound.enter ?_ _
      exact h.flush.congr rfl rfl
    · exact h
  · split_ifs <;> exact h.congr rfl rfl
  · exact h.congr rfl rfl
  · exact h

theorem Sound.call (h : Sound B mtu s) (i : ℕ) : Sound B mtu (s.call i) := by
  unfold State.call
  split
  · exact h
  · split_ifs <;> exact h.congr rfl rfl
  · split_ifs <;> exact h.congr rfl rfl
  all_goals exact h.congr rfl rfl

theorem Sound.feedback (h : Sound B mtu s) (op : Op) (hvalid : op.ValidOptions)
    (hop : ∀ tick, op ≠ .flush tick) (now : ℤ) : Sound B mtu (s.feedback B op now) := by
  unfold State.feedback
  split
  · next hguard =>
    simp only [Bool.and_eq_true, decide_eq_true_eq] at hguard
    have htick : 0 ≤ if B.recoveryPolicy then s.clock else now := by
      split_ifs
      · exact h.clock
      · exact hguard.1.2
    refine Sound.enter ?_ _
    exact ⟨(h.send.step op hvalid fun tick he => absurd he (hop tick)).flush htick, h.clock⟩
  · exact h

theorem Sound.frames (h : Sound B mtu s) (frames : List FrameSetPacket) (takeAck : Bool) :
    Sound B mtu (s.frames frames takeAck) := by
  unfold State.frames
  simp only
  split_ifs
  · exact h.congr rfl rfl
  · refine Sound.received ?_ _
    exact h.congr rfl rfl
  · exact h.congr rfl rfl
  · refine Sound.received ?_ _
    exact h.congr rfl rfl
  · exact h

theorem Reached.handle {r : Run} (h : Reached B mtu r) (e : Endpoint) (stamp stamp' : Int64)
    (receiverOpen : Bool) (data : Bytes) :
    Reached B mtu (Reply.handle B e stamp stamp' receiverOpen data r).2 := by
  unfold Reply.handle
  split
  · exact h
  · next ms action _ =>
    have hinserted := h.insertEach ms
    split
    · next hms => rwa [hms] at hinserted
    · next hms => rwa [hms] at hinserted

theorem Sound.handle (h : Sound B mtu s) (e : Endpoint) (stamp stamp' : Int64) (receiverOpen : Bool)
    (data : Bytes) : Sound B mtu (s.handle B e stamp stamp' receiverOpen data) := by
  have hsend := h.send.handle e stamp stamp' receiverOpen data
  unfold State.handle
  split_ifs
  · split
    all_goals
      next he =>
        rw [he] at hsend
        exact ⟨hsend, h.clock⟩
  · exact h

theorem Sound.payload (h : Sound B mtu s) (m : Message) : Sound B mtu (s.payload B m) := by
  unfold State.payload
  split_ifs
  · split
    · split
      · exact h
      · refine Sound.enter ?_ _
        exact ⟨(h.send.insert m).flush h.clock, h.clock⟩
    · exact h
  · exact h

theorem Sound.batch (h : Sound B mtu s) (channel : Fin 256) (owned : Bool)
    (payloads : List Bytes) : Sound B mtu (s.batch B channel owned payloads) := by
  have hinserted := (h.send.step .enableCoalescing trivial fun _ he => by cases he).insertEach
    (State.messages channel owned payloads)
  unfold State.batch
  split_ifs
  · split
    · split
      · next he =>
        rw [he] at hinserted
        exact ⟨hinserted, h.clock⟩
      · next he =>
        rw [he] at hinserted
        refine Sound.enter ?_ _
        exact ⟨hinserted.flush h.clock, h.clock⟩
    · exact h
  · exact h

theorem Sound.step (h : Sound B mtu s) (e : Endpoint) (a : Action) :
    Sound B mtu (s.step B e a) := by
  cases a with
  | elapse millis => exact ⟨h.send, by have := h.clock; show 0 ≤ s.clock + millis; omega⟩
  | task => exact h.tick
  | timer =>
    show Sound B mtu s.timer
    unfold State.timer
    split
    · split_ifs <;> exact h.congr rfl rfl
    · exact h
  | notified =>
    show Sound B mtu s.notified
    unfold State.notified
    split
    · split_ifs <;> exact h.congr rfl rfl
    · exact h
  | closed =>
    show Sound B mtu s.closed
    unfold State.closed
    split
    · split_ifs <;> exact h.congr rfl rfl
    · exact h
  | expired =>
    show Sound B mtu s.expired
    unfold State.expired
    split
    · split_ifs <;> exact h.congr rfl rfl
    · exact h
  | publish => exact h.publish
  | worker => exact h.work
  | caller i => exact h.call i
  | heartbeat =>
    show Sound B mtu (if s.workerFree then { s with lastHeartbeat := s.clock } else s)
    split_ifs <;> exact h.congr rfl rfl
  | ack ranges now =>
    exact h.feedback (.ackRanges ranges now) trivial (fun _ he => by cases he) now
  | nack ranges now =>
    exact h.feedback (.nackRanges ranges now) trivial (fun _ he => by cases he) now
  | frames frames takeAck => exact h.frames frames takeAck
  | handle stamp stamp' receiverOpen data => exact h.handle e stamp stamp' receiverOpen data
  | connect =>
    show Sound B mtu (s.connect B)
    unfold State.connect
    split_ifs
    · refine Sound.enter ?_ _
      exact h.flush.congr rfl rfl
    · exact h
  | payload m => exact h.payload m
  | batch channel owned payloads => exact h.batch channel owned payloads
  | setSendOptions options =>
    show Sound B mtu (s.setSendOptions B options)
    unfold State.setSendOptions
    split_ifs
    · split
      · exact h
      · refine ⟨h.send.step (.setSendOptions options) options.2 ?_, h.clock⟩
        exact fun _ he => by cases he
    · exact h
  | setRecoveryOptions options =>
    show Sound B mtu (s.setRecoveryOptions B options)
    unfold State.setRecoveryOptions
    split_ifs
    · refine ⟨h.send.step (.setRecoveryOptions options s.clock) trivial ?_, h.clock⟩
      exact fun _ he => by cases he
    · exact h
  | setIdleMaintenance enabled =>
    show Sound B mtu (s.setIdleMaintenance enabled)
    unfold State.setIdleMaintenance
    split_ifs <;> exact h.congr rfl rfl
  | close =>
    show Sound B mtu (s.close B)
    unfold State.close
    split_ifs
    · split
      · exact h
      · exact ⟨h.send.insert _, h.clock⟩
    · exact h
  | shut => exact h.congr rfl rfl

theorem sound_new (B : Build) (mtu : Fin 65536) (request : Option Bytes) :
    Sound B mtu (.new B mtu request : State ν) := by
  refine ⟨?_, le_refl _⟩
  cases request with
  | none => exact reached_new B mtu
  | some buf => exact (reached_new B mtu).insert _

/-- **The queue of a connection is a queue of a run.** -/
theorem sound_run (B : Build) (e : Endpoint) (mtu : Fin 65536) (request : Option Bytes)
    (actions : List Action) : Sound B mtu (runConnection ν B e mtu request actions) :=
  Lib.Machine.run_invariant (sound_new B mtu request) (fun _ a h => h.step e a) actions

end connection

end RustRaknet.Maintenance
