import RustRaknet.Send.Refinement

/-! # What the callers give a queue

Only insertions change the log of a queue, and only `set_send_options` changes its options and with
them the choice between the two flush loops (`step_given`). A policy that takes the original loop
allows at least 64 full datagrams in a burst (`legacy_room`). -/

namespace RustRaknet.Send

open RustRaknet.Frame RustRaknet.Lib.Result

/-- What the callers gave the queue: its MTU, its messages and, once they are set, its options with
the choice of the loop. -/
structure Given where
  mtu : Fin 65536
  log : List Message
  options : Option (SendOptions × Bool)

/-- What the callers gave the queue. -/
def SendQ.given (q : SendQ) : Given :=
  ⟨q.mtu, q.log, q.scheduler.map fun s => (s.options, s.useLegacy)⟩

/-! ### Feedback -/

/-- The part of a queue that feedback does not touch: what waits, and under which limits. -/
structure Backlog where
  mtu : Fin 65536
  log : List Message
  packets : List QueuedFrame
  scheduler : Option SendScheduler

/-- The part of the queue that feedback does not touch. -/
def SendQ.backlog (q : SendQ) : Backlog := ⟨q.mtu, q.log, q.packets, q.scheduler⟩

theorem given_of_backlog {q q' : SendQ} (h : q'.backlog = q.backlog) : q'.given = q.given := by
  have hmtu : q'.mtu = q.mtu := congrArg Backlog.mtu h
  have hlog : q'.log = q.log := congrArg Backlog.log h
  have hscheduler : q'.scheduler = q.scheduler := congrArg Backlog.scheduler h
  simp [SendQ.given, hmtu, hlog, hscheduler]

section feedback

variable {B : Build}

theorem progress_backlog (q : SendQ) (retired sampledRtt : Bool) (tick : ℤ) :
    (q.progress B retired sampledRtt tick).backlog = q.backlog := by
  obtain ⟨_, _, _, he, -⟩ := progress_eq B q retired sampledRtt tick
  rw [he]
  rfl

theorem ackRule_backlog : AckRule B fun q q' => q'.backlog = q.backlog where
  refl _ := rfl
  trans h h' := h'.trans h
  reissue _ _ _ := rfl
  advanceAck _ _ := rfl
  progress := progress_backlog
  ungroup _ := rfl
  release _ _ := rfl
  updateRto _ _ := rfl
  setLatency _ _ _ := rfl

end feedback

/-! ### Insertion -/

section insertion

variable {B : Build} {m : Message} {n : ℕ}

theorem pushUnreliable_given (q : SendQ) (frame : FrameSetPacket) :
    (q.pushUnreliable B frame).given = q.given := by
  unfold SendQ.pushUnreliable
  simp only
  split_ifs
  · cases hs : q.scheduler with
    | none | some s => simp [SendQ.given, hs]
  · rfl

theorem pushMessage_given {q q' : SendQ} (h : q.pushMessage B m n = .ok q') :
    q'.given = q.given :=
  (PushRule.of_key SendQ.given pushUnreliable_given (fun _ _ => rfl) (fun _ _ => rfl)
    (fun _ _ => rfl) (fun _ _ => rfl) fun _ => rfl).message h

theorem insertPayload_given {q q' : SendQ} (h : q.insertPayload B m = .ok q') :
    q'.given = { q.given with log := q.log ++ [m] } := by
  obtain ⟨reserved, limit, pushed, -, -, -, hpush, rfl⟩ := insertPayload_ok h
  have hgiven := pushMessage_given hpush
  have hlog : pushed.log = q.log := congrArg Given.log hgiven
  have hadd : (pushed.book B m reserved).given =
      { pushed.given with log := pushed.log ++ [m] } := rfl
  rw [hadd, hgiven, hlog]

end insertion

/-! ### Flush -/

section flush

variable {B : Build} {tick : ℤ}

theorem given_of_settled {q q' : SendQ} (h : q'.settled = q.settled) : q'.given = q.given :=
  (congrArg SendQ.given h :)

/-- What a number leaves alone: the size of the frame, the burst so far, the flight, the rest of the
queue and what the callers gave. -/
structure Numbering (s : Burst) (f : QueuedFrame) (rest : List QueuedFrame)
    (g : QueuedFrame × Burst) : Prop where
  size : g.1.size = f.size
  output : g.2.output.frames = s.output.frames
  flight : g.2.queue.sentPacket = s.queue.sentPacket
  packets : g.2.queue.packets = rest
  given : g.2.queue.given = s.queue.given

theorem assign_numbering (s : Burst) (packable : Bool) (f : QueuedFrame)
    (rest : List QueuedFrame) : Numbering s f rest ((s.pop rest).assign packable f) := by
  unfold Burst.assign
  split
  · split_ifs
    · exact ⟨rfl, rfl, rfl, rfl, rfl⟩
    · exact ⟨rfl, rfl, rfl, rfl, rfl⟩
  · exact ⟨rfl, rfl, rfl, rfl, rfl⟩

theorem number_numbering (s : Burst) (f : QueuedFrame) (rest : List QueuedFrame) :
    Numbering s f rest (s.number f rest) := by
  unfold Burst.number
  split_ifs
  · exact assign_numbering s f.packable f rest
  · exact ⟨rfl, rfl, rfl, rfl, rfl⟩

theorem Sends.given {probeSequence : Option ℕ} {s s' : Burst} (h : Sends probeSequence tick s s') :
    s'.queue.given = s.queue.given ∧ s'.queue.scheduler.map SendScheduler.persistent =
      s.queue.scheduler.map SendScheduler.persistent := by
  cases h with
  | emitScheduled hs h => simp [SendQ.given, Burst.emitScheduled, hs]
  | turnTo hs hlane => simp [SendQ.given, Burst.schedule, SendQ.schedule, hs]
  | _ => exact ⟨rfl, rfl⟩

theorem sends_given {probeSequence : Option ℕ} {s s' : Burst}
    (h : Relation.ReflTransGen (Sends probeSequence tick) s s') :
    s'.queue.given = s.queue.given ∧ s'.queue.scheduler.map SendScheduler.persistent =
      s.queue.scheduler.map SendScheduler.persistent := by
  induction h with
  | refl => exact ⟨rfl, rfl⟩
  | tail _ hstep ih => exact ⟨hstep.given.1.trans ih.1, hstep.given.2.trans ih.2⟩

theorem prepared_given (q : SendQ) : (q.prepared B tick).given = q.given :=
  given_of_settled (prepared_settled q tick)

/-- The scheduler of a well-formed queue is made to stay: what a flush does after the last turn
changes only the flag for retransmissions. -/
theorem flush_stays {q : SendQ} (hw : Wf B q) (tick : ℤ) :
    ∃ s, Relation.ReflTransGen (Sends (q.prepared B tick).probeReplay tick)
      (q.prepared B tick).burst s ∧
      ∃ retriesPending, q.flush B tick = (s.output, { s.queue with retriesPending }) := by
  obtain ⟨s, hsends, retriesPending, scheduler, hresult, hscheduler⟩ := flush_sends B q tick
  have hpersistent := (sends_given hsends).2
  rw [show (q.prepared B tick).burst.queue.scheduler = q.scheduler from prepared_scheduler q tick]
    at hpersistent
  have hstays : scheduler = s.queue.scheduler := by
    refine hscheduler.resolve_right fun hfalse => ?_
    obtain ⟨sch, hsch, hf⟩ := Option.map_eq_some_iff.mp (hpersistent.symm.trans hfalse)
    exact Bool.false_ne_true (hf.symm.trans (hw.scheduled sch hsch).2.1)
  exact ⟨s, hsends, retriesPending, by rw [hresult, hstays]⟩

theorem flush_given {q : SendQ} (hw : Wf B q) : (q.flush B tick).2.given = q.given := by
  obtain ⟨s, hsends, retriesPending, hresult⟩ := flush_stays hw tick
  rw [hresult]
  exact (sends_given hsends).1.trans (prepared_given q)

end flush

/-! ### Runs -/

/-- An operation that gives the queue nothing. -/
def Op.Silent : Op → Prop
  | .insert _ => False
  | .setSendOptions _ => False
  | _ => True

theorem step_backlog {B : Build} {r : Run} {op : Op} (hop : op.Silent)
    (hflush : ∀ tick, op ≠ .flush tick) : (r.step B op).queue.backlog = r.queue.backlog := by
  cases op with
  | insert m | setSendOptions options => exact hop.elim
  | flush tick => exact absurd rfl (hflush tick)
  | ack sequence tick =>
    exact ackRule_backlog.ack r.queue (fun _ _ => rfl) (fun _ _ _ => rfl) sequence
  | ackRanges ranges tick =>
    exact ackRule_backlog.ackRangesInner r.queue (fun _ _ => rfl) (fun _ _ _ => rfl) _ ranges
  | nack sequence tick => exact (ackRule_backlog (B := B)).nack r.queue sequence
  | nackRanges ranges tick => exact (ackRule_backlog (B := B)).nackRanges r.queue ranges
  | enableCoalescing => rfl
  | setRecoveryOptions options now =>
    exact Run.setRecoveryOptions_cases (fun _ => rfl) rfl

/-- **The other operations leave alone what the callers gave.** -/
theorem step_given {B : Build} {r : Run} (hw : Wf B r.queue) {op : Op} (hop : op.Silent) :
    (r.step B op).queue.given = r.queue.given := by
  cases op with
  | flush tick => exact flush_given hw
  | _ => exact given_of_backlog (step_backlog hop (by simp))

theorem setSendOptions_given {q q' : SendQ} {options : SendOptions}
    (h : q.setSendOptions options = .ok q') :
    ∃ useLegacy, q'.given = ⟨q.mtu, q.log, some (options, useLegacy)⟩ ∧
      (useLegacy = true → (q.mtu : ℕ) * maxInFlightPackets ≤ options.flushBytes) := by
  unfold SendQ.setSendOptions at h
  rw [guard_eq_ok] at h
  rw [← Except.ok.inj h.2]
  refine ⟨options.inFlightFrames == SendOptions.default.inFlightFrames &&
    options.inFlightBytes == SendOptions.default.inFlightBytes &&
    options.flushBytes == SendOptions.default.flushBytes &&
    decide ((q.mtu : ℕ) * maxInFlightPackets ≤ options.flushBytes), ?_, fun hl => ?_⟩
  · unfold SendQ.ensureScheduler
    cases hs : q.scheduler with
    | none => simp [SendQ.given, SendQ.configure]
    | some s => simp [SendQ.given, SendQ.configure, hs]
  · simp only [Bool.and_eq_true, decide_eq_true_eq] at hl
    exact hl.2

/-- **What holds of every policy that is accepted** holds of the policy of a run. -/
theorem policy_run (B : Build) (mtu : Fin 65536) {P : SendOptions × Bool → Prop}
    (hset : ∀ {q q' : SendQ} {options : SendOptions}, q.mtu = mtu →
      q.setSendOptions options = .ok q' → ∀ o, q'.given.options = some o → P o) (ops : List Op) :
    (run B mtu ops).queue.mtu = mtu ∧
      ∀ o, (run B mtu ops).queue.given.options = some o → P o := by
  induction ops using List.reverseRecOn with
  | nil => exact ⟨rfl, fun o h => (nomatch h)⟩
  | append_singleton ops op ih =>
    have hw := (run_steps B mtu ops).1
    rw [run_append]
    generalize run B mtu ops = r at ih hw ⊢
    have hsame : ∀ {q : SendQ}, q.given.mtu = r.queue.given.mtu →
        q.given.options = r.queue.given.options →
        q.mtu = mtu ∧ ∀ o, q.given.options = some o → P o :=
      fun hmtu hoptions => ⟨hmtu.trans ih.1, by rw [hoptions]; exact ih.2⟩
    have hsilent : op.Silent → (r.step B op).queue.mtu = mtu ∧
        ∀ o, (r.step B op).queue.given.options = some o → P o := fun hop =>
      hsame (congrArg Given.mtu (step_given hw hop)) (congrArg Given.options (step_given hw hop))
    cases op with
    | insert m =>
      refine Run.insert_cases (fun q hq => ?_) ih
      have hgiven := insertPayload_given hq
      exact hsame (by rw [hgiven]) (by rw [hgiven])
    | setSendOptions options =>
      refine Run.setSendOptions_cases (fun q _ hq => ?_) ih
      obtain ⟨useLegacy, hgiven, -⟩ := setSendOptions_given hq
      exact ⟨(congrArg Given.mtu hgiven).trans ih.1, hset ih.1 hq⟩
    | _ => exact hsilent trivial

/-- A policy that takes the original loop has room for 64 full datagrams in a burst. -/
def Roomy (mtu : Fin 65536) (q : SendQ) : Prop :=
  q.mtu = mtu ∧ ∀ options, q.given.options = some (options, true) →
    (mtu : ℕ) * maxInFlightPackets ≤ options.flushBytes

/-- **The original loop has room for 64 full datagrams**, in every run. -/
theorem legacy_room (B : Build) (mtu : Fin 65536) (ops : List Op) :
    Roomy mtu (run B mtu ops).queue := by
  obtain ⟨hmtu, hpolicy⟩ := policy_run B mtu
    (P := fun o => o.2 = true → (mtu : ℕ) * maxInFlightPackets ≤ o.1.flushBytes)
    (fun {q q' options} hq hset o ho => by
      obtain ⟨useLegacy, hgiven, hroom⟩ := setSendOptions_given hset
      rw [hgiven] at ho
      obtain rfl := Option.some.inj ho
      exact hq ▸ hroom) ops
  exact ⟨hmtu, fun options ho => hpolicy _ ho rfl⟩

end RustRaknet.Send
