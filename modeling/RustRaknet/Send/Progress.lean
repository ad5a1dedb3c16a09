import RustRaknet.Send.Batch
import RustRaknet.Send.Rotation

/-! # Progress

A queue that is given no more messages holds fewer and fewer frames (`held_step`), so an empty queue
stays empty. A flush that finds nothing in flight sends at least one of the frames that wait
(`flush_progress`), whichever loop it takes: the limits of the flight and of the burst take any one
frame. So as many such flushes as there are frames drain the queue (`queue_drains`). -/

namespace RustRaknet.Send

open RustRaknet.Frame RustRaknet.Lib.Result Ledger

/-- The operation gives the queue a message. -/
def Op.isInsert : Op → Bool
  | .insert _ => true
  | _ => false

/-- The operation is a flush. -/
def Op.isFlush : Op → Bool
  | .flush _ => true
  | _ => false

/-! ### Frames only leave -/

section leave

variable {B : Build} {mtu : Fin 65536} {ops : List Op}

theorem gone_append {r r' : Run} {retired : List Retired} {emitted : List QueuedFrame}
    (hretired : r'.retired = r.retired ++ retired) (hemitted : r'.emitted = r.emitted ++ emitted) :
    r.ledger.gone ≤ r'.ledger.gone := by
  simp only [Ledger.gone, Run.ledger, hretired, hemitted, List.map_append, bodies_append]
  exact add_le_add (Multiset.le_add_right _ _) (Multiset.le_add_right _ _)

/-- A frame that has left does not come back. -/
theorem step_gone (r : Run) (op : Op) : r.ledger.gone ≤ (r.step B op).ledger.gone := by
  have hsame : ∀ {r' : Run}, r'.retired = r.retired → r'.emitted = r.emitted →
      r.ledger.gone ≤ r'.ledger.gone := fun hretired hemitted =>
    gone_append (hretired.trans (List.append_nil _).symm) (hemitted.trans (List.append_nil _).symm)
  cases op with
  | insert m => exact Run.insert_cases (fun _ _ => hsame rfl rfl) (le_refl _)
  | flush tick => exact gone_append (List.append_nil _).symm rfl
  | ack sequence tick | ackRanges ranges tick => exact gone_append rfl (List.append_nil _).symm
  | nack | nackRanges | enableCoalescing => exact hsame rfl rfl
  | setSendOptions options =>
    exact Run.setSendOptions_cases (fun _ _ _ => hsame rfl rfl) (le_refl _)
  | setRecoveryOptions options now =>
    exact Run.setRecoveryOptions_cases (fun _ => hsame rfl rfl) (le_refl _)

theorem step_log {r : Run} (hw : Wf B r.queue) {op : Op} (hop : op.isInsert = false) :
    (r.step B op).queue.log = r.queue.log := by
  have hsilent : op.Silent → (r.step B op).queue.log = r.queue.log := fun hop =>
    congrArg Given.log (step_given hw hop)
  cases op with
  | insert m => cases hop
  | setSendOptions options =>
    refine Run.setSendOptions_cases (fun q _ hq => ?_) rfl
    obtain ⟨useLegacy, hgiven, -⟩ := setSendOptions_given hq
    exact congrArg Given.log hgiven
  | _ => exact hsilent trivial

/-- **Without insertions a queue gets no fuller.** -/
theorem held_step (B : Build) (mtu : Fin 65536) (ops : List Op) {op : Op}
    (hop : op.isInsert = false) :
    (run B mtu (ops ++ [op])).ledger.held ≤ (run B mtu ops).ledger.held := by
  have hbefore : Conserved _ := (conserved_run B mtu ops).2.1
  have hafter : Conserved _ := (conserved_run B mtu (ops ++ [op])).2.1
  unfold Ledger.Conserved at hbefore hafter
  rw [run_mtu] at hbefore hafter
  have hlog : (run B mtu (ops ++ [op])).ledger.log = (run B mtu ops).ledger.log := by
    rw [run_append]
    exact step_log (run_steps B mtu ops).1 hop
  have hgone : (run B mtu ops).ledger.gone ≤ (run B mtu (ops ++ [op])).ledger.gone := by
    rw [run_append]
    exact step_gone _ op
  rw [hlog, ← hbefore] at hafter
  refine le_of_add_le_add_right (a := (run B mtu ops).ledger.gone) ?_
  rw [← hafter]
  exact add_le_add_right hgone _

theorem isEmpty_iff_held {q : SendQ} : q.isEmpty = true ↔ q.held = [] := by
  refine ⟨isEmpty_held, fun h => ?_⟩
  simp only [SendQ.held, List.append_eq_nil_iff, List.map_eq_nil_iff] at h
  obtain ⟨⟨hpackets, hflight⟩, hunreliable⟩ := h
  cases hs : q.scheduler with
  | none => simp [SendQ.isEmpty, hpackets, hflight, hs]
  | some s => simpa [SendQ.isEmpty, hpackets, hflight, hs] using hunreliable

theorem isEmpty_iff_ledger {r : Run} : r.queue.isEmpty = true ↔ r.ledger.held = 0 := by
  rw [isEmpty_iff_held, held_bodies]
  unfold bodies
  rw [Multiset.coe_eq_zero, List.map_eq_nil_iff]

theorem isEmpty_step {op : Op} (hop : op.isInsert = false)
    (h : (run B mtu ops).queue.isEmpty = true) :
    ((run B mtu ops).step B op).queue.isEmpty = true := by
  rw [← run_append, isEmpty_iff_ledger]
  have hle := held_step B mtu ops hop
  rw [isEmpty_iff_ledger.mp h] at hle
  exact Multiset.le_zero.mp hle

end leave

/-! ### The frames that wait -/

/-- The number of frames that were never sent. -/
def SendQ.waiting (q : SendQ) : ℕ :=
  q.packets.length + q.scheduler.elim 0 fun s => s.unreliable.length

theorem isEmpty_of_waiting {q : SendQ} (hwaiting : q.waiting = 0) (hflight : q.sentPacket = []) :
    q.isEmpty = true := by
  obtain ⟨hpackets, hunreliable⟩ := Nat.add_eq_zero_iff.mp hwaiting
  rw [List.length_eq_zero_iff] at hpackets
  cases hs : q.scheduler with
  | none => simp [SendQ.isEmpty, hpackets, hflight, hs]
  | some s =>
    rw [hs] at hunreliable
    simpa [SendQ.isEmpty, hpackets, hflight, hs] using hunreliable

theorem waiting_of_backlog {q q' : SendQ} (h : q'.backlog = q.backlog) :
    q'.waiting = q.waiting := by
  have hpackets : q'.packets = q.packets := congrArg Backlog.packets h
  have hscheduler : q'.scheduler = q.scheduler := congrArg Backlog.scheduler h
  simp [SendQ.waiting, hpackets, hscheduler]

section turns

variable {probeSequence : Option ℕ} {tick : ℤ} {s s' : Burst} {f : QueuedFrame}
  {rest : List QueuedFrame}

/-- Every frame of the output that does not come from the flight no longer waits. -/
structure Burst.Pays (s s' : Burst) : Prop where
  waiting : s'.queue.waiting ≤ s.queue.waiting
  output : s.output.frames.length ≤ s'.output.frames.length
  sent : s.AllSent → s'.AllSent ∧ s'.output.frames.length + s'.queue.waiting =
    s.output.frames.length + s.queue.waiting

theorem Burst.Pays.trans {s'' : Burst} (h : s.Pays s') (h' : s'.Pays s'') : s.Pays s'' :=
  ⟨h'.waiting.trans h.waiting, h.output.trans h'.output, fun hall =>
    ⟨(h'.sent (h.sent hall).1).1, (h'.sent (h.sent hall).1).2.trans (h.sent hall).2⟩⟩

theorem pays_one (hwaiting : s.queue.waiting = s'.queue.waiting + 1)
    (houtput : s'.output.frames.length = s.output.frames.length + 1)
    (hsent : s.AllSent → s'.AllSent) : s.Pays s' :=
  ⟨by omega, by omega, fun hall => ⟨hsent hall, by omega⟩⟩

theorem launch_pays {g : QueuedFrame × Burst} (h : s.queue.packets = f :: rest)
    (hnumber : Numbering s f rest g) (hscheduler : g.2.queue.scheduler = s.queue.scheduler) :
    s.Pays (g.2.launch tick g.1) := by
  refine pays_one ?_ ?_ fun hall p hp => ?_
  · simp only [SendQ.waiting, Burst.launch, hnumber.packets, hscheduler, h, List.length_cons]
    omega
  · simp [Burst.launch, OutgoingFrames.push, hnumber.output]
  · simp only [Burst.launch, hnumber.flight, List.mem_append, List.mem_singleton] at hp
    rcases hp with hp | rfl
    · exact hall p hp
    · rfl

/-- **What a turn sends**: a frame that waits or, if there is one, a frame of the flight. -/
theorem Sends.pays (h : Sends probeSequence tick s s') : s.Pays s' := by
  cases h with
  | @resend i p h hp =>
    refine ⟨le_refl _, by simp [Burst.closeGroup, Burst.resend, OutgoingFrames.push],
      fun hall => ?_⟩
    exact absurd (hall p (List.mem_of_getElem? h)) (by simp [hp])
  | start h hf hpackable | join h hf hx hcoalesce hpackable hframes hbytes | fresh h hf hcoalesce =>
    exact launch_pays h ⟨rfl, rfl, rfl, rfl, rfl⟩ rfl
  | @emit f rest group h hf hgroup =>
    refine pays_one ?_ ?_ fun hall => hall
    · simp only [SendQ.waiting, Burst.emit, Burst.setGroup, Burst.fresh, Burst.pop, SendQ.allocate,
        h, List.length_cons]
      omega
    · simp [Burst.emit, Burst.setGroup, Burst.fresh, Burst.pop, OutgoingFrames.push]
  | @emitScheduled scheduler f rest hs h =>
    refine pays_one ?_ ?_ fun hall => hall
    · simp only [SendQ.waiting, Burst.emitScheduled, hs, Option.elim_some, h, List.length_cons]
      omega
    · simp [Burst.emitScheduled, OutgoingFrames.push]
  | @rotate f rest h hf =>
    have hsame : (s.pop (rest ++ [f])).queue.waiting = s.queue.waiting := by
      simp [SendQ.waiting, Burst.pop, h]
    exact ⟨hsame.le, le_refl _, fun hall => ⟨hall, by rw [hsame]; rfl⟩⟩
  | @turnTo scheduler lane hs hlane =>
    have hsame : (s.schedule { scheduler with nextLane := lane }).queue.waiting =
        s.queue.waiting := by
      simp [SendQ.waiting, Burst.schedule, SendQ.schedule, hs]
    exact ⟨hsame.le, le_refl _, fun hall => ⟨hall, by rw [hsame]; rfl⟩⟩
  | clear => exact ⟨le_refl _, le_refl _, fun hall => ⟨hall, rfl⟩⟩

theorem sends_pays (h : Relation.ReflTransGen (Sends probeSequence tick) s s') : s.Pays s' := by
  induction h with
  | refl => exact ⟨le_refl _, le_refl _, fun hall => ⟨hall, rfl⟩⟩
  | tail _ hstep ih => exact ih.trans hstep.pays

end turns

section flush

variable {B : Build} {tick : ℤ} {q : SendQ}

theorem prepared_waiting (q : SendQ) (tick : ℤ) :
    (q.prepared B tick).burst.queue.waiting = q.waiting :=
  (congrArg SendQ.waiting (prepared_settled q tick) :)

theorem prepared_nil (h : q.sentPacket = []) (tick : ℤ) : (q.prepared B tick).sentPacket = [] := by
  rw [← List.length_eq_zero_iff, prepared_length, h]
  rfl

/-- A flush takes no frame back, and one that finds nothing in flight sends only frames that
wait. -/
theorem flush_waiting (hw : Wf B q) (tick : ℤ) :
    (q.flush B tick).2.waiting ≤ q.waiting ∧ (q.sentPacket = [] →
      (q.flush B tick).1.frames.length + (q.flush B tick).2.waiting = q.waiting) := by
  obtain ⟨s, hsends, retriesPending, hresult⟩ := flush_stays hw tick
  have hpays := sends_pays hsends
  have hwaiting : (q.flush B tick).2.waiting = s.queue.waiting := by
    rw [hresult]
    rfl
  have hstart := prepared_waiting (B := B) q tick
  refine ⟨?_, fun hflight => ?_⟩
  · rw [hwaiting, ← hstart]
    exact hpays.waiting
  · have hsent : (q.prepared B tick).burst.AllSent := fun p hp => by
      rw [show (q.prepared B tick).burst.queue.sentPacket = [] from prepared_nil hflight tick] at hp
      exact (List.not_mem_nil hp).elim
    have htotal := (hpays.sent hsent).2
    rw [hstart] at htotal
    rw [hwaiting, hresult, htotal]
    exact Nat.zero_add _

end flush

/-- Without insertions no frame begins to wait. -/
theorem waiting_step {B : Build} {r : Run} (hw : Wf B r.queue) {op : Op}
    (hop : op.isInsert = false) : (r.step B op).queue.waiting ≤ r.queue.waiting := by
  cases op with
  | insert m => cases hop
  | flush tick => exact (flush_waiting hw tick).1
  | setSendOptions options =>
    refine Run.setSendOptions_cases (fun q _ hq => ?_) (le_refl _)
    unfold SendQ.setSendOptions at hq
    obtain ⟨-, hq⟩ := guard_eq_ok.mp hq
    rw [← Except.ok.inj hq]
    unfold SendQ.ensureScheduler
    cases hs : r.queue.scheduler with
    | some s => simp [SendQ.waiting, SendQ.configure, hs]
    | none =>
      -- the unreliable frames move over to the new scheduler
      have hsplit := List.length_eq_length_filter_add (l := r.queue.packets) QueuedFrame.isReliable
      simp only [SendQ.waiting, SendQ.configure, hs, Option.map_some, Option.elim_some,
        Option.elim_none]
      omega
  | _ => exact le_of_eq (waiting_of_backlog (step_backlog trivial (by simp)))

/-! ### A flush that finds nothing in flight -/

theorem SendOptions.Valid.frames {o : SendOptions} (h : o.Valid) : 1 ≤ o.inFlightFrames := by
  induction h with
  | default => decide
  | inFlight _ ho ih =>
    obtain ⟨hlimits, ho⟩ := guard_eq_ok.mp ho
    rw [← Except.ok.inj ho]
    simp only
    omega
  | queue _ ho ih | flush _ ho ih =>
    obtain ⟨-, ho⟩ := guard_eq_ok.mp ho
    exact Except.ok.inj ho ▸ ih

section progress

variable {B : Build} {mtu : Fin 65536} {ops : List Op} {s : SendScheduler}

/-- The original loop sends its first frame. -/
theorem sendLoop_progress {b : Burst} (tick : ℤ) (hflight : b.queue.sentPacket = [])
    (hpackets : b.queue.packets ≠ []) :
    0 < (b.sendLoop tick b.queue.packets.length).output.frames.length := by
  obtain ⟨f, rest, hcons⟩ := List.exists_cons_of_ne_nil hpackets
  have hroom : ¬ maxInFlightPackets ≤ b.queue.sentPacket.length := by
    rw [hflight]
    decide
  have hone : ∃ b', b.sendOne tick = some b' ∧ 0 < b'.output.frames.length := by
    have hstop : ¬ (maxInFlightPackets ≤ b.queue.sentPacket.length ∧
        b.queue.queuedUnreliable = 0) := fun h => hroom h.1
    unfold Burst.sendOne
    rw [if_neg hstop, hcons]
    simp only [hroom, decide_false, Bool.and_false, Bool.false_eq_true, if_false]
    refine ⟨_, rfl, ?_⟩
    split_ifs <;> simp [Burst.launch, Burst.emit, OutgoingFrames.push]
  obtain ⟨b', hb', hsent⟩ := hone
  rw [hcons, List.length_cons]
  unfold Burst.sendLoop
  rw [hb']
  have hrest : Relation.ReflTransGen (Sends none tick) b' (b'.sendLoop tick rest.length) :=
    sendLoop_sends rest.length b'
  exact lt_of_lt_of_le hsent (sends_pays hrest).output

/-- The next frame of a flush that finds nothing in flight may be sent. -/
theorem head_of_waiting (hvalid : s.options.Valid)
    (hs : (run B mtu ops).queue.scheduler = some s) (tick : ℤ)
    (hflight : (run B mtu ops).queue.sentPacket = [])
    (hwaiting : 0 < (run B mtu ops).queue.waiting) :
    ∃ lane < 3, ∃ size,
      (((run B mtu ops).queue.prepared B tick).startRound s).head lane = some size := by
  cases hunreliable : s.unreliable with
  | cons f rest =>
    refine ⟨0, by omega, f.size, ?_⟩
    rw [Round.head_zero]
    simp [SendQ.startRound, hunreliable]
  | nil =>
    have hpackets : (run B mtu ops).queue.packets ≠ [] := by
      rintro hnil
      simp [SendQ.waiting, hs, hnil, hunreliable] at hwaiting
    obtain ⟨f, rest, hcons⟩ := List.exists_cons_of_ne_nil hpackets
    have hsize := ((found_sized hs tick).2.1 f (by rw [prepared_packets, hcons]; simp)).2.1
    have hbytes := (policy_takes_datagram hs).2
    have hframes := hvalid.frames
    have hnil := prepared_nil (B := B) hflight tick
    refine ⟨2, by omega, f.size, ?_⟩
    rw [Round.head_new (by omega)]
    have hfound : ((run B mtu ops).queue.prepared B tick).packets = f :: rest := by
      rw [prepared_packets, hcons]
    simp only [SendQ.startRound, SendQ.takeProbe, hfound, hnil, List.head?_cons, Option.bind_some,
      List.length_nil, List.map_nil, List.sum_nil, Nat.zero_add]
    rw [if_pos ⟨by omega, by omega⟩]

/-- **A flush that finds nothing in flight sends a frame**, if one waits. -/
theorem flush_progress (hvalid : ∀ op ∈ ops, op.ValidOptions) (tick : ℤ)
    (hflight : (run B mtu ops).queue.sentPacket = [])
    (hwaiting : 0 < (run B mtu ops).queue.waiting) :
    0 < ((run B mtu ops).queue.flush B tick).1.frames.length := by
  have hlegacy : (run B mtu ops).queue.packets ≠ [] →
      0 < (((run B mtu ops).queue.entered B tick).flushLegacy B tick).1.frames.length := by
    intro hpackets
    have hnil := prepared_nil (B := B) hflight tick
    have hfound := prepared_packets (B := B) (run B mtu ops).queue tick
    have hresend : (((run B mtu ops).queue.prepared B tick).resendAll tick).queue.sentPacket = [] ∧
        (((run B mtu ops).queue.prepared B tick).resendAll tick).queue.packets ≠ [] := by
      unfold SendQ.resendAll
      rw [hnil]
      simp only [List.length_nil, List.range_zero, List.foldl_nil]
      split_ifs
      · exact ⟨hnil, hfound ▸ hpackets⟩
      · exact ⟨hnil, hfound ▸ hpackets⟩
    exact sendLoop_progress tick hresend.1 hresend.2
  obtain ⟨hpath, he⟩ | ⟨scheduler, hs, hpath, -⟩ := flush_cases B (run B mtu ops).queue tick
  · rw [he]
    refine hlegacy fun hnil => ?_
    cases hs : (run B mtu ops).queue.scheduler with
    | none => simp [SendQ.waiting, hs, hnil] at hwaiting
    | some scheduler =>
      have hunreliable : scheduler.unreliable = [] := by
        rw [hs, Option.all_some, Bool.and_eq_true] at hpath
        exact List.isEmpty_iff.mp hpath.2
      simp [SendQ.waiting, hs, hnil, hunreliable] at hwaiting
  · obtain ⟨lane, hlane, size, hhead⟩ := head_of_waiting
      (options_valid_run B mtu hvalid scheduler hs) hs tick hflight hwaiting
    obtain ⟨trace, r, emitted, launched, hrun, hflush, hfilled⟩ := filled_run hs hpath tick
    have htrace := (calls_run hs tick hlane hhead).sends hrun
    have hlength := congrArg List.length hfilled.lanes
    rw [List.length_map] at hlength
    rw [hflush, hlength]
    exact List.length_pos_of_ne_nil htrace

end progress

/-! ### Draining -/

/-- The number of flushes among the operations that find nothing in flight. -/
def Run.idleFlushes (B : Build) : Run → List Op → ℕ
  | _, [] => 0
  | r, op :: ops =>
    (if op.isFlush && r.queue.sentPacket.isEmpty then 1 else 0) +
      Run.idleFlushes B (r.step B op) ops

section drain

variable {B : Build} {mtu : Fin 65536}

/-- Every flush that finds nothing in flight takes a frame from those that wait. -/
theorem waiting_drains : ∀ (more ops : List Op), (∀ op ∈ ops ++ more, op.ValidOptions) →
    (∀ op ∈ more, op.isInsert = false) →
    (run B mtu (ops ++ more)).queue.waiting ≤
      (run B mtu ops).queue.waiting - (run B mtu ops).idleFlushes B more
  | [], ops, _, _ => by simp [Run.idleFlushes]
  | op :: more, ops, hvalid, hquiet => by
    have hrest := waiting_drains more (ops ++ [op]) (by simpa using hvalid)
      fun op' hop' => hquiet op' (List.mem_cons_of_mem _ hop')
    rw [List.append_assoc, List.singleton_append, run_append] at hrest
    have hop := hquiet op List.mem_cons_self
    have hw := (run_steps B mtu ops).1
    have hstep := waiting_step hw hop
    unfold Run.idleFlushes
    split_ifs with hidle
    · obtain ⟨hflush, hempty⟩ := Bool.and_eq_true_iff.mp hidle
      have hflight := List.isEmpty_iff.mp hempty
      cases op with
      | flush tick =>
        rcases Nat.eq_zero_or_pos (run B mtu ops).queue.waiting with hzero | hpos
        · omega
        · have hsent := flush_progress (fun op hop => hvalid op (List.mem_append_left _ hop)) tick
            hflight hpos
          have htotal := (flush_waiting hw tick).2 hflight
          have hnext : ((run B mtu ops).step B (.flush tick)).queue.waiting =
              ((run B mtu ops).queue.flush B tick).2.waiting := rfl
          omega
      | _ => cases hflush
    · omega

/-- **The queue drains.** A flush that finds nothing in flight sends a frame, if one waits. When no
more messages come, every such flush leaves one frame less that waits, and as many as there are
leave none; and once the last ones are acknowledged, the queue is empty, its budget is returned, and
every frame of every message was acknowledged or, if it is unreliable, emitted. Between these flushes
there may be any feedback and any options. -/
theorem queue_drains (B : Build) (mtu : Fin 65536) (ops more : List Op)
    (hvalid : ∀ op ∈ ops ++ more, op.ValidOptions) (hquiet : ∀ op ∈ more, op.isInsert = false) :
    (∀ tick, (run B mtu ops).queue.sentPacket = [] → 0 < (run B mtu ops).queue.waiting →
      0 < ((run B mtu ops).queue.flush B tick).1.frames.length) ∧
    (run B mtu (ops ++ more)).queue.waiting ≤
      (run B mtu ops).queue.waiting - (run B mtu ops).idleFlushes B more ∧
    ((run B mtu ops).queue.waiting ≤ (run B mtu ops).idleFlushes B more →
      (run B mtu (ops ++ more)).queue.waiting = 0 ∧
      ((run B mtu (ops ++ more)).queue.sentPacket = [] →
        (run B mtu (ops ++ more)).queue.isEmpty = true ∧
        (run B mtu (ops ++ more)).queue.bufferedBytes = 0 ∧
        (run B mtu (ops ++ more)).ledger.gone =
          (accepted ((mtu : ℕ) - 60) (run B mtu (ops ++ more)).queue.log :
            Multiset QueuedFrame))) := by
  have hwaiting : (run B mtu (ops ++ more)).queue.waiting ≤
      (run B mtu ops).queue.waiting - (run B mtu ops).idleFlushes B more :=
    waiting_drains more ops hvalid hquiet
  refine ⟨fun tick => flush_progress (fun op hop => hvalid op (List.mem_append_left _ hop)) tick,
    hwaiting, fun hrounds => ⟨by omega, fun hflight => ?_⟩⟩
  have hempty : (run B mtu (ops ++ more)).queue.isEmpty = true :=
    isEmpty_of_waiting (by omega) hflight
  refine ⟨hempty, ?_, ?_⟩
  · rw [bytes_held, isEmpty_held hempty]
    rfl
  · have hconserved : Conserved _ := (conserved_run B mtu (ops ++ more)).2.1
    unfold Ledger.Conserved at hconserved
    rw [isEmpty_iff_ledger.mp hempty, zero_add, run_mtu] at hconserved
    exact hconserved

/-- Room for one frame in flight. -/
def narrowFlight : SendOptions :=
  { SendOptions.default with inFlightFrames := 1, flushBytes := 2048 }

theorem narrowFlight_valid : narrowFlight.Valid :=
  .flush (.inFlight .default (show SendOptions.default.withInFlightLimits 1 67108864 =
      .ok { SendOptions.default with inFlightFrames := 1 } from rfl))
    (show SendOptions.withFlushBudget { SendOptions.default with inFlightFrames := 1 } 2048 =
      .ok narrowFlight from rfl)

/-- Two ordered messages and an unreliable one. -/
def narrowOps : List Op :=
  [.setSendOptions narrowFlight,
    .insert ⟨.reliableOrdered, primaryChannel, [0xfe, 1], false⟩,
    .insert ⟨.reliableOrdered, primaryChannel, [0xfe, 2], false⟩,
    .insert ⟨.unreliable, primaryChannel, [0xfe, 3], false⟩]

/-- Three flushes, each after the acknowledgement of what the last one sent. -/
def drainingOps : List Op :=
  [.flush 0, .ackRanges [(0, 1)] 10, .flush 20, .ackRanges [(2, 3)] 30, .flush 40]

theorem queue_drains_narrow :
    (run (.insertion true false) 1400 (narrowOps ++ drainingOps)).queue.isEmpty = true :=
  ((queue_drains (.insertion true false) 1400 narrowOps drainingOps
    (fun op hop => by
      simp only [narrowOps, drainingOps, List.cons_append, List.nil_append, List.mem_cons,
        List.not_mem_nil, or_false] at hop
      rcases hop with rfl | rfl | rfl | rfl | rfl | rfl | rfl | rfl | rfl
      · exact narrowFlight_valid
      all_goals exact trivial)
    (by decide)).2.2 (by decide +kernel)).2 (by decide +kernel) |>.1

end drain

end RustRaknet.Send
