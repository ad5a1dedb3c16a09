import RustRaknet.Send.Prepare
import RustRaknet.Send.RefineProbe

/-! # The send queue follows its ledger

Every operation of the queue is a sequence of moves (`step_steps`), so the ledger of a run is
reached from the empty one (`run_steps`), and a property that every move keeps holds after every
run (`run_preserves`). -/

namespace RustRaknet.Send

open RustRaknet.Frame RustRaknet.Sequence Ledger

variable {B : Build}

/-! ### Flush -/

/-- A flush from a queue is a sequence of moves, from the beginning of its burst. -/
def Flushes (B : Build) (q : SendQ) (result : OutgoingFrames × SendQ) : Prop :=
  Wf B q → Wf B result.2 ∧ ∀ e t, Steps (q.ledger .empty e t)
    (result.2.ledger result.1 (e ++ result.1.frames.filter fun f => !f.isReliable) t)

theorem Flushes.of_burst {q : SendQ} {s : Burst}
    (h : Wf B q → BurstWf B s ∧ ∀ e t, Steps (q.ledger .empty e t) (s.ledger e t)) :
    Flushes B q (s.output, s.queue) := fun hw => ⟨(h hw).1.wf, (h hw).2⟩

theorem tick_cases (q : SendQ) (tick : ℤ) :
    q.tick B tick = q.expire B tick ∨
      ∃ first r, q.tick B tick = (q.replay first r).expire B tick ∧ Tail q first := by
  unfold SendQ.tick
  split_ifs
  · rcases probeTail_cases q tick with h | ⟨first, r, h, htail⟩
    · exact .inl (by rw [h])
    · exact .inr ⟨first, r, by rw [h], htail⟩
  · exact .inl rfl

theorem Wf.probePacking {q : SendQ} (hw : Wf B q) : q.probePacking = false := by
  unfold SendQ.probePacking
  cases h : q.recovery with
  | none => rfl
  | some r => exact hw.probePacked r h

/-- The burst of `flush` before its first frame. -/
theorem takeProbe_burst {q : SendQ} (hw : Wf B q) :
    BurstWf B q.burst ∧ ∀ e t, Steps (q.ledger .empty e t) (q.burst.ledger e t) := by
  obtain ⟨hw', hs⟩ := takeProbe_moves q hw
  refine ⟨⟨hw', fun _ x hx => by cases hx⟩, fun e t => ?_⟩
  have hsteps := hs .empty e t
  unfold SendQ.burst
  rw [hw.probePacking]
  simp only [Burst.ledger, List.filter_nil, List.append_nil]
  exact hsteps

theorem Replayed.replaying {q q' : SendQ} (h : Replayed B q q') (e : List QueuedFrame)
    (t : List Retired) :
    Replaying (B := B) (q'.burst.ledger e t) q'.sentPacket e t q'.burst 0 :=
  ⟨by simp [Burst.ledger, Run.ledger, SendQ.burst, SendQ.takeProbe], rfl, h.wf,
    fun _ x hx => by cases hx⟩

theorem Replayed.unsent {q q' : SendQ} (h : Replayed B q q') :
    ∀ p ∈ q'.sentPacket, p.sent = false := by
  intro p hp
  obtain ⟨p', -, rfl⟩ := List.mem_map.mp (h.flight.mem_iff.mp hp)
  rfl

/-- The flush of a probe is one move. -/
theorem Replayed.probe {q q' : SendQ} {first : InFlight} (h : Replayed B q q') (htail : Tail q first)
    {e : List QueuedFrame} {t : List Retired} {s : Burst}
    (hs : Replaying (B := B) (q'.burst.ledger e t) q'.sentPacket e t s q'.sentPacket.length) :
    Steps (q.ledger .empty e t) (s.ledger e t) := by
  refine steps_of_eq (@Step.probe (q.ledger .empty e t) first.sequence
    (q'.sentPacket.map InFlight.resent) rfl ?_ ?_) ?_
  · intro p hp
    obtain ⟨p', hp', rfl⟩ := List.mem_map.mp hp
    obtain ⟨h1, h2, h3⟩ := htail.flight p' hp'
    exact ⟨h1, h3, h2⟩
  · have := h.flight.map InFlight.resent
    rw [List.map_map] at this
    simp only [Run.ledger, List.map_map]
    exact this
  · rw [hs.ledger]
    have hq := h.ledger ⟨[], q'.probePacking⟩ (e ++ []) t
    simp only [Burst.ledger, SendQ.burst, List.filter_nil, hq]
    simp [Run.ledger, h.packing, Function.comp_def, InFlight.resent]

theorem burst_moves {q : SendQ} {probeSequence : Option ℕ} {tick : ℤ} {s : Burst} (hw : Wf B q)
    (h : Relation.ReflTransGen (Sends probeSequence tick) q.burst s) :
    BurstWf B s ∧ ∀ e t, Steps (q.ledger .empty e t) (s.ledger e t) := by
  obtain ⟨hb, hs⟩ := takeProbe_burst hw
  obtain ⟨hb', hs'⟩ := sends_moves h hb
  exact ⟨hb', fun e t => (hs e t).trans (hs' e t)⟩

theorem flushLegacy_flushes (q : SendQ) (tick : ℤ) : Flushes B q (q.flushLegacy B tick) := by
  refine Flushes.of_burst fun hw => ?_
  rcases tick_cases (B := B) q tick with h | ⟨first, r, h, htail⟩ <;> rw [h]
  · obtain ⟨hw', hmoves⟩ := ((tickRule_moves.expire B q tick).trans (sortFlight_moves _)) hw
    obtain ⟨hb, hs⟩ := burst_moves hw' ((resendAll_sends _).trans (sendLoop_sends _ _))
    exact ⟨hb, fun e t => (hmoves .empty e t).trans (hs e t)⟩
  · have hr := replayed_expire r tick hw htail
    generalize ((q.replay first r).expire B tick).sortFlight B = q' at hr ⊢
    have hdone : ∀ e t, Replaying (B := B) (q'.burst.ledger e t) q'.sentPacket e t
        (q'.resendAll tick) q'.sentPacket.length := by
      intro e t
      have := ((hr.replaying e t).resendAt q'.probeReplay tick hr.unsent rfl _ le_rfl).1
      unfold SendQ.resendAll
      simp only [hr.pending, if_true]
      exact ⟨this.ledger, this.rest, (clearRetries_moves _ this.wf).1⟩
    have hpackets : (q'.resendAll tick).queue.packets = [] := by
      have h1 := congrArg Ledger.packets (hdone [] []).ledger
      have h2 := congrArg Ledger.packets (hr.ledger .empty [] [])
      simp only [Burst.ledger, Run.ledger, SendQ.burst] at h1 h2
      rw [h1, h2, htail.packets]
    rw [hpackets, List.length_nil, Burst.sendLoop]
    exact ⟨(hdone [] []).wf, fun e t => hr.probe htail (hdone e t)⟩

theorem finish_moves {r : Round} (hb : BurstWf B r.view) :
    Wf B (r.burst.queue.finish r.scheduler) ∧
      ∀ e t, (r.burst.queue.finish r.scheduler).ledger r.burst.output e t =
        r.view.queue.ledger r.view.output e t := by
  have hsched := hb.wf.scheduled r.scheduler rfl
  have hfinish : r.burst.queue.finish r.scheduler = { r.view.queue with
      retriesPending := r.burst.queue.sentPacket.any fun p => !p.sent } := by
    simp [SendQ.finish, hsched.2.1, Round.view, Burst.schedule, SendQ.schedule]
  rw [hfinish]
  exact ⟨⟨hb.wf.indexed, hb.wf.numbered, hb.wf.reliable, hb.wf.scheduled, hb.wf.room,
    hb.wf.probePacked⟩, fun _ _ => rfl⟩

theorem size_pos {f : QueuedFrame} (h : f.isReliable = true) : 0 < f.size := by
  unfold QueuedFrame.isReliable FrameSetPacket.isReliable at h
  unfold QueuedFrame.size FrameSetPacket.size
  cases hr : f.frame.reliability with
  | error _ => simp [hr] at h
  | ok r =>
    simp only [Lib.Result.map_ok, FrameSetPacket.sizeOf]
    omega

theorem flushScheduled_flushes {q : SendQ} {scheduler : SendScheduler} (tick : ℤ)
    (hs : q.scheduler = some scheduler) : Flushes B q (q.flushScheduled B tick scheduler) := by
  intro hw
  have hsched := hw.scheduled scheduler hs
  rcases tick_cases (B := B) q tick with h | ⟨first, r, h, htail⟩
  · obtain ⟨hw', hmoves⟩ := ((tickRule_moves.expire B q tick).trans (sortFlight_moves _)) hw
    have hs' : ((q.expire B tick).sortFlight B).scheduler = some scheduler :=
      (congrArg SendQ.scheduler ((sortFlight_settled _).trans (expire_keeps q).1)).trans hs
    unfold SendQ.flushScheduled
    rw [h]
    generalize (q.expire B tick).sortFlight B = q' at hw' hmoves hs'
    obtain ⟨hb, hsteps⟩ := burst_moves hw' (startRound_view hs' ▸ rounds_sends
      ((q'.mtu : ℕ) * 4) ((q'.startRound scheduler).waiting + 1) (q'.startRound scheduler))
    obtain ⟨hw'', hfinish⟩ := finish_moves hb
    refine ⟨hw'', fun e t => ?_⟩
    rw [hfinish]
    exact (hmoves .empty e t).trans (hsteps e t)
  · have hr := replayed_expire r tick hw htail
    unfold SendQ.flushScheduled
    rw [h]
    generalize ((q.replay first r).expire B tick).sortFlight B = q' at hr
    have hs' : q'.scheduler = some scheduler := hr.scheduler.trans hs
    obtain ⟨hunreliable, hfits⟩ := htail.scheduler scheduler hs
    have hsum : (q'.sentPacket.map fun p => p.packet.size).sum =
        (q.sentPacket.map fun p => p.packet.size).sum := by
      rw [(hr.flight.map fun p => p.packet.size).sum_eq, List.map_map]
      rfl
    have hpackets : q'.packets = [] := by
      have := congrArg Ledger.packets (hr.ledger .empty [] [])
      simp only [Run.ledger] at this
      exact this.trans htail.packets
    have hmtu : (q'.mtu : ℕ) - 60 = (q.mtu : ℕ) - 60 :=
      congrArg Ledger.limit (hr.ledger .empty [] [])
    have hroom := hw.room (.inr htail.nonempty)
    have hstart : ∀ e t, Probing B (q'.burst.ledger e t)
        q'.sentPacket e t (q'.startRound scheduler) 0 := fun e t =>
      { replaying := startRound_view hs' ▸ hr.replaying e t
        unsent := hr.unsent
        sized := fun p hp => size_pos (hr.wf.reliable p hp)
        le := Nat.zero_le _
        cursor := rfl
        pending := hr.pending
        packets := hpackets
        unreliable := hunreliable
        fits := by
          rw [List.drop_zero, hsum]
          simpa [SendQ.startRound] using hfits }
    have hwaiting : (q'.startRound scheduler).waiting = q'.sentPacket.length := by
      have hfilter : (q'.sentPacket.filter fun p => !p.sent) = q'.sentPacket :=
        List.filter_eq_self.mpr fun p hp => by simp [hr.unsent p hp]
      simp [Round.waiting, SendQ.startRound, SendQ.takeProbe, hunreliable, hpackets, hfilter]
    have hend := fun e t => (hstart e t).rounds q'.probeReplay tick
      (show 0 < (q'.mtu : ℕ) * 4 by omega) ((q'.startRound scheduler).waiting + 1) (by omega)
    obtain ⟨hw'', hfinish⟩ := finish_moves (hend [] []).replaying.wf
    refine ⟨hw'', fun e t => ?_⟩
    rw [hfinish]
    exact hr.probe htail (hend e t).replaying

/-- **Flush** is a sequence of moves, from the beginning of a burst. -/
theorem flush_flushes (q : SendQ) (tick : ℤ) : Flushes B q (q.flush B tick) := by
  intro hw
  have hreset : Moves B q (if B.recoveryPolicy then q.resetRecovery tick else q) :=
    .ite (resetRecovery_moves q tick) (.refl q)
  unfold SendQ.flush
  simp only
  generalize (if B.recoveryPolicy = true then q.resetRecovery tick else q) = q' at hreset ⊢
  obtain ⟨hw', hs⟩ := hreset hw
  have hthen : ∀ {result}, Flushes B q' result → Wf B result.2 ∧ ∀ e t, Steps (q.ledger .empty e t)
      (result.2.ledger result.1 (e ++ result.1.frames.filter fun f => !f.isReliable) t) :=
    fun h => ⟨(h hw').1, fun e t => (hs .empty e t).trans ((h hw').2 e t)⟩
  rcases hsched : q'.scheduler with _ | scheduler
  · exact hthen (flushLegacy_flushes q' tick)
  · simp only
    split_ifs
    · exact hthen (flushScheduled_flushes tick hsched)
    · exact hthen (flushLegacy_flushes q' tick)

/-! ### Runs -/

/-- **Every operation is a sequence of moves.** -/
theorem step_steps (r : Run) (op : Op) (hw : Wf B r.queue) :
    Wf B (r.step B op).queue ∧ Steps r.ledger (r.step B op).ledger := by
  have hmoves : ∀ {q : SendQ}, Moves B r.queue q → Wf B q ∧
      Steps r.ledger (Run.ledger { r with queue := q }) :=
    fun h => ⟨(h hw).1, (h hw).2 r.output r.emitted r.retired⟩
  have hretires : ∀ {result : List Retired × SendQ}, Retires B r.queue result →
      Wf B (r.retire result).queue ∧ Steps r.ledger (r.retire result).ledger :=
    fun h => ⟨(h hw).1, (h hw).2 r.output r.emitted r.retired⟩
  cases op with
  | insert m => exact Run.insert_cases (fun q h => hmoves (insertPayload_moves h)) ⟨hw, .refl⟩
  | flush tick =>
    obtain ⟨hw', hs⟩ := flush_flushes r.queue tick hw
    refine ⟨hw', ?_⟩
    have hburst : Step r.ledger (r.queue.ledger .empty r.emitted r.retired) :=
      Step.burst (L := r.ledger)
    exact .head hburst (hs r.emitted r.retired)
  | ack sequence tick => exact hretires (ack_retires r.queue sequence tick)
  | ackRanges ranges tick => exact hretires (ackRangesInner_retires r.queue _ ranges tick)
  | nack sequence tick => exact hmoves (nackRule_moves.nack r.queue sequence)
  | nackRanges ranges tick => exact hmoves (nackRule_moves.nackRanges r.queue ranges)
  | enableCoalescing => exact hmoves enableCoalescing_moves
  | setSendOptions options =>
    exact Run.setSendOptions_cases (fun q hB h => hmoves (setSendOptions_moves hB h)) ⟨hw, .refl⟩
  | setRecoveryOptions options now =>
    exact Run.setRecoveryOptions_cases (fun _ => hmoves (setRecoveryOptions_moves options now))
      ⟨hw, .refl⟩

theorem run_steps (B : Build) (mtu : Fin 65536) (ops : List Op) :
    Wf B (run B mtu ops).queue ∧ Steps (Run.new mtu).ledger (run B mtu ops).ledger := by
  induction ops using List.reverseRecOn with
  | nil => exact ⟨wf_new B mtu, .refl⟩
  | append_singleton ops op ih =>
    rw [run_append]
    obtain ⟨hw, hs⟩ := step_steps (run B mtu ops) op ih.1
    exact ⟨hw, ih.2.trans hs⟩

/-- **The rule of runs**: what every move keeps, and the empty ledger has, every run has. -/
theorem run_preserves {I : Ledger → Prop} (hstep : ∀ {L L'}, Step L L' → I L → I L')
    (B : Build) (mtu : Fin 65536) (hnew : I (Run.new mtu).ledger) (ops : List Op) :
    I (run B mtu ops).ledger :=
  Steps.preserves hstep (run_steps B mtu ops).2 hnew

end RustRaknet.Send
