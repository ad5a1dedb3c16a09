import RustRaknet.Send.Prepare

/-! # The turns of a flush

The loops of `flush` and `flush_scheduled` are made of turns, and a turn sends at most one frame.
What one turn can do is said here once: `Turn` for the loop over the queue, `Round.Move` for the
loops over the lanes, and `Sends`, which covers both and the loop over the flight. What every turn
keeps, the loops keep (`flush_sends`, `rounds_preserves`).

In `flush_scheduled` the scheduler is held apart from the queue; `Round.view` puts it back. -/

namespace RustRaknet.Send

open RustRaknet.Frame RustRaknet.Sequence

/-! ### The loop over the queue -/

section queue

variable {tick : ℤ}

/-- The number of a new frame, taken from the queue. -/
def Burst.number (s : Burst) (f : QueuedFrame) (rest : List QueuedFrame) : QueuedFrame × Burst :=
  if s.queue.coalesce then (s.pop rest).assign f.packable f else (s.pop rest).fresh f

/-- What one turn of the loop of `flush` over the queue does. -/
inductive Turn (tick : ℤ) (s : Burst) : Burst → Prop
  | rotate {f rest} (packets : s.queue.packets = f :: rest)
      (full : maxInFlightPackets ≤ s.queue.sentPacket.length) (reliable : f.isReliable = true)
      (waiting : s.queue.queuedUnreliable ≠ 0) : Turn tick s (s.pop (rest ++ [f]))
  | launch {f rest} (packets : s.queue.packets = f :: rest) (reliable : f.isReliable = true)
      (room : s.queue.sentPacket.length < maxInFlightPackets) :
      Turn tick s ((s.number f rest).2.launch tick (s.number f rest).1)
  | emit {f rest} (packets : s.queue.packets = f :: rest) (unreliable : f.isReliable = false) :
      Turn tick s ((s.number f rest).2.emit (s.number f rest).1)

theorem sendOne_turn {s s' : Burst} (h : s.sendOne tick = some s') : Turn tick s s' := by
  unfold Burst.sendOne at h
  by_cases hstop : maxInFlightPackets ≤ s.queue.sentPacket.length ∧ s.queue.queuedUnreliable = 0
  · rw [if_pos hstop] at h
    exact nomatch h
  rw [if_neg hstop] at h
  cases hpackets : s.queue.packets with
  | nil =>
    rw [hpackets] at h
    exact nomatch h
  | cons f rest =>
    rw [hpackets] at h
    simp only at h
    by_cases hfull : maxInFlightPackets ≤ s.queue.sentPacket.length
    · cases hf : f.isReliable with
      | true =>
        simp only [hf, hfull, decide_true, Bool.and_true, if_true] at h
        exact Option.some.inj h ▸ .rotate hpackets hfull hf fun hnone => hstop ⟨hfull, hnone⟩
      | false =>
        simp only [hf, Bool.false_and] at h
        exact Option.some.inj h ▸ .emit hpackets hf
    · cases hf : f.isReliable with
      | true =>
        simp only [hf, hfull, decide_false, Bool.and_false, if_true] at h
        exact Option.some.inj h ▸ .launch hpackets hf (by omega)
      | false =>
        simp only [hf, Bool.false_and] at h
        exact Option.some.inj h ▸ .emit hpackets hf

end queue

/-! ### The loops over the lanes -/

/-- What a turn of the loops over the lanes does. -/
inductive Round.Move (probeSequence : Option ℕ) (tick : ℤ) (r : Round) : Round → Prop
  | clear : Move probeSequence tick r { r with progressed := false }
  | advance (lane : ℕ) : Move probeSequence tick r (r.advance lane)
  | send {lane charge : ℕ} (hcharge : (r.advance lane).laneCharge lane = some charge)
      (hroom : (r.advance lane).bytes + charge ≤ (r.advance lane).scheduler.options.flushBytes) :
      Move probeSequence tick r ((r.advance lane).laneSend probeSequence tick lane charge)

section lanes

variable {probeSequence : Option ℕ} {tick : ℤ} {I : Round → Prop}

theorem laneLoop_preserves (hmove : ∀ {r r'}, r.Move probeSequence tick r' → I r → I r')
    (lane quantum : ℕ) : ∀ (n laneBytes : ℕ) (r : Round), I r →
      I (Round.laneLoop probeSequence tick lane quantum n laneBytes r).1
  | 0, _, _, h => h
  | n + 1, laneBytes, r, h => by
    have hadvance : I (r.advance lane) := hmove (.advance lane) h
    unfold Round.laneLoop
    split_ifs
    · exact h
    simp only
    split
    · exact hadvance
    · next charge hcharge =>
      by_cases hroom : (r.advance lane).scheduler.options.flushBytes <
          (r.advance lane).bytes + charge
      · rw [if_pos hroom]
        exact hadvance
      rw [if_neg hroom]
      have hsend : I ((r.advance lane).laneSend probeSequence tick lane charge) :=
        hmove (.send hcharge (not_lt.mp hroom)) h
      split_ifs
      · exact hsend
      · exact laneLoop_preserves hmove lane quantum n _ _ hsend

theorem laneRound_preserves (hmove : ∀ {r r'}, r.Move probeSequence tick r' → I r → I r')
    (quantum start : ℕ) : ∀ (offsets : List ℕ) (r : Round), I r →
      I (Round.laneRound probeSequence tick quantum start offsets r).1
  | [], _, h => h
  | offset :: offsets, r, h => by
    have hloop := laneLoop_preserves hmove ((start + offset) % 3) quantum (r.waiting + 1) 0 r h
    unfold Round.laneRound
    simp only
    split_ifs
    · exact hloop
    · exact laneRound_preserves hmove quantum start offsets _ hloop

/-- **The rule of the rounds**: what every turn keeps, the loops keep. -/
theorem rounds_preserves (hmove : ∀ {r r'}, r.Move probeSequence tick r' → I r → I r')
    (quantum : ℕ) : ∀ (n : ℕ) (r : Round), I r → I (Round.rounds probeSequence tick quantum n r)
  | 0, _, h => h
  | n + 1, r, h => by
    have hround := laneRound_preserves hmove quantum r.scheduler.nextLane [0, 1, 2] _
      (hmove .clear h)
    unfold Round.rounds
    simp only
    split_ifs
    · exact hround
    · exact rounds_preserves hmove quantum n _ hround

end lanes

/-- The frame under the cursor waits: `seek` has passed over the frames that do not. -/
theorem seek_unsent {flight : List InFlight} {cursor : ℕ} {p : InFlight}
    (h : flight[Round.seek flight cursor]? = some p) : p.sent = false := by
  unfold Round.seek at h
  rw [← List.getElem?_drop] at h
  obtain ⟨hlt, he⟩ := List.getElem?_eq_some_iff.mp h
  have := List.findIdx_getElem (w := hlt)
  simpa [he] using this

theorem advance_unsent {r : Round} {charge : ℕ} (h : (r.advance 1).laneCharge 1 = some charge) :
    ∀ p, (r.advance 1).burst.queue.sentPacket[(r.advance 1).retryCursor]? = some p →
      p.sent = false := by
  intro p hp
  unfold Round.advance at h hp
  split_ifs at h hp with hc
  · exact seek_unsent hp
  · simp only [true_and] at hc
    simp [Round.laneCharge, hc] at h

/-! ### One frame is sent -/

/-- The queue with a scheduler. -/
def SendQ.schedule (q : SendQ) (scheduler : SendScheduler) : SendQ :=
  { q with scheduler := some scheduler }

/-- The burst whose queue has a scheduler. -/
def Burst.schedule (s : Burst) (scheduler : SendScheduler) : Burst :=
  ⟨s.queue.schedule scheduler, s.output, s.group⟩

/-- The burst of a round, with the scheduler back in its queue. -/
def Round.view (r : Round) : Burst := r.burst.schedule r.scheduler

/-- An unreliable frame of the scheduler is transmitted and forgotten. -/
def Burst.emitScheduled (s : Burst) (scheduler : SendScheduler) (f : QueuedFrame)
    (rest : List QueuedFrame) : Burst where
  output := s.output.push (f.numbered s.queue.sequenceNumber s.queue.allocated)
  queue := { s.queue with
    sequenceNumber := next s.queue.sequenceNumber
    allocated := s.queue.allocated + 1
    bufferedBytes := s.queue.bufferedBytes - charge f
    fault := s.queue.fault || decide (s.queue.bufferedBytes < charge f) ||
      decide (scheduler.unreliableBytes < charge f)
    scheduler := some { scheduler with
      unreliable := rest
      unreliableBytes := scheduler.unreliableBytes - charge f } }
  group := { s.group with sequence := none }

/-- **What one turn of a flush does**, whichever loop it belongs to. -/
inductive Sends (probeSequence : Option ℕ) (tick : ℤ) (s : Burst) : Burst → Prop
  /-- A frame in flight that waits is sent again. -/
  | resend {i : ℕ} {p : InFlight} (h : s.queue.sentPacket[i]? = some p) (hp : p.sent = false) :
      Sends probeSequence tick s (s.resend probeSequence tick i p).closeGroup
  /-- A queued frame is the first of its datagram. -/
  | start {f : QueuedFrame} {rest : List QueuedFrame} {packable : Bool}
      (h : s.queue.packets = f :: rest)
      (hf : f.isReliable = true ∨ s.queue.scheduler.isSome = true)
      (hpackable : packable = true → s.queue.coalesce = true ∧ f.packable = true) :
      Sends probeSequence tick s
        (((s.pop rest).start packable f).2.launch tick ((s.pop rest).start packable f).1)
  /-- A queued frame joins the datagram before it. -/
  | join {f : QueuedFrame} {rest : List QueuedFrame} {x : ℕ} (h : s.queue.packets = f :: rest)
      (hf : f.isReliable = true ∨ s.queue.scheduler.isSome = true)
      (hx : s.group.sequence = some x) (hcoalesce : s.queue.coalesce = true)
      (hpackable : f.packable = true) (hframes : s.group.frames < maxCoalescedFrames)
      (hbytes : s.group.bytes + (f.size - 4) ≤ (s.queue.mtu : ℕ) - 28) :
      Sends probeSequence tick s
        (((s.pop rest).join x f).2.launch tick ((s.pop rest).join x f).1)
  /-- Without coalescing a queued frame has a datagram of its own. -/
  | fresh {f : QueuedFrame} {rest : List QueuedFrame} (h : s.queue.packets = f :: rest)
      (hf : f.isReliable = true) (hcoalesce : s.queue.coalesce = false) :
      Sends probeSequence tick s
        (((s.pop rest).fresh f).2.launch tick ((s.pop rest).fresh f).1)
  /-- A queued unreliable frame is sent and forgotten. -/
  | emit {f : QueuedFrame} {rest : List QueuedFrame} {group : Group}
      (h : s.queue.packets = f :: rest) (hf : f.isReliable = false)
      (hgroup : s.queue.coalesce = true → group.sequence = none) :
      Sends probeSequence tick s
        ((((s.pop rest).fresh f).2.setGroup group).emit ((s.pop rest).fresh f).1)
  /-- An unreliable frame of the scheduler is sent and forgotten. -/
  | emitScheduled {scheduler : SendScheduler} {f : QueuedFrame} {rest : List QueuedFrame}
      (hs : s.queue.scheduler = some scheduler) (h : scheduler.unreliable = f :: rest) :
      Sends probeSequence tick s (s.emitScheduled scheduler f rest)
  /-- A reliable frame that finds the flight full goes to the back of the queue. -/
  | rotate {f : QueuedFrame} {rest : List QueuedFrame} (h : s.queue.packets = f :: rest)
      (hf : f.isReliable = true) : Sends probeSequence tick s (s.pop (rest ++ [f]))
  /-- The next flush begins with another lane. -/
  | turnTo {scheduler : SendScheduler} {lane : ℕ} (hs : s.queue.scheduler = some scheduler)
      (hlane : lane < 3) :
      Sends probeSequence tick s (s.schedule { scheduler with nextLane := lane })
  /-- No frame waits to be sent again. -/
  | clear : Sends probeSequence tick s ⟨s.queue.clearRetries, s.output, s.group⟩

section sends

variable {probeSequence : Option ℕ} {tick : ℤ}

theorem closeGroup_empty {s : Burst} (h : s.group = .empty) : s.closeGroup = s := by
  obtain ⟨q, o, g⟩ := s
  cases h
  rfl

theorem packable_isReliable {f : QueuedFrame} (hf : f.isReliable = false) : f.packable = false := by
  unfold QueuedFrame.isReliable FrameSetPacket.isReliable at hf
  unfold QueuedFrame.packable
  cases h : f.frame.reliability with
  | error _ => rfl
  | ok r => cases r <;> simp_all [Reliability.isReliable]

theorem assign_sends {s : Burst} {f : QueuedFrame} {rest : List QueuedFrame} {packable : Bool}
    (h : s.queue.packets = f :: rest)
    (hf : f.isReliable = true ∨ s.queue.scheduler.isSome = true)
    (hpackable : packable = true → s.queue.coalesce = true ∧ f.packable = true) :
    Sends probeSequence tick s
      (((s.pop rest).assign packable f).2.launch tick ((s.pop rest).assign packable f).1) := by
  unfold Burst.assign
  split
  · next x hx =>
    split_ifs with hc
    · exact .join h hf hx (hpackable hc.1).1 (hpackable hc.1).2 hc.2.1 hc.2.2
    · exact .start h hf hpackable
  · exact .start h hf hpackable

theorem Turn.sends {s s' : Burst} (h : Turn tick s s') : Sends probeSequence tick s s' := by
  cases h with
  | rotate packets full reliable waiting => exact .rotate packets reliable
  | launch packets reliable room =>
    unfold Burst.number
    split_ifs with hcoalesce
    · exact assign_sends packets (.inl reliable) fun hp => ⟨hcoalesce, hp⟩
    · exact .fresh packets reliable (Bool.not_eq_true _ ▸ hcoalesce)
  | @emit f rest packets unreliable =>
    unfold Burst.number
    split_ifs with hcoalesce
    · -- an unreliable frame is not packable, so it starts a group that is closed
      have hstart : (s.pop rest).assign f.packable f = (s.pop rest).start false f := by
        rw [packable_isReliable unreliable]
        unfold Burst.assign
        split <;> simp
      rw [hstart]
      exact .emit packets unreliable fun _ => rfl
    · exact .emit packets unreliable fun hc => absurd hc hcoalesce

theorem sendLoop_sends : ∀ (n : ℕ) (s : Burst),
    Relation.ReflTransGen (Sends probeSequence tick) s (s.sendLoop tick n)
  | 0, _ => .refl
  | n + 1, s => by
    unfold Burst.sendLoop
    split
    · exact .refl
    · next s' h => exact .head (sendOne_turn h).sends (sendLoop_sends n s')

/-- The loop over the flight, before the first group. -/
theorem resendAt_sends : ∀ (l : List ℕ) (s : Burst), s.group = .empty →
    Relation.ReflTransGen (Sends probeSequence tick) s
      (l.foldl (Burst.resendAt probeSequence tick) s)
  | [], _, _ => .refl
  | i :: l, s, hg => by
    have hstep : Relation.ReflTransGen (Sends probeSequence tick) s
        (Burst.resendAt probeSequence tick s i) ∧
          (Burst.resendAt probeSequence tick s i).group = .empty := by
      unfold Burst.resendAt
      split
      · exact ⟨.refl, hg⟩
      · next p hp =>
        split_ifs with hsent
        · exact ⟨.refl, hg⟩
        · refine ⟨?_, hg⟩
          rw [← closeGroup_empty (s := s.resend probeSequence tick i p) hg]
          exact .single (.resend hp (Bool.not_eq_true _ ▸ hsent))
    exact hstep.1.trans (resendAt_sends l _ hstep.2)

theorem resendAll_sends (q : SendQ) :
    Relation.ReflTransGen (Sends q.probeReplay tick) q.burst (q.resendAll tick) := by
  unfold SendQ.resendAll
  simp only
  split_ifs
  · exact (resendAt_sends (List.range q.sentPacket.length) q.burst rfl).tail .clear
  · exact .refl

theorem schedule_assign (s : Burst) (scheduler : SendScheduler) (packable : Bool)
    (f : QueuedFrame) : (s.schedule scheduler).assign packable f =
      ((s.assign packable f).1, (s.assign packable f).2.schedule scheduler) := by
  have hgroup : (s.schedule scheduler).group = s.group := rfl
  have hmtu : (s.schedule scheduler).queue.mtu = s.queue.mtu := rfl
  unfold Burst.assign
  rw [hgroup, hmtu]
  split
  · split_ifs <;> rfl
  · rfl

theorem advance_view (lane : ℕ) (r : Round) : (r.advance lane).view = r.view := by
  unfold Round.advance
  split_ifs <;> rfl

theorem charged_sends {s : Burst} {r : Round} {lane : ℕ} (charge : ℕ)
    (h : Relation.ReflTransGen (Sends probeSequence tick) s r.view) :
    Relation.ReflTransGen (Sends probeSequence tick) s (r.charged lane charge).view :=
  h.tail (.turnTo rfl (Nat.mod_lt (lane + 1) (by omega)))

theorem sendUnreliable_sends (r : Round) :
    Relation.ReflTransGen (Sends probeSequence tick) r.view r.sendUnreliable.view := by
  unfold Round.sendUnreliable
  split
  · exact .refl
  · next f rest h => exact .single (.emitScheduled rfl h)

theorem sendRetry_sends {r : Round}
    (h : ∀ p, r.burst.queue.sentPacket[r.retryCursor]? = some p → p.sent = false) :
    Relation.ReflTransGen (Sends probeSequence tick) r.view
      (r.sendRetry probeSequence tick).view := by
  unfold Round.sendRetry
  split
  · exact .refl
  · next p hp => exact .single (.resend (s := r.view) hp (h p hp))

theorem sendNew_sends (r : Round) :
    Relation.ReflTransGen (Sends probeSequence tick) r.view (r.sendNew tick).view := by
  unfold Round.sendNew
  split
  · exact .refl
  · next f rest hp =>
    have hsends : Sends probeSequence tick r.view _ :=
      assign_sends hp (.inr rfl) fun hc => Bool.and_eq_true_iff.mp hc
    have hpop : r.view.pop rest = (r.burst.pop rest).schedule r.scheduler := rfl
    rw [hpop, schedule_assign] at hsends
    exact .single hsends

theorem Round.Move.sends {r r' : Round} (h : r.Move probeSequence tick r') :
    Relation.ReflTransGen (Sends probeSequence tick) r.view r'.view := by
  cases h with
  | clear => exact .refl
  | advance lane => rw [advance_view]
  | @send lane charge hcharge hroom =>
    rw [← advance_view lane r]
    unfold Round.laneSend
    split
    · exact charged_sends charge (sendUnreliable_sends _)
    · exact charged_sends charge (sendRetry_sends (advance_unsent hcharge))
    · exact charged_sends charge (sendNew_sends _)

theorem rounds_sends (quantum n : ℕ) (r : Round) :
    Relation.ReflTransGen (Sends probeSequence tick) r.view
      (Round.rounds probeSequence tick quantum n r).view :=
  rounds_preserves (I := fun r' => Relation.ReflTransGen (Sends probeSequence tick) r.view r'.view)
    (fun hmove h => h.trans hmove.sends) quantum n r .refl

end sends

/-! ### A flush -/

section flush

variable {B : Build}

/-- The queue when a flush begins to send. -/
def SendQ.prepared (B : Build) (q : SendQ) (tick : ℤ) : SendQ :=
  ((q.entered B tick).tick B tick).sortFlight B

theorem startRound_view {q : SendQ} {scheduler : SendScheduler} (h : q.scheduler = some scheduler) :
    (q.startRound scheduler).view = q.burst := by
  simp [Round.view, Burst.schedule, SendQ.startRound, SendQ.schedule, SendQ.takeProbe, SendQ.burst, h]

theorem prepared_settled (q : SendQ) (tick : ℤ) : (q.prepared B tick).settled = q.settled := by
  obtain ⟨nextRetry, recovery, hentered⟩ := entered_eq B q tick
  refine (tick_sort_settled _).trans ?_
  rw [hentered]
  rfl

theorem prepared_scheduler (q : SendQ) (tick : ℤ) : (q.prepared B tick).scheduler = q.scheduler :=
  (congrArg SendQ.scheduler (prepared_settled q tick) :)

theorem prepared_packets (q : SendQ) (tick : ℤ) : (q.prepared B tick).packets = q.packets :=
  (congrArg SendQ.packets (prepared_settled q tick) :)

theorem prepared_bodies (q : SendQ) (tick : ℤ) : (q.prepared B tick).bodies.Perm q.bodies := by
  obtain ⟨nextRetry, recovery, hentered⟩ := entered_eq B q tick
  have hperm : (q.prepared B tick).bodies.Perm (q.entered B tick).bodies := tick_sort_bodies _
  rwa [hentered] at hperm

theorem prepared_length (B : Build) (q : SendQ) (tick : ℤ) :
    (q.prepared B tick).sentPacket.length = q.sentPacket.length := by
  rw [← length_bodies, (prepared_bodies q tick).length_eq, length_bodies]

/-- A flush ends with a burst: what it does after the last turn changes only the flag for
retransmissions and, if the scheduler was not made to stay, its place. -/
def Burst.Ends (s : Burst) (result : OutgoingFrames × SendQ) : Prop :=
  ∃ (retriesPending : Bool) (scheduler : Option SendScheduler),
    result = (s.output, { s.queue with retriesPending, scheduler }) ∧
    (scheduler = s.queue.scheduler ∨ s.queue.scheduler.map SendScheduler.persistent = some false)

theorem Burst.ends (s : Burst) : s.Ends (s.output, s.queue) :=
  ⟨s.queue.retriesPending, s.queue.scheduler, rfl, .inl rfl⟩

theorem Round.ends (r : Round) :
    r.view.Ends (r.burst.output, r.burst.queue.finish r.scheduler) := by
  refine ⟨_, _, rfl, ?_⟩
  cases hpersistent : r.scheduler.persistent with
  | true => exact .inl (if_pos rfl)
  | false => exact .inr (congrArg some hpersistent)

/-- **A flush is a sequence of turns** from the beginning of its burst. -/
theorem flush_sends (B : Build) (q : SendQ) (tick : ℤ) :
    ∃ s, Relation.ReflTransGen (Sends (q.prepared B tick).probeReplay tick)
      (q.prepared B tick).burst s ∧ s.Ends (q.flush B tick) := by
  obtain ⟨-, he⟩ | ⟨scheduler, hs, -, he⟩ := flush_cases B q tick <;> rw [he]
  · exact ⟨_, (resendAll_sends _).trans (sendLoop_sends _ _), Burst.ends _⟩
  · rw [← startRound_view ((prepared_scheduler q tick).trans hs)]
    exact ⟨_, rounds_sends _ _ _, Round.ends _⟩

end flush

end RustRaknet.Send
