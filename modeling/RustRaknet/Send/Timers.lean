import RustRaknet.Send.CachedFlush
import RustRaknet.Send.Lanes

/-! # The timers of every build

`recovery_deadline` is the time that the maintenance task sleeps to. It is made of `next_retry`, a
cache, and of the deadlines of a tail probe. The cache is right in every build and whatever is
configured (`caches_run`): what may bring a timeout forward, a new estimate of the round trip or an
acknowledgement that resets the backoff, sets it to 0. So before the deadline nothing times out and
a flush leaves the frames that are on their way alone (`Caches.nothing_due`).

As in the default build this is so for flushes at times from 0 on. -/

namespace RustRaknet.Send

open RustRaknet.Frame RustRaknet.Sequence RustRaknet.Lib.Result

/-! ### The deadline -/

namespace SendQ

/-- `SendQ::probe_retry_deadline`. -/
def probeRetryDeadline (q : SendQ) : ℤ := q.activeProbe.elim i64Max ProbeFallback.deadline

/-- `SendQ::recovery_deadline`. -/
def recoveryDeadline (q : SendQ) : ℤ :=
  if q.sentPacket.isEmpty then i64Max
  else min (min q.nextRetry q.probeDeadline) q.probeRetryDeadline

end SendQ

/-! ### The scan for timeouts -/

section scan

variable {B : Build} {q : SendQ} {tick : ℤ}

theorem Caches.expire (h : Caches q) (tick : ℤ) : Caches (q.expire B tick) := by
  have hcleared : Flags q.clearRetry := { h with }
  unfold SendQ.expire
  generalize (if B.recoveryPolicy then q.activeProbe else none) = probe
  have hscan := scan_caches hcleared probe tick
  simp only
  split_ifs
  · exact h
  · refine hscan.of_steady ?_
    exact ⟨.refl _, rfl, rfl, rfl, rfl⟩
  · exact hscan

theorem Caches.replay (h : Caches q) (first : InFlight) (r : Recovery) :
    Caches (q.replay first r) := by
  have hunsent : ∀ p ∈ (q.replay first r).sentPacket, p.sent = false := fun p hp => by
    obtain ⟨p', -, rfl⟩ := List.mem_map.mp hp
    rfl
  refine ⟨⟨fun _ _ _ => rfl, fun hd => (nomatch hd), h.rto, fun p hp hs => ?_⟩, fun p hp hs => ?_⟩
  all_goals exact absurd hs (by simp [hunsent p hp])

theorem Caches.timeouts (h : Caches q) (tick : ℤ) : Caches (q.tick B tick) := by
  have hprobe : Caches (q.probeTail tick) := by
    rcases probeTail_cases q tick with he | ⟨first, r, he, -⟩
    · rw [he]
      exact h
    · rw [he]
      exact h.replay first r
  unfold SendQ.tick
  split_ifs
  · exact hprobe.expire tick
  · exact h.expire tick

theorem Caches.sortFlight (h : Caches q) : Caches (q.sortFlight B) := by
  unfold SendQ.sortFlight
  split_ifs
  · have hmem : ∀ p, p ∈ B.sortByKey q.sentPacket → p ∈ q.sentPacket :=
      fun p hp => (B.sort_perm _).mem_iff.mp hp
    exact ⟨⟨fun p hp => h.pending p (hmem p hp), fun _ => B.sort_sorted _, h.rto,
      fun p hp => h.clock p (hmem p hp)⟩, fun p hp => h.retry p (hmem p hp)⟩
  · exact h

theorem Caches.entered (h : Caches q) (tick : ℤ) : Caches (q.entered B tick) := by
  unfold SendQ.entered SendQ.resetRecovery
  split_ifs with hB hempty
  · have hnil := List.isEmpty_iff.mp hempty
    refine ⟨{ h with }, fun p hp => ?_⟩
    exact absurd hp (by simp [hnil])
  · exact h
  · exact h

theorem Caches.prepared (h : Caches q) (tick : ℤ) : Caches (q.prepared B tick) :=
  ((h.entered tick).timeouts tick).sortFlight

end scan

/-! ### Bursts -/

section bursts

variable {B : Build} {q : SendQ} {tick : ℤ}

theorem Caches.sendLoop (htick : 0 ≤ tick) : ∀ (n : ℕ) {s : Burst}, Caches s.queue →
    Caches (Burst.sendLoop tick n s).queue
  | 0, _, h => h
  | n + 1, s, h => by
    unfold Burst.sendLoop
    cases hone : s.sendOne tick with
    | none => exact h
    | some s' => exact Caches.sendLoop htick n ((sendOne_alike h htick).2 s' hone)

theorem Caches.serves {r r' : Round} {probeSequence : Option ℕ} {lane charge : ℕ}
    (h : Caches r.burst.queue) (htick : 0 ≤ tick)
    (hserves : Round.Serves probeSequence tick r lane charge r') : Caches r'.burst.queue := by
  cases hserves with
  | @unreliable f rest hl =>
    unfold Round.sendUnreliable
    rw [hl]
    exact h.of_steady ⟨.refl _, rfl, rfl, rfl, rfl⟩
  | @retry i p hpending hwaits =>
    exact (h.resend htick probeSequence hwaits.1).of_steady ⟨.refl _, rfl, rfl, rfl, rfl⟩
  | @new lane f rest hlane hl hframes hbytes =>
    rw [Round.sendNew_eq hl]
    have hpopped : Caches (r.burst.pop rest).queue := h.of_steady ⟨.refl _, rfl, rfl, rfl, rfl⟩
    exact (hpopped.of_steady (assign_steady _ _ f)).launch htick _

/-- **A flush leaves the caches right.** -/
theorem Caches.flush (h : Caches q) (htick : 0 ≤ tick) : Caches (q.flush B tick).2 := by
  have hprepared := h.prepared (B := B) tick
  obtain ⟨-, hlegacy⟩ | ⟨s, hs, hpath, -⟩ := flush_cases B q tick
  · rw [hlegacy]
    exact Caches.sendLoop htick _ (resendAll_alike hprepared htick).1
  · obtain ⟨trace, r, hrun, he⟩ := scheduled_rounds (B := B) hs hpath tick
    rw [he]
    have hr : Caches r.burst.queue := by
      refine hrun.preserves (I := fun _ r => Caches r.burst.queue) (fun h => h) (fun lane h => ?_)
        (fun _ h _ hserves => h.serves htick hserves) [] ?_
      · unfold Round.advance
        split_ifs <;> exact h
      · exact hprepared.of_steady ⟨.refl _, rfl, rfl, rfl, rfl⟩
    refine { hr with pending := fun p hp hs => ?_ }
    exact List.any_eq_true.mpr ⟨p, hp, by simp [hs]⟩

end bursts

/-! ### Runs -/

theorem setSendOptions_steady {q q' : SendQ} {options : SendOptions}
    (h : q.setSendOptions options = .ok q') : Steady q q' := by
  unfold SendQ.setSendOptions at h
  split_ifs at h
  obtain rfl := Except.ok.inj h
  unfold SendQ.configure SendQ.ensureScheduler
  split <;> exact ⟨.refl _, rfl, rfl, rfl, rfl⟩

theorem Caches.step {B : Build} {r : Run} (h : Caches r.queue) {op : Op}
    (htick : ∀ tick, op = .flush tick → 0 ≤ tick) : Caches (r.step B op).queue := by
  cases op with
  | insert m => exact Run.insert_cases (fun q' hq => h.of_steady (insertPayload_steady hq)) h
  | flush tick => exact h.flush (htick tick rfl)
  | ack sequence tick => exact ack_caches sequence tick h
  | ackRanges ranges tick => exact ackRangesInner_caches _ ranges tick h
  | nack sequence tick => exact (ackRule_caches (B := B)).nack r.queue sequence h
  | nackRanges ranges tick => exact (ackRule_caches (B := B)).nackRanges r.queue ranges h
  | enableCoalescing => exact h.of_steady ⟨.refl _, rfl, rfl, rfl, rfl⟩
  | setSendOptions options =>
    exact Run.setSendOptions_cases (fun q' _ hq => h.of_steady (setSendOptions_steady hq)) h
  | setRecoveryOptions options now =>
    exact Run.setRecoveryOptions_cases (fun _ => h.of_steady ⟨.refl _, rfl, rfl, rfl, rfl⟩) h

/-- **The caches are right after every run of every build.** -/
theorem caches_run (B : Build) (mtu : Fin 65536) (ops : List Op)
    (hticks : ∀ tick, Op.flush tick ∈ ops → 0 ≤ tick) : Caches (run B mtu ops).queue := by
  induction ops using List.reverseRecOn with
  | nil => exact caches_new mtu
  | append_singleton ops op ih =>
    rw [run_append]
    exact (ih fun tick ht => hticks tick (by simp [ht])).step
      fun tick he => hticks tick (by simp [he])

theorem Caches.recoveryDeadline_le {q : SendQ} (h : Caches q) {p : InFlight} (hp : p ∈ q.sentPacket)
    (hs : p.sent = true) : q.recoveryDeadline ≤ p.deadline q.rto := by
  unfold SendQ.recoveryDeadline
  rw [if_neg (by simpa using List.ne_nil_of_mem hp)]
  exact ((min_le_left _ _).trans (min_le_left _ _)).trans (h.retry p hp hs)

/-- **Before the deadline nothing is due**: no frame on its way has timed out, no probe starts or
ends, and `tick` leaves the queue as it is. -/
theorem Caches.nothing_due {B : Build} (hB : B.recoveryPolicy = true) {q : SendQ} (h : Caches q)
    {tick : ℤ} (hdue : tick < q.recoveryDeadline) :
    (∀ p ∈ q.sentPacket, p.sent = true → tick < p.deadline q.rto) ∧
      (q.sentPacket ≠ [] → q.tick B tick = q) := by
  unfold SendQ.recoveryDeadline at hdue
  split_ifs at hdue with hempty
  · have hnil := List.isEmpty_iff.mp hempty
    simp [hnil]
  obtain ⟨hretry, hprobe, hactive⟩ : tick < q.nextRetry ∧ tick < q.probeDeadline ∧
      tick < q.probeRetryDeadline := by
    simpa [and_assoc] using hdue
  refine ⟨fun p hp hs => hretry.trans_le (h.retry p hp hs), fun _ => ?_⟩
  have hexpire : q.expire B tick = q := by
    unfold SendQ.expire
    rw [if_pos hB]
    exact if_pos (lt_min hretry hactive)
  unfold SendQ.tick
  split_ifs
  · rw [show q.probeTail tick = q from if_pos (.inr (.inl hprobe)), hexpire]
  · exact hexpire

/-! ### Insertions -/

section insertion

variable {B : Build} {q q' : SendQ}

/-- The flight and its timers are as before, and what waits behind it still does. -/
structure Behind (q q' : SendQ) : Prop where
  sentPacket : q'.sentPacket = q.sentPacket
  nextRetry : q'.nextRetry = q.nextRetry
  recovery : q'.recovery = q.recovery
  srtt : q'.srtt = q.srtt
  packets : q'.packets = [] → q.packets = []
  scheduler : ∀ bytes, (q.scheduler.any fun s => !s.unreliable.isEmpty ||
      decide (s.options.flushBytes < bytes)) = true →
    (q'.scheduler.any fun s => !s.unreliable.isEmpty ||
      decide (s.options.flushBytes < bytes)) = true

theorem Behind.refl (q : SendQ) : Behind q q := ⟨rfl, rfl, rfl, rfl, id, fun _ => id⟩

theorem Behind.trans {q'' : SendQ} (h : Behind q q') (h' : Behind q' q'') : Behind q q'' where
  sentPacket := h'.sentPacket.trans h.sentPacket
  nextRetry := h'.nextRetry.trans h.nextRetry
  recovery := h'.recovery.trans h.recovery
  srtt := h'.srtt.trans h.srtt
  packets := h.packets ∘ h'.packets
  scheduler bytes := h'.scheduler bytes ∘ h.scheduler bytes

theorem pushReliable_behind (q : SendQ) (frame : FrameSetPacket) :
    Behind q (q.pushReliable frame) :=
  ⟨rfl, rfl, rfl, rfl, fun h => by simp [SendQ.pushReliable] at h, fun _ => id⟩

theorem pushUnreliable_behind (q : SendQ) (frame : FrameSetPacket) :
    Behind q (q.pushUnreliable B frame) := by
  unfold SendQ.pushUnreliable
  simp only
  split_ifs
  · split
    · exact ⟨rfl, rfl, rfl, rfl, id, fun _ _ => by simp⟩
    · exact ⟨rfl, rfl, rfl, rfl, fun h => by simp at h, fun _ => id⟩
  · exact ⟨rfl, rfl, rfl, rfl, fun h => by simp at h, fun _ => id⟩

theorem insertPayload_behind {m : Message} (h : q.insertPayload B m = .ok q') : Behind q q' := by
  have hrule : PushRule B Behind := ⟨.trans, pushUnreliable_behind, pushReliable_behind,
    fun _ _ => ⟨rfl, rfl, rfl, rfl, id, fun _ => id⟩, fun _ _ => ⟨rfl, rfl, rfl, rfl, id, fun _ => id⟩,
    fun _ _ => ⟨rfl, rfl, rfl, rfl, id, fun _ => id⟩, fun _ => ⟨rfl, rfl, rfl, rfl, id, fun _ => id⟩⟩
  exact hrule.insert (fun _ _ => ⟨rfl, rfl, rfl, rfl, id, fun _ => id⟩) h

/-- A probe waits for a tail: behind one, its deadline is as before; else there is none. -/
theorem Behind.probeDeadline (h : Behind q q') : q.probeDeadline ≤ q'.probeDeadline := by
  have hmax : q.probeDeadline ≤ i64Max := by
    unfold SendQ.probeDeadline
    split
    · exact le_refl _
    · split
      · exact le_refl _
      · exact le_refl _
      · simp only
        split_ifs
        all_goals first | exact le_refl _ | exact max_le (by decide) (min_le_left _ _)
  by_cases hnone : q'.probeDeadline = i64Max
  · rwa [hnone]
  refine le_of_eq ?_
  have hpackets := h.packets
  have hscheduler := h.scheduler (q.sentPacket.map fun p => p.packet.size).sum
  unfold SendQ.probeDeadline at hnone ⊢
  rw [h.recovery, h.sentPacket, h.srtt] at hnone ⊢
  cases hr : q.recovery with
  | none => rfl
  | some r =>
    simp only [hr] at hnone ⊢
    split at hnone
    · exact absurd rfl hnone
    · exact absurd rfl hnone
    · next delay first rest hdelay hflight =>
      simp only [hflight] at hnone hscheduler ⊢
      split_ifs at hnone with hsampled htail hfirst hidle
      all_goals try exact absurd rfl hnone
      -- `q'` is a tail, so `q` is one
      have htail' : ¬ (!q.packets.isEmpty || decide (maxCoalescedFrames < (first :: rest).length)) =
          true := by
        simp only [Bool.or_eq_true, not_or, Bool.not_eq_true, Bool.not_eq_false',
          List.isEmpty_iff] at htail ⊢
        exact ⟨hpackets htail.1, htail.2⟩
      rw [if_neg hsampled, if_neg htail', if_neg hfirst, if_neg (mt hscheduler hidle),
        if_neg hsampled, if_neg htail, if_neg hfirst, if_neg hidle]

/-- **A message that waits brings no timer forward.** -/
theorem Behind.recoveryDeadline (h : Behind q q') : q.recoveryDeadline ≤ q'.recoveryDeadline := by
  have hactive : q'.probeRetryDeadline = q.probeRetryDeadline := by
    unfold SendQ.probeRetryDeadline SendQ.activeProbe
    rw [h.recovery, h.sentPacket]
  unfold SendQ.recoveryDeadline
  rw [h.sentPacket, h.nextRetry, hactive]
  split_ifs
  · exact le_refl _
  · exact min_le_min_right _ (min_le_min_left _ h.probeDeadline)

end insertion

end RustRaknet.Send
