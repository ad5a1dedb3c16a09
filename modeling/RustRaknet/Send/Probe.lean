import RustRaknet.Send.Plain

/-! # Tail probes

A tail probe repeats the last datagram of a connection before its timeout. It changes nothing else:
run with and without it, the queue has the same frames under way, with the same counts of retries
and due at the same times, and sends the same frames at the same times, but for the one burst of the
probe, in which it would have sent nothing (`tail_probe_transparent`). In a build with `send-policy`
the same holds without send options, up to the numbers of the frames that wait, and from any state
on (`probes_undisturbing`). It does not hold for a frame that is 2^24 numbers old or when the clock
goes back (`probe_hastens_retry`). -/

namespace RustRaknet.Send

open RustRaknet.Frame RustRaknet.Sequence RustRaknet.Lib.Machine RustRaknet.Lib.Result Ledger

section flush

variable {B : Build} {tick now : ℤ} {q : SendQ}

/-! ### A flush without a probe -/

/-- The queue between two operations, when the last flush was at `now`. -/
structure Poised (B : Build) (now : ℤ) (q : SendQ) : Prop where
  wf : Wf B q
  caches : Caches q
  numbered : ∀ p ∈ q.sentPacket, p.Numbered q.allocated
  timed : q.deck.Timed now
  replay : q.probeReplay = none
  backed : Backed q.allocated q

theorem Backed.takeProbe {a : ℕ} (h : Backed a q) : Backed a q.takeProbe := by
  refine ⟨fun r probe hr hpending => ?_⟩
  obtain ⟨r', hr', rfl⟩ := Option.map_eq_some_iff.mp hr
  exact h.probe r' probe hr' hpending

/-- What is left of the recovery when a flush begins: all of it, unless the flight was retired. -/
theorem entered_recovery_of {r' : Recovery} (h : (q.entered B tick).recovery = some r') :
    ∃ r, q.recovery = some r ∧ (r' = r ∨ q.sentPacket = [] ∧ r' = { r with
      lastProgress := tick, probed := false, pendingProbe := none, probeReplay := none }) := by
  unfold SendQ.entered SendQ.resetRecovery at h
  split_ifs at h with hB hempty
  · simp only at h
    cases hq : q.recovery with
    | none =>
      rw [hq] at h
      cases h
    | some r =>
      rw [hq] at h
      simp only at h
      split_ifs at h
      exact ⟨r, rfl, .inr ⟨List.isEmpty_iff.mp hempty, (Option.some.inj h).symm⟩⟩
  · exact ⟨r', h, .inl rfl⟩
  · exact ⟨r', h, .inl rfl⟩

theorem expire_recovery_of {r' : Recovery} (h : (q.expire B tick).recovery = some r') :
    ∃ r, q.recovery = some r ∧ (r' = r ∨ r' = { r with pendingProbe := none }) := by
  have hrule : TickRule fun q q' : SendQ => ∀ r', q'.recovery = some r' →
      ∃ r, q.recovery = some r ∧ (r' = r ∨ r' = { r with pendingProbe := none }) := {
    refl _ r hr := ⟨r, hr, .inl rfl⟩
    trans h h' r'' hr'' := by
      obtain ⟨r', hr', h₂⟩ := h' r'' hr''
      obtain ⟨r, hr, h₁⟩ := h r' hr'
      refine ⟨r, hr, ?_⟩
      rcases h₁ with rfl | rfl
      · exact h₂
      · exact .inr (h₂.elim id id)
    reissue _ _ _ r hr := ⟨r, hr, .inl rfl⟩
    clock _ _ r hr := ⟨r, hr, .inl rfl⟩
    dropProbe _ r' hr' := by
      obtain ⟨r, hr, rfl⟩ := Option.map_eq_some_iff.mp hr'
      exact ⟨r, hr, .inr rfl⟩ }
  exact hrule.expire B q tick r' h

theorem probeReplay_eq_none :
    q.probeReplay = none ↔ ∀ r, q.recovery = some r → r.probeReplay = none := Option.bind_eq_none_iff

theorem Backed.entered {a : ℕ} (h : Backed a q) : Backed a (q.entered B tick) := by
  refine ⟨fun r' probe hr' hpending => ?_⟩
  obtain ⟨nextRetry, recovery, hentered⟩ := entered_eq B q tick
  obtain ⟨r, hr, rfl | ⟨-, rfl⟩⟩ := entered_recovery_of hr'
  · rw [hentered]
    exact h.probe r' probe hr hpending
  · cases hpending

theorem sortFlight_recovery (q : SendQ) : (q.sortFlight B).recovery = q.recovery := by
  unfold SendQ.sortFlight
  split_ifs <;> rfl

theorem sortFlight_allocated (q : SendQ) : (q.sortFlight B).allocated = q.allocated := by
  unfold SendQ.sortFlight
  split_ifs <;> rfl

theorem Poised.entered (h : Poised B now q) (hwindow : q.Windowed) (tick : ℤ) :
    (q.entered B tick).sentPacket = q.sentPacket ∧
      (q.entered B tick).allocated = q.allocated ∧ Caches (q.entered B tick) ∧
      (∀ p ∈ (q.entered B tick).sentPacket, p.Numbered (q.entered B tick).allocated) ∧
      (q.entered B tick).Windowed := by
  obtain ⟨nextRetry, recovery, hentered⟩ := entered_eq B q tick
  have hflight : (q.entered B tick).sentPacket = q.sentPacket := by rw [hentered]
  have hallocated : (q.entered B tick).allocated = q.allocated := by rw [hentered]
  refine ⟨hflight, hallocated, h.caches.entered tick, ?_, ?_⟩
  · rw [hflight, hallocated]
    exact h.numbered
  · unfold SendQ.Windowed
    rw [hflight, hallocated]
    exact hwindow

theorem flush_unscheduled (hs : q.scheduler = none) :
    q.flush B tick = (q.entered B tick).flushLegacy B tick := flush_legacy (by rw [hs]; rfl)

/-- **A flush that starts no probe** is a flush of the plain queue. -/
theorem flush_plain (hB : B.recoveryPolicy = true) (hs : q.scheduler = none)
    (h : Poised B now q) (hwindow : q.Windowed) (hnow : now ≤ tick) (htick : tick < i64Max)
    (hquiet : (q.entered B tick).tick B tick = (q.entered B tick).expire B tick) :
    (bodies (q.flush B tick).1.frames, (q.flush B tick).2.plain) = q.plain.flush tick ∧
      Backed (q.flush B tick).2.allocated (q.flush B tick).2 := by
  obtain ⟨hflight, hallocated, hcaches, hnumbered, hwindow'⟩ := h.entered hwindow tick
  have hbacked : Backed q.allocated (q.entered B tick) := h.backed.entered
  obtain ⟨hplain, hexpired, hgrown⟩ :=
    expire_plain hB hbacked hallocated.ge hcaches hnumbered hwindow' htick
  -- the queue in which the burst begins
  have hprepared : q.prepared B tick = ((q.entered B tick).expire B tick).sortFlight B := by
    unfold SendQ.prepared
    rw [hquiet]
  have hstart : (q.prepared B tick).plain = q.plain.expire tick := by
    rw [hprepared, sortFlight_plain, hplain, entered_plain]
  have hbacked' : Backed q.allocated (q.prepared B tick) := by
    rw [hprepared]
    exact hexpired.perm (sortFlight_recovery _) (congrArg SendQ.rto (sortFlight_settled _) :)
      (sortFlight_perm _)
  have hreplay : (q.prepared B tick).probeReplay = none := by
    rw [hprepared, probeReplay_of_recovery (sortFlight_recovery _)]
    refine probeReplay_eq_none.mpr fun r hr => ?_
    obtain ⟨r', hr', rfl | rfl⟩ := expire_recovery_of hr
    all_goals
      obtain ⟨r₀, hr₀, rfl | ⟨-, rfl⟩⟩ := entered_recovery_of hr'
      · have hnone := probeReplay_eq_none.mp h.replay _ hr₀
        exact hnone
      · rfl
  have hab : q.allocated ≤ (q.prepared B tick).allocated := by
    rw [hprepared, sortFlight_allocated]
    exact hallocated.ge.trans hgrown
  have htiming := prepared_timing (B := B) h.timed hnow
  -- the burst
  obtain ⟨hresent, htiming'⟩ := Backed.burst (s := (q.prepared B tick).burst) hbacked'.takeProbe
    htiming hab (resendAll_sends (q.prepared B tick))
  obtain ⟨hplain', hlost⟩ := resendAll_plain (h.caches.prepared tick).toFlags hbacked' hresent hreplay
  have hloop : Relation.ReflTransGen (Sends none tick) _ _ :=
    sendLoop_sends ((q.prepared B tick).resendAll tick).queue.packets.length
      ((q.prepared B tick).resendAll tick)
  obtain ⟨hdone, hend⟩ := hresent.burst htiming' hab hloop
  have hflush : q.flush B tick =
      ((((q.prepared B tick).resendAll tick).sendLoop tick
          ((q.prepared B tick).resendAll tick).queue.packets.length).output,
        (((q.prepared B tick).resendAll tick).sendLoop tick
          ((q.prepared B tick).resendAll tick).queue.packets.length).queue) := flush_unscheduled hs
  rw [hflush]
  refine ⟨?_, hdone.mono (hab.trans hend.begun)⟩
  have hpackets : ((q.prepared B tick).resendAll tick).queue.packets = q.plain.queue.packets := by
    have hq : ((q.prepared B tick).resendAll tick).queue.plain.queue.packets =
        ((q.plain.expire tick).resend tick).queue.packets := by rw [hplain', hstart]
    refine hq.trans ?_
    unfold Plain.resend Plain.expire
    simp only
    split_ifs <;> rfl
  unfold Plain.flush
  rw [← hstart, ← hplain', ← hlost, sendLoop_plain, hpackets]

/-! ### A flush with a probe -/

/-- A flush at `now` repeats the flight: it is one datagram that was sent once, it has not timed out,
and it was not repeated before. -/
structure Probes (q : SendQ) (now : ℤ) (first : InFlight) (r : Recovery) : Prop where
  recovery : q.recovery = some r
  head : first ∈ q.sentPacket
  tail : Tail q first
  early : now < q.nextRetry
  once : ∀ p ∈ q.sentPacket, p.retries = 0
  unprobed : r.probed = false
  wanted : r.options.tailProbeMinDelay ≠ none

theorem probes_of_deadline {first : InFlight} {rest : List InFlight} {r : Recovery}
    (hflight : q.sentPacket = first :: rest) (hr : q.recovery = some r)
    (h : q.probeDeadline ≠ i64Max) (hearly : now < q.nextRetry) : Probes q now first r := by
  have htail := tail_of_deadline hflight h
  unfold SendQ.probeDeadline at h
  rw [hr] at h
  simp only [hflight] at h
  cases hdelay : r.options.tailProbeMinDelay with
  | none =>
    rw [hdelay] at h
    exact absurd rfl h
  | some delay =>
    simp only [hdelay] at h
    split_ifs at h with h1 h2 h3 h4
    any_goals exact absurd rfl h
    rw [Bool.not_eq_true, Bool.or_eq_false_iff] at h1
    refine ⟨hr, by simp [hflight], htail, hearly, fun p hp => ?_, h1.2, by simp [hdelay]⟩
    rw [← hflight] at h3
    have hp' := (List.any_eq_false.mp (Bool.not_eq_true _ ▸ h3)) p hp
    simp only [Bool.or_eq_true, not_or, bne_iff_ne, ne_eq, not_not] at hp'
    exact hp'.1.1.2

theorem probeTail_replay (q : SendQ) (now : ℤ) :
    q.probeTail now = q ∨ ∃ first r, q.recovery = some r ∧ q.probeTail now = q.replay first r := by
  unfold SendQ.probeTail
  simp only
  split_ifs
  · exact .inl rfl
  · split
    · next first rest r hflight hr => exact .inr ⟨first, r, hr, rfl⟩
    · exact .inl rfl

theorem tick_probes (hB : B.recoveryPolicy = true) (q : SendQ) (tick : ℤ) :
    q.tick B tick = q.expire B tick ∨
      ∃ first r, Probes q tick first r ∧ q.tick B tick = (q.replay first r).expire B tick := by
  unfold SendQ.tick
  rw [hB, Bool.true_and]
  split_ifs with hsome
  · unfold SendQ.probeTail
    simp only
    split_ifs with hwait
    · exact .inl rfl
    · push Not at hwait
      split
      · next first rest r hflight hr =>
        exact .inr ⟨first, r, probes_of_deadline hflight hr hwait.1 hwait.2.2, rfl⟩
      · exact .inl rfl
  · exact .inl rfl

/-- Frames that wait do not time out, and a fallback in the future stays. -/
theorem expire_waiting (hunsent : ∀ p ∈ q.sentPacket, p.sent = false)
    (hlater : ∀ probe, q.activeProbe = some probe → tick < probe.deadline) :
    q.expire B tick = q ∨ q.expire B tick = q.clearRetry := by
  unfold SendQ.expire
  simp only [scan_unsent (q := q.clearRetry) hunsent]
  have hkeep : ((if B.recoveryPolicy = true then q.activeProbe else none).any fun probe =>
      decide (probe.deadline ≤ tick)) = false := by
    split_ifs
    · cases hprobe : q.activeProbe with
      | none => rfl
      | some probe => exact decide_eq_false (not_le.mpr (hlater probe hprobe))
    · rfl
  rw [hkeep, if_neg Bool.false_ne_true]
  generalize (if B.recoveryPolicy = true then q.activeProbe else none) = probe
  split_ifs
  · exact .inl rfl
  · exact .inr rfl

theorem activeProbe_pending {probe : ProbeFallback} (h : q.activeProbe = some probe) :
    ∃ r, q.recovery = some r ∧ r.pendingProbe = some probe := by
  unfold SendQ.activeProbe at h
  cases hr : q.recovery with
  | none =>
    rw [hr] at h
    cases h
  | some r =>
    rw [hr] at h
    exact ⟨r, rfl, (Option.filter_eq_some_iff.mp h).1⟩

theorem activeProbe_none (h : ∀ r, q.recovery = some r → r.pendingProbe = none) :
    q.activeProbe = none := by
  by_contra hsome
  obtain ⟨probe, hprobe⟩ := Option.ne_none_iff_exists'.mp hsome
  obtain ⟨r, hr, hpending⟩ := activeProbe_pending hprobe
  cases (h r hr).symm.trans hpending

/-- A frame of the flight once a probe has sent it. -/
def InFlight.probed (sequence d : ℕ) (tick : ℤ) (p : InFlight) : InFlight :=
  { p.renumber sequence d with sent := true, time := tick }

theorem saturatingAdd_mono {a b c : ℤ} (h : a ≤ b) : saturatingAdd a c ≤ saturatingAdd b c := by
  unfold saturatingAdd
  omega

/-- What a flush has done when it has sent a probe. -/
structure Replays (q : SendQ) (tick : ℤ) (first : InFlight) (r : Recovery)
    (result : OutgoingFrames × SendQ) : Prop where
  output : result.1.frames.Perm
    (q.sentPacket.map fun p => p.packet.numbered q.sequenceNumber q.allocated)
  flight : result.2.sentPacket.Perm
    (q.sentPacket.map (InFlight.probed q.sequenceNumber q.allocated tick))
  husk : result.2.husk = q.husk
  allocated : result.2.allocated = q.allocated + 1
  recovery : result.2.recovery = some { r with
    probed := true
    probePacked := false
    probeReplay := none
    pendingProbe := some ⟨q.sequenceNumber, first.timeout q.rto⟩ }

/-- **The flush of a probe** sends the whole flight once, and nothing else. -/
theorem flushLegacy_replays {first : InFlight} {r : Recovery} (h : Probes q tick first r)
    (hlater : tick < first.timeout q.rto)
    (hflags : Flags ((q.tick B tick).sortFlight B))
    (hstart : q.tick B tick = (q.replay first r).expire B tick) :
    Replays q tick first r (q.flushLegacy B tick) := by
  have hflight : (q.replay first r).sentPacket =
      q.sentPacket.map fun p => p.renumber q.sequenceNumber q.allocated := by
    refine List.map_congr_left fun p hp => ?_
    rw [← (h.tail.flight p hp).2.2]
    rfl
  have hunsent : ∀ p ∈ (q.replay first r).sentPacket, p.sent = false := by
    intro p hp
    rw [hflight] at hp
    obtain ⟨x, -, rfl⟩ := List.mem_map.mp hp
    rfl
  have hpending : ∀ probe, (q.replay first r).activeProbe = some probe → tick < probe.deadline := by
    intro probe hprobe
    obtain ⟨r', hr', hpending⟩ := activeProbe_pending hprobe
    rw [← Option.some.inj hr'] at hpending
    rw [← Option.some.inj hpending]
    exact hlater
  -- the queue in which the burst begins
  obtain ⟨nextRetry, hticked⟩ : ∃ nextRetry,
      q.tick B tick = { q.replay first r with nextRetry } := by
    rw [hstart]
    rcases expire_waiting (B := B) hunsent hpending with he | he
    · exact ⟨_, he⟩
    · exact ⟨_, he⟩
  have hperm := sortFlight_perm (B := B) (q.tick B tick)
  have hrecovery := sortFlight_recovery (B := B) (q.tick B tick)
  have hallocated := sortFlight_allocated (B := B) (q.tick B tick)
  have hhusk : ((q.tick B tick).sortFlight B).husk = q.husk := by
    unfold SendQ.sortFlight
    rw [hticked]
    split_ifs <;> rfl
  unfold SendQ.flushLegacy
  simp only
  generalize (q.tick B tick).sortFlight B = y at hperm hrecovery hallocated hhusk hflags
  obtain ⟨hresent, hframes, hrecovery', hhusk', hallocated'⟩ := resendAll_visits hflags tick
  rw [hticked] at hperm hrecovery hallocated
  have hperm : y.sentPacket.Perm
      (q.sentPacket.map fun p => p.renumber q.sequenceNumber q.allocated) := hflight ▸ hperm
  have hpackets : (y.resendAll tick).queue.packets = [] := by
    have hq : (y.resendAll tick).queue.packets = q.packets := by
      exact (congrArg SendQ.packets (hhusk'.trans hhusk) :)
    rw [hq, h.tail.packets]
  rw [hpackets]
  refine ⟨?_, ?_, hhusk'.trans hhusk, hallocated'.trans hallocated, ?_⟩
  · show (y.resendAll tick).output.frames.Perm _
    have hall : (y.sentPacket.filter fun p => !p.sent) = y.sentPacket := by
      refine List.filter_eq_self.mpr fun p hp => ?_
      obtain ⟨x, -, rfl⟩ := List.mem_map.mp (hperm.mem_iff.mp hp)
      rfl
    rw [hframes, hall]
    refine (hperm.map InFlight.packet).trans ?_
    rw [List.map_map]
    exact .refl _
  · show (y.resendAll tick).queue.sentPacket.Perm _
    have hreplay : y.probeReplay = some q.sequenceNumber := by
      rw [probeReplay_of_recovery hrecovery]
      rfl
    rw [hresent, hreplay]
    refine (hperm.map _).trans ?_
    rw [List.map_map]
    refine List.Perm.of_eq (List.map_congr_left fun p hp => ?_)
    show InFlight.afterResend (some q.sequenceNumber) tick (p.renumber q.sequenceNumber q.allocated) = _
    unfold InFlight.afterResend
    have hmine : some q.sequenceNumber = some (p.renumber q.sequenceNumber q.allocated).sequence := rfl
    rw [if_neg (by simp [InFlight.renumber]), if_pos hmine]
    rfl
  · show (y.resendAll tick).queue.recovery = _
    rw [hrecovery']
    show y.recovery.map _ = _
    rw [hrecovery]
    rfl

/-- **A flush that starts a probe** leaves the plain queue as it is, when the plain queue would send
nothing. -/
theorem flush_probe (hs : q.scheduler = none) (h : Poised B now q) (hwindow : q.Windowed)
    (hnow : now ≤ tick) (htick : tick < i64Max) {first : InFlight} {r : Recovery}
    (hprobes : Probes (q.entered B tick) tick first r)
    (hstart : (q.entered B tick).tick B tick = ((q.entered B tick).replay first r).expire B tick) :
    (q.flush B tick).2.plain = q.plain ∧ q.plain.flush tick = (0, q.plain) ∧
      (q.flush B tick).1.frames.Perm
        (q.sentPacket.map fun p => p.packet.numbered q.sequenceNumber q.allocated) ∧
      Backed (q.flush B tick).2.allocated (q.flush B tick).2 ∧
      ∃ r', (q.flush B tick).2.recovery = some r' ∧ r'.probed = true := by
  obtain ⟨hflight, hallocated, hcaches, hnumbered, hwindow'⟩ := h.entered hwindow tick
  have hplain : (q.entered B tick).plain = q.plain := entered_plain q
  have htimed : (q.entered B tick).deck.Timed now := by
    refine h.timed.subset (fun p hp => ?_) hallocated.ge
    rw [SendQ.deck, hflight] at hp
    exact hp
  have hnumber : (q.entered B tick).sequenceNumber = q.sequenceNumber := by
    obtain ⟨nextRetry, recovery, hentered⟩ := entered_eq B q tick
    rw [hentered]
  have hsequence : (q.entered B tick).sequenceNumber = (q.entered B tick).allocated % 16777216 := by
    rw [hnumber, hallocated]
    exact h.wf.numbered
  have hflags : Flags (((q.entered B tick).tick B tick).sortFlight B) :=
    (h.caches.prepared tick).toFlags
  rw [flush_unscheduled hs, ← hplain, ← hflight, ← hnumber, ← hallocated]
  generalize q.entered B tick = e at hprobes hstart hcaches hnumbered hwindow' htimed hsequence hflags
  have hsent : ∀ p ∈ e.sentPacket, p.sent = true := fun p hp => (hprobes.tail.flight p hp).1
  have hprevious : ∀ p ∈ e.sentPacket, p.previous = [] := fun p hp => (hprobes.tail.flight p hp).2.1
  -- the flight is one datagram, so its frames are due together
  have htime : ∀ p ∈ e.sentPacket, p.timeout e.rto = first.timeout e.rto := by
    intro p hp
    have hdatagram := datagram_eq hnumbered hwindow' hp hprobes.head (hprobes.tail.flight p hp).2.2
    unfold InFlight.timeout
    rw [htimed.together p hp first hprobes.head (hprevious p hp) (hprevious first hprobes.head)
      hdatagram, hprobes.once p hp, hprobes.once first hprobes.head]
  have hdue : ∀ p ∈ e.sentPacket, e.due p = first.timeout e.rto := by
    intro p hp
    rw [due_other fun probe _ => by simp [InFlight.isProbe, hprevious p hp], htime p hp]
  have hlater : tick < first.timeout e.rto :=
    early_timeout hcaches htick hprobes.early hprobes.head (hsent first hprobes.head)
  obtain ⟨houtput, hperm, hhusk, hgrown, hrecovery⟩ :=
    flushLegacy_replays hprobes hlater hflags hstart
  generalize e.flushLegacy B tick = z at houtput hperm hhusk hgrown hrecovery
  have hrto : z.2.rto = e.rto := (congrArg SendQ.rto hhusk :)
  have hmem : ∀ p' ∈ z.2.sentPacket, ∃ p ∈ e.sentPacket,
      p.probed e.sequenceNumber e.allocated tick = p' := fun p' hp' =>
    List.mem_map.mp (hperm.mem_iff.mp hp')
  have hmine : ∀ p ∈ e.sentPacket,
      (p.probed e.sequenceNumber e.allocated tick).isProbe e.sequenceNumber = true := by
    intro p hp
    have hretries : (p.probed e.sequenceNumber e.allocated tick).retries = 0 := hprobes.once p hp
    unfold InFlight.isProbe
    rw [hretries]
    simp [InFlight.probed, InFlight.renumber, QueuedFrame.numbered, pushPrevious]
  have hfallback : ∀ p ∈ e.sentPacket, first.timeout e.rto ≤
      (p.probed e.sequenceNumber e.allocated tick).timeout e.rto := by
    intro p hp
    have hretries : (p.probed e.sequenceNumber e.allocated tick).retries = first.retries :=
      (hprobes.once p hp).trans (hprobes.once first hprobes.head).symm
    unfold InFlight.timeout
    rw [hretries]
    exact saturatingAdd_mono
      ((htimed.clock first hprobes.head (hsent first hprobes.head)).trans hnow)
  have hbacked : Backed z.2.allocated z.2 := by
    refine ⟨fun r' probe hr' hpending => ?_⟩
    rw [hrecovery] at hr'
    obtain rfl := Option.some.inj hr'
    obtain rfl := Option.some.inj hpending
    refine ⟨e.allocated, by omega, hsequence, ⟨_, hperm.mem_iff.mpr
      (List.mem_map_of_mem hprobes.head), rfl⟩, fun p' hp' _ => ?_⟩
    obtain ⟨p, hp, rfl⟩ := hmem p' hp'
    rw [hrto]
    exact ⟨rfl, hmine p hp, hfallback p hp⟩
  have hactive : z.2.activeProbe = some ⟨e.sequenceNumber, first.timeout e.rto⟩ := by
    rw [hbacked.activeProbe, hrecovery]
    rfl
  refine ⟨?_, ?_, houtput, hbacked, _, hrecovery, rfl⟩
  · unfold SendQ.plain
    rw [hhusk, Multiset.coe_eq_coe.mpr (hperm.map z.2.underway), List.map_map]
    refine congrArg (fun l : List Underway => Plain.mk e.husk l) (List.map_congr_left fun p hp => ?_)
    show z.2.underway (p.probed e.sequenceNumber e.allocated tick) = e.underway p
    unfold SendQ.underway
    rw [due_probe hactive (hmine p hp), hrto, min_eq_right (hfallback p hp), hdue p hp, hsent p hp]
    rfl
  · exact flush_idle_plain hprobes.tail.packets hsent fun p hp => by
      rw [hdue p hp]
      exact hlater

/-! ### What a flush leaves of the recovery -/

/-- The options stay, and while frames are in flight a probe is not forgotten. -/
theorem prepared_recovery_of {r' : Recovery} (h : (q.prepared B tick).recovery = some r') :
    ∃ r, q.recovery = some r ∧ r'.options = r.options ∧
      (q.sentPacket ≠ [] → r.probed = true → r'.probed = true) := by
  unfold SendQ.prepared at h
  rw [sortFlight_recovery] at h
  unfold SendQ.tick at h
  obtain ⟨r₁, hr₁, hkept⟩ := expire_recovery_of h
  have hsame : r'.options = r₁.options ∧ r'.probed = r₁.probed := by
    rcases hkept with rfl | rfl <;> exact ⟨rfl, rfl⟩
  have htail : ∃ r₂, (q.entered B tick).recovery = some r₂ ∧ r₁.options = r₂.options ∧
      (r₂.probed = true → r₁.probed = true) := by
    split_ifs at hr₁
    · rcases probeTail_replay (q.entered B tick) tick with hp | ⟨first, r₂, hr₂, hp⟩
      · rw [hp] at hr₁
        exact ⟨r₁, hr₁, rfl, fun hp => hp⟩
      · rw [hp] at hr₁
        obtain rfl := Option.some.inj hr₁
        exact ⟨r₂, hr₂, rfl, fun _ => rfl⟩
    · exact ⟨r₁, hr₁, rfl, fun hp => hp⟩
  obtain ⟨r₂, hr₂, hoptions₂, hprobed₂⟩ := htail
  rw [hsame.1, hsame.2, hoptions₂]
  obtain ⟨r, hr, rfl | ⟨hnil, rfl⟩⟩ := entered_recovery_of hr₂
  · exact ⟨r₂, hr, rfl, fun _ => hprobed₂⟩
  · exact ⟨r, hr, rfl, fun hne => absurd hnil hne⟩

theorem flush_recovery_of {r' : Recovery} (h : (q.flush B tick).2.recovery = some r') :
    ∃ r, q.recovery = some r ∧ r'.options = r.options ∧
      (q.sentPacket ≠ [] → r.probed = true → r'.probed = true) := by
  obtain ⟨s, hsends, retriesPending, scheduler, hresult, -⟩ := flush_sends B q tick
  rw [hresult] at h
  have hburst : (q.prepared B tick).takeProbe.recovery = some r' :=
    (congrArg Prod.snd (sends_estimate hsends)).symm.trans h
  obtain ⟨r₁, hr₁, rfl⟩ := Option.map_eq_some_iff.mp hburst
  obtain ⟨r, hr, hoptions, hprobed⟩ := prepared_recovery_of hr₁
  exact ⟨r, hr, hoptions, hprobed⟩

theorem flush_pending (hquiet : (q.entered B tick).tick B tick = (q.entered B tick).expire B tick)
    (h : ∀ r, q.recovery = some r → r.pendingProbe = none) :
    ∀ r', (q.flush B tick).2.recovery = some r' → r'.pendingProbe = none := by
  intro r' hr'
  obtain ⟨s, hsends, retriesPending, scheduler, hresult, -⟩ := flush_sends B q tick
  rw [hresult] at hr'
  have hburst : (q.prepared B tick).takeProbe.recovery = some r' :=
    (congrArg Prod.snd (sends_estimate hsends)).symm.trans hr'
  obtain ⟨r₁, hr₁, rfl⟩ := Option.map_eq_some_iff.mp hburst
  unfold SendQ.prepared at hr₁
  rw [sortFlight_recovery, hquiet] at hr₁
  obtain ⟨r₂, hr₂, rfl | rfl⟩ := expire_recovery_of hr₁
  · obtain ⟨r, hr, rfl | ⟨-, rfl⟩⟩ := entered_recovery_of hr₂
    · have hnone := h _ hr
      exact hnone
    · rfl
  · rfl

/-- A flush does not empty the flight. -/
theorem flush_flight_ne_nil (h : q.sentPacket ≠ []) : (q.flush B tick).2.sentPacket ≠ [] := by
  obtain ⟨s, hsends, retriesPending, scheduler, hresult, -⟩ := flush_sends B q tick
  have hprepared : (q.prepared B tick).sentPacket ≠ [] := by
    rwa [← List.length_pos_iff, prepared_length, List.length_pos_iff]
  have hend : s.queue.sentPacket ≠ [] := by
    clear hresult
    induction hsends with
    | refl => exact hprepared
    | tail _ hstep ih =>
      cases hstep with
      | @resend i p hi hp =>
        intro hnil
        have hset : (List.set _ i _ : List InFlight).length = 0 := congrArg List.length hnil
        rw [List.length_set] at hset
        exact ih (List.length_eq_zero_iff.mp hset)
      | start | join | fresh => exact List.append_ne_nil_of_right_ne_nil _ (List.cons_ne_nil _ _)
      | emit | emitScheduled | rotate | turnTo | clear => exact ih
  rw [hresult]
  exact hend

end flush

/-! ### Runs in which nothing is heard -/

/-- What has been transmitted, and when, without the numbers. -/
def History.trace (h : History) : Multiset (ℤ × QueuedFrame) :=
  (h.transmissions.map fun e => (e.1, e.2.body) : List _)

/-- The frames of a burst at `tick`. -/
def burstAt (tick : ℤ) (frames : Multiset QueuedFrame) : Multiset (ℤ × QueuedFrame) :=
  frames.map fun f => (tick, f)

section silence

variable {B : Build} {V : SendQ → SendQ} {options : RecoveryOptions}
  {base : Plain × Multiset (ℤ × QueuedFrame)} {extra : Option (Multiset (ℤ × QueuedFrame))}
  {h : History} {tick now : ℤ}

theorem trace_flush (B : Build) (h : History) (tick : ℤ) :
    (h.step B (.flush tick)).trace =
      h.trace + burstAt tick (bodies (h.run.queue.flush B tick).1.frames) := by
  unfold History.trace History.step History.burst burstAt bodies
  simp only [List.map_append, List.map_map, ← Multiset.coe_add, Multiset.map_coe]
  rfl

/-- The run has done what the plain queue does, and sent `extra` besides if it has sent a probe. -/
structure Follows (V : SendQ → SendQ) (options : RecoveryOptions)
    (base : Plain × Multiset (ℤ × QueuedFrame)) (extra : Option (Multiset (ℤ × QueuedFrame)))
    (h : History) : Prop where
  plain : h.run.queue.plain.view V = base.1
  trace : h.trace = base.2 + extra.getD 0
  backed : Backed h.run.queue.allocated h.run.queue
  unscheduled : h.run.queue.scheduler = none
  options : ∀ r, h.run.queue.recovery = some r → r.options = options
  fresh : extra = none → ∀ r, h.run.queue.recovery = some r → r.pendingProbe = none
  spent : extra ≠ none → h.run.queue.sentPacket ≠ [] ∧
    ∀ r, h.run.queue.recovery = some r → r.probed = true

theorem unscheduled_of_given {q q' : SendQ} (h : q'.given.options = q.given.options)
    (hs : q.scheduler = none) : q'.scheduler = none :=
  Option.map_eq_none_iff.mp (h.trans (Option.map_eq_none_iff.mpr hs))

theorem unscheduled_of_wf {q : SendQ} (hw : Wf B q) (hpolicy : B.sendPolicy = false) :
    q.scheduler = none := by
  cases hs : q.scheduler with
  | none => rfl
  | some s => cases hpolicy.symm.trans (hw.scheduled s hs).1

/-- A message is accepted or refused as by the plain queue. -/
theorem Follows.insert (hview : View B V) (hf : Follows V options base extra h) (m : Message) :
    Follows V options (Plain.step V B base (.insert m)) extra (h.step B (.insert m)) := by
  have htrace : (h.step B (.insert m)).trace = h.trace := by
    unfold History.trace History.step History.burst
    rw [List.append_nil]
  have hbase := hview.insert h.run.queue m
  rw [hf.plain] at hbase
  have hstep : Plain.step V B base (.insert m) = (base.1.insert V B m, base.2) := rfl
  have hrun : (h.step B (.insert m)).run = h.run.step B (.insert m) := rfl
  rw [hstep, hbase]
  unfold Run.step at hrun
  cases hq : h.run.queue.insertPayload B m with
  | error e =>
    simp only [hq] at hrun
    refine ⟨?_, htrace ▸ hf.trace, ?_, ?_, ?_, ?_, ?_⟩ <;> rw [hrun]
    exacts [hf.plain, hf.backed, hf.unscheduled, hf.options, hf.fresh, hf.spent]
  | ok q =>
    simp only [hq] at hrun
    have hbehind := insertPayload_behind hq
    have hallocated := (insertPayload_fates hq).allocated_le
    have hgiven := congrArg Given.options (insertPayload_given hq)
    refine ⟨?_, htrace ▸ hf.trace, ?_, ?_, ?_, ?_, ?_⟩ <;> rw [hrun]
    · show Plain.mk (V q.husk) q.plain.flight = Plain.mk (V q.husk) base.1.flight
      rw [← hf.plain, insertPayload_plain hq]
      rfl
    · exact (hf.backed.perm hbehind.recovery (insertPayload_steady hq).rto
        (hbehind.sentPacket ▸ .refl _)).mono hallocated
    · exact unscheduled_of_given hgiven hf.unscheduled
    all_goals rw [hbehind.recovery]
    · exact hf.options
    · exact hf.fresh
    · rw [hbehind.sentPacket]
      exact hf.spent

theorem Follows.enableCoalescing (hview : View B V) (hf : Follows V options base extra h) :
    Follows V options (Plain.step V B base .enableCoalescing) extra (h.step B .enableCoalescing) := by
  have htrace : (h.step B .enableCoalescing).trace = h.trace := by
    unfold History.trace History.step History.burst
    rw [List.append_nil]
  refine ⟨?_, htrace ▸ hf.trace, hf.backed.perm rfl rfl (.refl _), hf.unscheduled, hf.options,
    hf.fresh, hf.spent⟩
  unfold Plain.step
  rw [← hf.plain]
  exact congrArg (Plain.mk · h.run.queue.plain.flight) (hview.enableCoalescing h.run.queue.husk)

theorem bodies_eq_zero {l : List QueuedFrame} : bodies l = 0 ↔ l = [] := by
  unfold bodies
  rw [Multiset.coe_eq_zero, List.map_eq_nil_iff]

theorem bodies_replayed (q : SendQ) :
    bodies (q.sentPacket.map fun p => p.packet.numbered q.sequenceNumber q.allocated) =
      bodies (q.sentPacket.map InFlight.packet) := by
  unfold bodies
  rw [List.map_map, List.map_map]
  rfl

/-- **A flush** does what the plain queue does, unless it repeats the flight under one new number
while the plain queue sends nothing; that happens once. -/
theorem Follows.flush (hB : B.recoveryPolicy = true) (hview : View B V)
    (hf : Follows V options base extra h) (hpoised : Poised B now h.run.queue)
    (hwindow : h.run.queue.Windowed) (hnow : now ≤ tick) (htick : tick < i64Max) :
    bodies (h.run.queue.flush B tick).1.frames = (base.1.flush tick).1 ∧
        Follows V options (Plain.step V B base (.flush tick)) extra (h.step B (.flush tick)) ∨
      extra = none ∧ options.tailProbeMinDelay ≠ none ∧ (base.1.flush tick).1 = 0 ∧
        (h.run.queue.flush B tick).1.frames.Perm (h.run.queue.sentPacket.map fun p =>
          p.packet.numbered h.run.queue.sequenceNumber h.run.queue.allocated) ∧
        Follows V options (Plain.step V B base (.flush tick))
          (some (burstAt tick (bodies (h.run.queue.sentPacket.map InFlight.packet))))
          (h.step B (.flush tick)) := by
  have hstep : Plain.step V B base (.flush tick) =
      ((base.1.flush tick).2, base.2 + burstAt tick (base.1.flush tick).1) := rfl
  have hbase : base.1.flush tick = ((h.run.queue.plain.flush tick).1,
      (h.run.queue.plain.flush tick).2.view V) := by
    rw [← hf.plain]
    exact hview.flush _ _
  have hoptions : ∀ r, (h.run.queue.flush B tick).2.recovery = some r → r.options = options := by
    intro r' hr'
    obtain ⟨r, hr, hsame, -⟩ := flush_recovery_of hr'
    exact hsame.trans (hf.options r hr)
  have hunscheduled : (h.run.queue.flush B tick).2.scheduler = none :=
    unscheduled_of_given (congrArg Given.options (flush_given hpoised.wf)) hf.unscheduled
  rcases tick_probes hB (h.run.queue.entered B tick) tick with hquiet | ⟨first, r, hprobes, hstart⟩
  · left
    obtain ⟨hplain, hbacked⟩ := flush_plain hB hf.unscheduled hpoised hwindow hnow htick hquiet
    rw [← hplain] at hbase
    refine ⟨(congrArg Prod.fst hbase).symm, ?_, ?_, hbacked, hunscheduled, hoptions,
      fun hextra => flush_pending hquiet (hf.fresh hextra), fun hextra => ?_⟩
    · exact (congrArg Prod.snd hbase).symm
    · rw [trace_flush, hf.trace, hstep, hbase]
      exact add_right_comm _ _ _
    · obtain ⟨hne, hprobed⟩ := hf.spent hextra
      refine ⟨flush_flight_ne_nil hne, fun r' hr' => ?_⟩
      obtain ⟨r, hr, -, hkept⟩ := flush_recovery_of hr'
      exact hkept hne (hprobed r hr)
  · right
    obtain ⟨hplain, hidle, houtput, hbacked, r', hr', hprobed'⟩ :=
      flush_probe hf.unscheduled hpoised hwindow hnow htick hprobes hstart
    rw [hidle, ← hplain] at hbase
    -- the flight is not empty, so the flush has begun with the recovery as it was
    have hflight : (h.run.queue.entered B tick).sentPacket = h.run.queue.sentPacket := by
      obtain ⟨nextRetry, recovery, hentered⟩ := entered_eq B h.run.queue tick
      rw [hentered]
    have hne : h.run.queue.sentPacket ≠ [] := fun hnil => by
      have := hprobes.head
      rw [hflight, hnil] at this
      cases this
    have hentered : h.run.queue.entered B tick = h.run.queue := by
      unfold SendQ.entered SendQ.resetRecovery
      rw [if_pos hB, if_neg (by simpa using hne)]
    have hrecovery : h.run.queue.recovery = some r := hentered ▸ hprobes.recovery
    have hfresh : extra = none := by
      by_contra hextra
      have := (hf.spent hextra).2 r hrecovery
      rw [hprobes.unprobed] at this
      cases this
    refine ⟨hfresh, ?_, by rw [hbase], houtput, ?_, ?_, hbacked, hunscheduled, hoptions,
      fun hextra => (by cases hextra), fun _ => ⟨?_, ?_⟩⟩
    · rw [← hf.options r hrecovery]
      exact hprobes.wanted
    · exact (congrArg Prod.snd hbase).symm
    · rw [trace_flush, hf.trace, hstep, hbase, hfresh, bodies_perm houtput, bodies_replayed]
      simp [burstAt]
    · exact flush_flight_ne_nil hne
    · intro r'' hr''
      have hsame : some r' = some r'' := hr'.symm.trans hr''
      exact Option.some.inj hsame ▸ hprobed'

/-- A run begins when the options of the recovery are set, with no probe under way. -/
theorem follows_start (hB : B.recoveryPolicy = true) (hs : h.run.queue.scheduler = none)
    (hclear : h.run.queue.activeProbe = none) (options : RecoveryOptions) (now : ℤ) :
    Follows V options (h.run.queue.plain.view V, h.trace) none
      (h.step B (.setRecoveryOptions options now)) := by
  have hqueue : (h.step B (.setRecoveryOptions options now)).run.queue =
      h.run.queue.setRecoveryOptions options now := by
    show (h.run.step B (.setRecoveryOptions options now)).queue = _
    unfold Run.step
    simp only [hB, if_true]
  have hset : ∀ r, (h.run.queue.setRecoveryOptions options now).recovery = some r →
      r.options = options ∧ r.pendingProbe = none := by
    intro r hr
    unfold SendQ.setRecoveryOptions at hr
    simp only [hclear] at hr
    split_ifs at hr
    rw [← Option.some.inj hr]
    exact ⟨rfl, rfl⟩
  have hactive : (h.run.queue.setRecoveryOptions options now).activeProbe = none :=
    activeProbe_none fun r hr => (hset r hr).2
  refine ⟨?_, ?_, ?_, ?_, ?_, fun _ => ?_, fun hne => absurd rfl hne⟩
  · rw [hqueue]
    exact congrArg (Plain.view V) (plain_congr rfl (hactive.trans hclear.symm) (.refl _))
  · show _ = h.trace + 0
    rw [add_zero]
    unfold History.trace History.step History.burst
    rw [List.append_nil]
  all_goals rw [hqueue]
  · refine ⟨fun r probe hr hpending => ?_⟩
    cases (hset r hr).2.symm.trans hpending
  · exact hs
  · exact fun r hr => (hset r hr).1
  · exact fun r hr => (hset r hr).2

end silence

section runs

variable {B : Build} {mtu : Fin 65536} {V : SendQ → SendQ} {start ops : List Op}
  {options : RecoveryOptions} {base : Plain × Multiset (ℤ × QueuedFrame)}

theorem poised_run {ops : List Op} (tick : ℤ) (hordered : (flushTicks ops).Pairwise (· ≤ ·))
    (hnonneg : ∀ tick ∈ flushTicks ops, 0 ≤ tick) (hbefore : ∀ t ∈ flushTicks ops, t ≤ tick)
    (hbacked : Backed (run B mtu ops).queue.allocated (run B mtu ops).queue) :
    Poised B tick (run B mtu ops).queue where
  wf := (run_steps B mtu ops).1
  caches := caches_run B mtu ops fun t ht => hnonneg t (mem_flushTicks.mpr ht)
  numbered := flight_numbered B mtu ops
  timed := timed_run B mtu tick hordered hbefore
  replay := probeReplay_run B mtu ops
  backed := hbacked

/-- A sender that hears nothing after `start`. -/
structure Silence (B : Build) (mtu : Fin 65536) (start ops : List Op) : Prop where
  silent : ∀ op ∈ ops, op.silent = true
  ordered : (flushTicks (start ++ ops)).Pairwise (· ≤ ·)
  clock : ∀ tick ∈ flushTicks (start ++ ops), 0 ≤ tick ∧ tick < i64Max
  window : ∀ before, before <+: ops → (run B mtu (start ++ before)).queue.Windowed

theorem Silence.of_prefix {before : List Op} (h : Silence B mtu start ops)
    (hbefore : before <+: ops) : Silence B mtu start before := by
  obtain ⟨after, rfl⟩ := hbefore
  obtain ⟨hsilent, hordered, hclock, hwindow⟩ := h
  rw [← List.append_assoc, flushTicks_append] at hordered hclock
  exact ⟨fun op hop => hsilent op (List.mem_append_left _ hop),
    (List.pairwise_append.mp hordered).1, fun t ht => hclock t (List.mem_append_left _ ht),
    fun b hb => hwindow b (hb.trans (List.prefix_append before after))⟩

/-- The frames that the flush at `tick` sends after `ops`. -/
abbrev sentBy (B : Build) (mtu : Fin 65536) (ops : List Op) (tick : ℤ) : List QueuedFrame :=
  ((run B mtu ops).queue.flush B tick).1.frames

/-- The plain queue after the given operations. -/
abbrev plainRun (V : SendQ → SendQ) (B : Build) (base : Plain × Multiset (ℤ × QueuedFrame))
    (ops : List Op) : Plain × Multiset (ℤ × QueuedFrame) := Lib.Machine.run (Plain.step V B) base ops

/-- Flush by flush, a run sends what the plain queue sends, but for its probe: the whole flight under
one new number, where the plain queue sends nothing. -/
structure Besides (V : SendQ → SendQ) (B : Build) (mtu : Fin 65536) (start : List Op)
    (options : RecoveryOptions) (base : Plain × Multiset (ℤ × QueuedFrame)) (ops : List Op)
    (probe : Option (List Op × ℤ)) : Prop where
  wanted : ∀ p ∈ probe, options.tailProbeMinDelay ≠ none ∧ p.1 ++ [.flush p.2] <+: ops
  same : ∀ before tick, before ++ [.flush tick] <+: ops → probe ≠ some (before, tick) →
    bodies (sentBy B mtu (start ++ before) tick) = ((plainRun V B base before).1.flush tick).1
  probe : ∀ before tick, probe = some (before, tick) →
    ((plainRun V B base before).1.flush tick).1 = 0 ∧
      (sentBy B mtu (start ++ before) tick).Perm
        ((run B mtu (start ++ before)).queue.sentPacket.map fun p => p.packet.numbered
          (run B mtu (start ++ before)).queue.sequenceNumber
          (run B mtu (start ++ before)).queue.allocated)

theorem Besides.eq_none {probe : Option (List Op × ℤ)}
    (h : Besides V B mtu start options base ops probe) (hoff : options.tailProbeMinDelay = none) :
    probe = none := by
  cases probe with
  | none => rfl
  | some p => exact absurd hoff (h.wanted p rfl).1

/-- What a run sends in its probe. -/
def probeBurst (B : Build) (mtu : Fin 65536) (start : List Op) (p : List Op × ℤ) :
    Multiset (ℤ × QueuedFrame) :=
  burstAt p.2 (bodies ((run B mtu (start ++ p.1)).queue.sentPacket.map InFlight.packet))

/-- **A sender that hears nothing does what the plain queue does**, but for one probe at most. -/
theorem silent_run (hB : B.recoveryPolicy = true) (hview : View B V)
    (hstart : Follows V options base none (history B mtu start)) (h : Silence B mtu start ops) :
    ∃ probe, Follows V options (plainRun V B base ops) (probe.map (probeBurst B mtu start))
      (history B mtu (start ++ ops)) ∧ Besides V B mtu start options base ops probe := by
  induction ops using List.reverseRecOn with
  | nil =>
    rw [List.append_nil]
    exact ⟨none, hstart, fun p hp => (by cases hp), fun before tick hb => by simp at hb,
      fun before tick hp => by cases hp⟩
  | append_singleton ops op ih =>
    obtain ⟨probe, hf, hbesides⟩ := ih (h.of_prefix (List.prefix_append ops [op]))
    rw [← List.append_assoc, history_append, plainRun, Lib.Machine.run_append]
    have hrun := history_run B mtu (start ++ ops)
    have hop : op.silent = true := h.silent op (List.mem_append_right _ List.mem_cons_self)
    -- what is said of the flushes before this operation stays true
    have hkept : (∀ tick, op = .flush tick → probe ≠ some (ops, tick) →
          bodies (sentBy B mtu (start ++ ops) tick) = ((plainRun V B base ops).1.flush tick).1) →
        Besides V B mtu start options base (ops ++ [op]) probe := by
      intro hlast
      refine ⟨fun p hp => ⟨(hbesides.wanted p hp).1,
        (hbesides.wanted p hp).2.trans (List.prefix_append ops [op])⟩, fun before tick hb hne => ?_,
        hbesides.probe⟩
      rcases List.prefix_concat_iff.mp hb with heq | hb
      · obtain ⟨rfl, hop⟩ := List.append_inj' heq rfl
        exact hlast tick (List.singleton_inj.mp hop).symm hne
      · exact hbesides.same before tick hb hne
    cases op with
    | insert m => exact ⟨probe, hf.insert hview m, hkept fun tick he => by cases he⟩
    | enableCoalescing =>
      exact ⟨probe, hf.enableCoalescing hview, hkept fun tick he => by cases he⟩
    | flush tick =>
      have htick : tick ∈ flushTicks [.flush tick] := mem_flushTicks.mpr List.mem_cons_self
      have hordered := h.ordered
      have hclock := h.clock
      rw [← List.append_assoc, flushTicks_append] at hordered hclock
      obtain ⟨hearlier, -, hlast⟩ := List.pairwise_append.mp hordered
      have hpoised : Poised B tick (run B mtu (start ++ ops)).queue := by
        refine poised_run tick hearlier (fun t ht => ?_) (fun t ht => ?_) (hrun ▸ hf.backed)
        · exact (hclock t (List.mem_append_left _ ht)).1
        · exact hlast t ht tick htick
      rcases hf.flush hB hview (hrun ▸ hpoised) (hrun ▸ h.window ops (List.prefix_append ops _))
        le_rfl (hclock tick (List.mem_append_right _ htick)).2 with
        ⟨hsame, hquiet⟩ | ⟨hnone, hwanted, hidle, houtput, hprobe⟩
      · rw [hrun] at hsame
        refine ⟨probe, hquiet, hkept fun t ht _ => ?_⟩
        cases ht
        exact hsame
      · rw [hrun] at hprobe houtput
        obtain rfl := Option.map_eq_none_iff.mp hnone
        refine ⟨some (ops, tick), hprobe, fun p hp => ?_, fun before t hb hne => ?_,
          fun before t hp => ?_⟩
        · cases hp
          exact ⟨hwanted, List.prefix_rfl⟩
        · rcases List.prefix_concat_iff.mp hb with heq | hb
          · obtain ⟨rfl, hop⟩ := List.append_inj' heq rfl
            cases hop
            exact absurd rfl hne
          · exact hbesides.same before t hb (by simp)
        · cases hp
          exact ⟨hidle, houtput⟩
    | _ => cases hop

end runs

theorem flushTicks_set (pre ops : List Op) (options : RecoveryOptions) (now : ℤ) :
    flushTicks (pre ++ [.setRecoveryOptions options now] ++ ops) = flushTicks (pre ++ ops) := by
  rw [flushTicks_append, flushTicks_append, flushTicks_append]
  exact congrArg (· ++ flushTicks ops) (List.append_nil _)

/-- A run that sets the options of the recovery after `pre` and hears nothing any more. -/
def probing (pre : List Op) (options : RecoveryOptions) (now : ℤ) (ops : List Op) : List Op :=
  pre ++ .setRecoveryOptions options now :: ops

/-- **A tail probe changes nothing but its own burst.** From any state without a probe under way, run
a sender that hears nothing with and without the tail probe. At the end the same frames wait, and the
same frames are under way, sent again as often and due at the same times. The same frames were sent
at the same times, except that one flush may have repeated the whole flight once; in that flush the
sender without the probe sends nothing. -/
theorem tail_probe_transparent (B : Build) (hB : B.recoveryPolicy = true)
    (hpolicy : B.sendPolicy = false) (mtu : Fin 65536) (pre ops : List Op)
    (options : RecoveryOptions) (now : ℤ) (hclear : (run B mtu pre).queue.activeProbe = none)
    (hsilent : ∀ op ∈ ops, op.silent = true)
    (hordered : (flushTicks (pre ++ ops)).Pairwise (· ≤ ·))
    (hclock : ∀ tick ∈ flushTicks (pre ++ ops), 0 ≤ tick ∧ tick < i64Max)
    (hwindow : ∀ o ∈ [options, { options with tailProbeMinDelay := none }], ∀ before, before <+: ops →
      (run B mtu (probing pre o now before)).queue.Windowed) :
    let on := probing pre options now
    let off := probing pre { options with tailProbeMinDelay := none } now
    (run B mtu (on ops)).queue.plain = (run B mtu (off ops)).queue.plain ∧
    ((history B mtu (on ops)).trace = (history B mtu (off ops)).trace ∨
      ∃ before tick, before ++ [.flush tick] <+: ops ∧
        ((run B mtu (off before)).queue.flush B tick).1.frames = [] ∧
        (history B mtu (on ops)).trace = (history B mtu (off ops)).trace +
          burstAt tick (bodies ((run B mtu (on before)).queue.sentPacket.map InFlight.packet))) := by
  intro on off
  have hprobing : ∀ o before, probing pre o now before =
      (pre ++ [.setRecoveryOptions o now]) ++ before := fun o before => by simp [probing]
  have hrun : ∀ o ∈ [options, { options with tailProbeMinDelay := none }],
      let base := ((run B mtu pre).queue.plain, (history B mtu pre).trace)
      ∃ probe, Follows id o (plainRun id B base ops)
          (probe.map (probeBurst B mtu (pre ++ [.setRecoveryOptions o now])))
          (history B mtu (probing pre o now ops)) ∧
        Besides id B mtu (pre ++ [.setRecoveryOptions o now]) o base ops probe := by
    intro o ho
    rw [hprobing]
    refine silent_run hB (view_id hpolicy) ?_ ⟨hsilent, ?_, ?_, fun before hb => ?_⟩
    · rw [history_append]
      have hs := unscheduled_of_wf (run_steps B mtu pre).1 hpolicy
      rw [← history_run] at hclear hs ⊢
      exact follows_start hB hs hclear o now
    · rw [flushTicks_set]
      exact hordered
    · rw [flushTicks_set]
      exact hclock
    · rw [← hprobing]
      exact hwindow o ho before hb
  obtain ⟨probe, hf, hbesides⟩ := hrun options List.mem_cons_self
  obtain ⟨probe', hf', hbesides'⟩ := hrun _ (List.mem_cons_of_mem _ List.mem_cons_self)
  obtain rfl := hbesides'.eq_none rfl
  refine ⟨?_, ?_⟩
  · have hplain := hf.plain.trans hf'.plain.symm
    rw [history_run, history_run] at hplain
    exact hplain
  · rw [hf.trace, hf'.trace]
    cases probe with
    | none => exact .inl rfl
    | some p =>
      obtain ⟨-, hp⟩ := hbesides.wanted p rfl
      refine .inr ⟨p.1, p.2, hp, ?_, ?_⟩
      · have hsame := hbesides'.same p.1 p.2 hp (by simp)
        rw [(hbesides.probe p.1 p.2 rfl).1, sentBy, ← hprobing] at hsame
        exact bodies_eq_zero.mp hsame
      · rw [Option.map_some, Option.getD_some, Option.map_none, Option.getD_none, add_zero,
          probeBurst, ← hprobing]
/-- The recovery of a sender that probes after at least one millisecond. -/
def probeOptions : RecoveryOptions := ⟨false, some 1000000, false⟩

/-- Four messages that are acknowledged at once, which brings the round-trip estimate below the
least timeout. -/
def probeWarmup : List Op :=
  .setRecoveryOptions probeOptions 0 :: (List.range 4).flatMap fun i =>
    [.insert ⟨.reliable, primaryChannel, [1], false⟩, .flush 0, .ackRanges [(i, i)] 0]

/-- A message of which nothing is heard: it is probed at time 55 and times out at time 70. -/
def probeSilence : List Op :=
  [.insert ⟨.reliable, primaryChannel, [2], false⟩, .flush 20, .flush 55, .flush 75, .flush 300]

theorem probeSilence_windowed : ∀ o ∈ [probeOptions, { probeOptions with tailProbeMinDelay := none }],
    ∀ before, before <+: probeSilence →
      (run (.insertion false true) 1400 (probing probeWarmup o 15 before)).queue.Windowed := by
  simp only [← List.mem_inits]
  decide +kernel

theorem tail_probe_transparent_silence :
    ((run (.insertion false true) 1400 (probing probeWarmup probeOptions 15
        (probeSilence.take 3))).output.frames.length = 1 ∧
      (run (.insertion false true) 1400 (probing probeWarmup
        { probeOptions with tailProbeMinDelay := none } 15
        (probeSilence.take 3))).output.frames.length = 0) ∧
    (run (.insertion false true) 1400 (probing probeWarmup probeOptions 15 probeSilence)).queue.plain =
      (run (.insertion false true) 1400 (probing probeWarmup
        { probeOptions with tailProbeMinDelay := none } 15 probeSilence)).queue.plain :=
  ⟨by decide +kernel, (tail_probe_transparent (.insertion false true) rfl rfl 1400 probeWarmup
    probeSilence probeOptions 15 (by decide +kernel) (by decide) (by decide +kernel)
    (by decide +kernel) probeSilence_windowed).1⟩

/-- Queues that are alike but for a probe have the same frames under way, due at the same times. -/
theorem due_alike {V : SendQ → SendQ} {q q' : SendQ} (h : q.plain.view V = q'.plain.view V)
    (hclear : q'.activeProbe = none) {p' : InFlight} (hp' : p' ∈ q'.sentPacket)
    (hsent : p'.sent = true) : ∃ p ∈ q.sentPacket, p.sent = true ∧
      p.packet.body = p'.packet.body ∧ p.retries = p'.retries ∧ q.due p = p'.timeout q'.rto := by
  have hmem : q'.underway p' ∈ q.plain.flight := by
    rw [show q.plain.flight = q'.plain.flight from (congrArg Plain.flight h :)]
    exact Multiset.mem_coe.mpr (List.mem_map_of_mem hp')
  obtain ⟨p, hp, he⟩ := List.mem_map.mp (Multiset.mem_coe.mp hmem)
  have hdue : q'.due p' = p'.timeout q'.rto :=
    due_other fun probe hprobe => by rw [hclear] at hprobe; cases hprobe
  simp only [SendQ.underway, hsent, if_true, Underway.mk.injEq, hdue] at he
  obtain ⟨hbody, hretries, hdue⟩ := he
  split_ifs at hdue with hps
  exact ⟨p, hp, hps, hbody, hretries, Option.some.inj hdue⟩

/-- What comes of `probeSilence` when the probes are switched off at time 15. -/
def unprobed : List Op :=
  probeWarmup ++ [.setRecoveryOptions { probeOptions with tailProbeMinDelay := none } 15]

theorem unprobed_windowed : ∀ start ∈ [probeWarmup, unprobed], ∀ before, before <+: probeSilence →
    (run (.insertion false true) 1400 (start ++ before)).queue.Windowed := by
  simp only [← List.mem_inits]
  decide +kernel

/-- An unreliable message, which leaves the flight alone. -/
def hum : Message := ⟨.unreliable, primaryChannel, [0xfe], false⟩

/-- One frame is on its way and none waits; at time 20 it is too early for a retry or a probe. -/
structure Hums (q : SendQ) : Prop where
  mtu : q.mtu = 1400
  scheduler : q.scheduler = none
  coalesce : q.coalesce = false
  packets : q.packets = []
  bytes : q.bufferedBytes = 129
  unreliable : q.queuedUnreliable = 0
  flight : q.sentPacket.length = 1
  early : 20 < q.nextRetry
  dirty : q.flightOrderDirty = false
  pending : q.retriesPending = false
  fault : q.fault = false
  recovery : q.recovery = some ⟨probeOptions, 20, true, false, false, none, none⟩

/-- A queue that has sent `n` unreliable messages more. -/
def SendQ.hummed (q : SendQ) (n : ℕ) : SendQ :=
  { q with
    sequenceNumber := (q.sequenceNumber + n) % 16777216
    allocated := q.allocated + n
    log := q.log ++ List.replicate n hum }

theorem Hums.step {q : SendQ} (h : Hums q) {r : Run} {n : ℕ} (hr : r.queue = q.hummed n) :
    ((r.step (.insertion false true) (.insert hum)).step (.insertion false true)
      (.flush 20)).queue = q.hummed (n + 1) := by
  obtain ⟨p, hflight⟩ := List.length_eq_one_iff.mp h.flight
  have hinsert : r.queue.insertPayload (.insertion false true) hum = .ok { q.hummed n with
      packets :=
        [⟨FrameSetPacket.fromPayload .unreliable (.owned [0xfe]), (q.hummed n).log.length, 0⟩]
      queuedUnreliable := 1
      bufferedBytes := 258
      log := (q.hummed n).log ++ [hum] } := by
    rw [hr]
    simp [SendQ.hummed, SendQ.insertPayload, SendQ.requiredBytes, SendQ.maxPayload,
      SendQ.frameCount, h.mtu, hum, frameBudget_eq, maxBufferedBytes, Reassembly.maxFragments,
      h.bytes, SendQ.pushMessage, SendQ.unreliablePayload, SendQ.pushUnreliable, SendQ.book,
      Build.insertion, h.packets, h.unreliable, SendQ.unreliableMode, Reliability.isReliable]
  have hreliable : ∀ k, (QueuedFrame.mk (FrameSetPacket.fromPayload .unreliable (.owned [0xfe])) k
      0).isReliable = false := fun _ => fromPayload_isReliable (r := .unreliable) _ _ _ rfl
  have hcharge : ∀ k x a, charge ((QueuedFrame.mk (FrameSetPacket.fromPayload .unreliable
      (.owned [0xfe])) k 0).numbered x a) = 129 := by
    simp [charge, frameBudget_eq, QueuedFrame.numbered, FrameSetPacket.fromPayload, FramePayload.len,
      FramePayload.deref]
  have hlast : (20 : ℤ) < i64Max := by decide
  rw [Run.insert_ok hinsert]
  show (SendQ.flush _ _ 20).2 = _
  simp [SendQ.hummed, SendQ.flush, Build.insertion, SendQ.resetRecovery, hflight, h.scheduler,
    SendQ.flushLegacy, SendQ.tick, h.recovery, SendQ.probeTail, SendQ.probeDeadline, SendQ.expire,
    SendQ.activeProbe, SendQ.sortFlight, h.dirty, SendQ.resendAll, SendQ.burst, h.pending,
    SendQ.takeProbe, Burst.sendLoop, Burst.sendOne, maxInFlightPackets, h.coalesce, Burst.pop,
    Burst.fresh, SendQ.allocate, Burst.emit, hreliable, hcharge, h.bytes, h.unreliable, h.fault,
    h.early, hlast, h.packets, probeOptions, Nat.add_assoc, List.replicate_succ']

/-- A message of which nothing is heard, and `n` unreliable ones sent at the same time. -/
def hums : ℕ → List Op
  | 0 => probeWarmup ++ [.insert ⟨.reliable, primaryChannel, [2], false⟩, .flush 20]
  | n + 1 => hums n ++ [.insert hum] ++ [.flush 20]

theorem run_hums {q : SendQ} (hq : (run (.insertion false true) 1400 (hums 0)).queue = q)
    (h : Hums q) (hnumber : q.sequenceNumber < 16777216) (ops : List Op) (n : ℕ) :
    (run (.insertion false true) 1400 (hums n ++ ops)).queue =
      (ops.foldl (Run.step (.insertion false true)) ⟨q.hummed n, .empty, [], []⟩).queue := by
  rw [run, List.foldl_append]
  refine Run.foldl_queue ops ?_
  induction n with
  | zero =>
    have hzero : q.hummed 0 = q := by simp [SendQ.hummed, Nat.mod_eq_of_lt hnumber]
    exact hq.trans hzero.symm
  | succ n ih =>
    show (run _ _ (hums n ++ [.insert hum] ++ [.flush 20])).queue = _
    rw [run_append, run_append]
    exact h.step ih

theorem hums_zero : Hums (run (.insertion false true) 1400 (hums 0)).queue := by
  refine ⟨?_, Option.isNone_iff_eq_none.mp ?_, ?_, ?_, ?_, ?_, ?_, ?_, ?_, ?_, ?_, ?_⟩ <;>
    decide +kernel

/-- When the frames of the flight were sent last, and how often again by a timeout. -/
def retriesAfter (mtu : Fin 65536) (ops : List Op) : List (ℤ × ℕ) :=
  (run (.insertion false true) mtu ops).queue.sentPacket.map fun p => (p.time, p.retries)

/-- Two frames under one number, sent at the times 20 and 40. -/
def sharedNumber : List Op :=
  hums 16777215 ++ [.insert ⟨.reliable, primaryChannel, [3], false⟩, .flush 40]

/-- A frame sent at time 100, before the clock goes back to 30. -/
def clockBack : List Op :=
  probeWarmup ++ [.insert ⟨.reliable, primaryChannel, [2], false⟩,
    .insert ⟨.reliable, primaryChannel, [3], false⟩, .flush 100, .ackRanges [(4, 4)] 30]

end RustRaknet.Send
