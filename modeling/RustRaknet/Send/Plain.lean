import RustRaknet.Lib.Visit
import RustRaknet.Send.Moments

/-! # The plain queue

The send queue without its numbers, its caches and its probes: which frames wait, which are under
way, how often each was sent again, and when it is sent again if nothing is heard of it
(`SendQ.plain`). The plain queue has its own flush (`Plain.flush`), which sends again whatever is
due and then new frames while the flight has room.

The parts of a flush, the search for timeouts, the retransmissions and the loop over the waiting
frames, are those of the plain queue (`expire_plain`, `resendAll_plain`, `sendLoop_plain`). A probe
that is under way is no exception: its fallback is the time at which its frames were due without
it. -/

namespace RustRaknet.Send

open RustRaknet.Frame RustRaknet.Sequence RustRaknet.Lib.Machine RustRaknet.Lib.Result
open RustRaknet.Lib.Visit Ledger

/-! ### The plain queue -/

/-- A frame that was sent: what it is, how often it was sent again, and when it is due. A frame that
is taken for lost goes with the next flush and has no time of its own. -/
structure Underway where
  frame : QueuedFrame
  retries : ℕ
  due : Option ℤ
  deriving DecidableEq

/-- The plain queue: the frames under way, and the rest of the queue without its flight. -/
structure Plain where
  queue : SendQ
  flight : Multiset Underway

namespace Underway

/-- The frame has timed out. -/
def lapsed (tick : ℤ) (p : Underway) : Bool := p.due.any fun due => decide (due ≤ tick)

/-- A frame that has timed out is taken for lost. -/
def expire (tick : ℤ) (p : Underway) : Underway := if p.lapsed tick then { p with due := none } else p

/-- A frame that is taken for lost is sent again. -/
def resend (rto tick : ℤ) (p : Underway) : Underway :=
  if p.due.isNone then
    let retries := min (p.retries + 1) 4294967295
    { p with retries, due := some (saturatingAdd tick (retryTimeout rto retries)) }
  else p

end Underway

namespace Plain

variable (a : Plain)

/-- A frame that timed out ends the packing. -/
def unpack (q : SendQ) : SendQ := { q with coalescingAllowed := false, coalesce := false }

/-- The frames that timed out are taken for lost. -/
def expire (tick : ℤ) : Plain where
  queue := if 0 < a.flight.countP (fun p => p.lapsed tick = true) then unpack a.queue else a.queue
  flight := a.flight.map (Underway.expire tick)

/-- The frames that are taken for lost. -/
def lost : Multiset QueuedFrame := (a.flight.filter fun p => p.due.isNone).map Underway.frame

/-- The frames that are taken for lost are sent again. -/
def resend (tick : ℤ) : Plain :=
  { a with flight := a.flight.map (Underway.resend a.queue.rto tick) }

/-- The queue with other frames waiting. -/
def wait (packets : List QueuedFrame) : Plain := { a with queue := { a.queue with packets } }

/-- A reliable frame is sent. -/
def launch (tick : ℤ) (f : QueuedFrame) : Plain :=
  { a with flight := ⟨f.body, 0, some (saturatingAdd tick (retryTimeout a.queue.rto 0))⟩ ::ₘ a.flight }

/-- An unreliable frame is sent and forgotten. -/
def emit (f : QueuedFrame) : Plain :=
  { a with queue := { a.queue with
      queuedUnreliable := a.queue.queuedUnreliable - 1
      bufferedBytes := a.queue.bufferedBytes - charge f
      fault := a.queue.fault || decide (a.queue.bufferedBytes < charge f) ||
        decide (a.queue.queuedUnreliable = 0) } }

/-- One turn of the loop over the queue: the frame that is sent, if one is, and the queue after
it. -/
def sendOne (tick : ℤ) : Option (Option QueuedFrame × Plain) :=
  if maxInFlightPackets ≤ a.flight.card ∧ a.queue.queuedUnreliable = 0 then none
  else
    match a.queue.packets with
    | [] => none
    | f :: rest =>
      if f.isReliable && decide (maxInFlightPackets ≤ a.flight.card) then
        some (none, a.wait (rest ++ [f]))
      else if f.isReliable then some (some f.body, (a.wait rest).launch tick f)
      else some (some f.body, (a.wait rest).emit f)

/-- The loop over the queue. -/
def sendLoop (tick : ℤ) : ℕ → Multiset QueuedFrame × Plain → Multiset QueuedFrame × Plain
  | 0, s => s
  | n + 1, s =>
    match s.2.sendOne tick with
    | none => s
    | some (sent, a) => sendLoop tick n (s.1 + sent.elim 0 ({·}), a)

/-- **The flush of the plain queue.** -/
def flush (tick : ℤ) : Multiset QueuedFrame × Plain :=
  sendLoop tick a.queue.packets.length ((a.expire tick).lost, (a.expire tick).resend tick)

end Plain

/-! ### The plain queue of a queue -/

/-- When a frame on its way times out. -/
def InFlight.timeout (rto : ℤ) (p : InFlight) : ℤ := saturatingAdd p.time (retryTimeout rto p.retries)

namespace SendQ

variable (q : SendQ)

/-- When a frame on its way is sent again: at its timeout, or when the probe it belongs to falls
back, if that is earlier. -/
def due (p : InFlight) : ℤ :=
  (q.activeProbe.filter fun probe => p.isProbe probe.sequence).elim (p.timeout q.rto) fun probe =>
    min (p.timeout q.rto) probe.deadline

/-- The frame without its numbers. -/
def underway (p : InFlight) : Underway :=
  ⟨p.packet.body, p.retries, if p.sent then some (q.due p) else none⟩

/-- The queue without its flight, its numbers, its caches and the state of the recovery. -/
def husk : SendQ :=
  { q.settled with coalesce := q.coalesce, coalescingAllowed := q.coalescingAllowed }

/-- The plain queue of a queue. -/
def plain : Plain := ⟨q.husk, (q.sentPacket.map q.underway : List Underway)⟩

end SendQ

section plain

variable {B : Build} {tick : ℤ} {q q' : SendQ}

theorem activeProbe_perm (hrecovery : q'.recovery = q.recovery)
    (hflight : q'.sentPacket.Perm q.sentPacket) : q'.activeProbe = q.activeProbe := by
  unfold SendQ.activeProbe
  rw [hrecovery]
  cases q.recovery with
  | none => rfl
  | some r =>
    refine congrArg (Option.filter · r.pendingProbe) (funext fun probe => ?_)
    exact hflight.any_eq

theorem underway_congr (hrto : q'.rto = q.rto) (hprobe : q'.activeProbe = q.activeProbe) :
    q'.underway = q.underway := by
  funext p
  unfold SendQ.underway SendQ.due
  rw [hrto, hprobe]

theorem plain_congr (hhusk : q'.husk = q.husk) (hprobe : q'.activeProbe = q.activeProbe)
    (hflight : q'.sentPacket.Perm q.sentPacket) : q'.plain = q.plain := by
  have hrto : q'.rto = q.rto := (congrArg SendQ.rto hhusk :)
  unfold SendQ.plain
  rw [hhusk, underway_congr hrto hprobe, Multiset.coe_eq_coe.mpr (hflight.map q.underway)]

theorem sortFlight_plain (q : SendQ) : (q.sortFlight B).plain = q.plain := by
  have hperm := sortFlight_perm (B := B) q
  refine plain_congr ?_ (activeProbe_perm ?_ hperm) hperm
  · unfold SendQ.sortFlight
    split_ifs <;> rfl
  · unfold SendQ.sortFlight
    split_ifs <;> rfl

theorem entered_plain (q : SendQ) : (q.entered B tick).plain = q.plain := by
  unfold SendQ.entered SendQ.resetRecovery
  split_ifs with hB hempty
  · have hnil : q.sentPacket = [] := List.isEmpty_iff.mp hempty
    unfold SendQ.plain
    simp only [hnil]
    rfl
  · rfl
  · rfl

/-! ### Timeouts -/

theorem underway_lapsed (q : SendQ) (p : InFlight) :
    (q.underway p).lapsed tick = (p.sent && decide (q.due p ≤ tick)) := by
  unfold Underway.lapsed SendQ.underway
  cases p.sent <;> rfl

/-- When nothing on its way is due, nothing times out. -/
theorem expire_idle_plain (h : ∀ p ∈ q.sentPacket, p.sent = true → tick < q.due p) :
    q.plain.expire tick = q.plain := by
  have hnone : ∀ p ∈ q.sentPacket, (q.underway p).lapsed tick = false := by
    intro p hp
    rw [underway_lapsed, Bool.and_eq_false_iff, decide_eq_false_iff_not, not_le]
    cases hsent : p.sent with
    | false => exact .inl rfl
    | true => exact .inr (h p hp hsent)
  unfold Plain.expire
  have hcount : ¬ 0 < q.plain.flight.countP (fun p => p.lapsed tick = true) := by
    rw [Multiset.countP_pos]
    rintro ⟨x, hx, hlapsed⟩
    obtain ⟨p, hp, rfl⟩ := List.mem_map.mp (Multiset.mem_coe.mp hx)
    rw [hnone p hp] at hlapsed
    cases hlapsed
  rw [if_neg hcount]
  congr 1
  show Multiset.map (Underway.expire tick) (q.sentPacket.map q.underway : List Underway) = _
  rw [Multiset.map_coe, List.map_map]
  refine congrArg _ (List.map_congr_left fun p hp => ?_)
  show Underway.expire tick (q.underway p) = _
  unfold Underway.expire
  rw [hnone p hp]
  rfl

/-- The frames of a pending probe: those of one datagram `d`, older than `a`. All are on their way,
and the probe falls back before they time out. -/
structure Backed (a : ℕ) (q : SendQ) : Prop where
  probe : ∀ r probe, q.recovery = some r → r.pendingProbe = some probe →
    ∃ d < a, probe.sequence = d % 16777216 ∧ (∃ p ∈ q.sentPacket, p.packet.datagram = d) ∧
      ∀ p ∈ q.sentPacket, p.packet.datagram = d →
        p.sent = true ∧ p.isProbe probe.sequence = true ∧ probe.deadline ≤ p.timeout q.rto

theorem Backed.activeProbe {a : ℕ} (h : Backed a q) :
    q.activeProbe = q.recovery.bind Recovery.pendingProbe := by
  unfold SendQ.activeProbe
  cases hr : q.recovery with
  | none => rfl
  | some r =>
    show r.pendingProbe.filter _ = r.pendingProbe
    cases hprobe : r.pendingProbe with
    | none => rfl
    | some probe =>
      obtain ⟨d, -, -, ⟨p, hp, hd⟩, hall⟩ := h.probe r probe hr hprobe
      refine Option.filter_eq_some_iff.mpr ⟨rfl, List.any_eq_true.mpr ⟨p, hp, ?_⟩⟩
      exact (hall p hp hd).2.1

theorem Backed.named {a : ℕ} (h : Backed a q)
    (hnumbered : ∀ p ∈ q.sentPacket, p.Numbered q.allocated) (hwindow : q.Windowed)
    {probe : ProbeFallback} (hprobe : q.activeProbe = some probe) {p : InFlight}
    (hp : p ∈ q.sentPacket) (hsequence : p.sequence = probe.sequence) :
    p.sent = true ∧ p.isProbe probe.sequence = true ∧ probe.deadline ≤ p.timeout q.rto := by
  rw [h.activeProbe] at hprobe
  obtain ⟨r, hr, hpending⟩ := Option.bind_eq_some_iff.mp hprobe
  obtain ⟨d, -, hd, ⟨p', hp', hd'⟩, hall⟩ := h.probe r probe hr hpending
  refine hall p hp ?_
  rw [← hd']
  refine datagram_eq hnumbered hwindow hp hp' ?_
  exact (hsequence.trans hd).trans (hd' ▸ (hnumbered p' hp').packet.sequence.symm)

theorem due_probe {probe : ProbeFallback} {p : InFlight} (hprobe : q.activeProbe = some probe)
    (hmine : p.isProbe probe.sequence = true) :
    q.due p = min (p.timeout q.rto) probe.deadline := by
  unfold SendQ.due
  rw [hprobe, Option.filter_some, if_pos hmine]
  rfl

theorem due_other {p : InFlight}
    (hother : ∀ probe, q.activeProbe = some probe → p.isProbe probe.sequence = false) :
    q.due p = p.timeout q.rto := by
  unfold SendQ.due
  cases hprobe : q.activeProbe with
  | none => rfl
  | some probe =>
    rw [Option.filter_some, if_neg (by simp [hother probe hprobe])]
    rfl

theorem timeout_le_iff {p : InFlight} {rto : ℤ} (htick : tick < i64Max)
    (hsum : 0 ≤ p.time + retryTimeout rto p.retries) :
    p.timeout rto ≤ tick ↔ retryTimeout rto p.retries ≤ tick - p.time := by
  unfold InFlight.timeout saturatingAdd
  unfold i64Max at *
  omega

theorem expired_iff {a : ℕ} (h : Backed a q) (hcaches : Caches q)
    (hnumbered : ∀ p ∈ q.sentPacket, p.Numbered q.allocated) (hwindow : q.Windowed)
    (htick : tick < i64Max) {p : InFlight} (hp : p ∈ q.sentPacket) (hsent : p.sent = true) :
    (decide (retryTimeout q.rto p.retries ≤ tick - p.time) ||
      q.activeProbe.any fun probe =>
        probe.sequence == p.sequence && decide (probe.deadline ≤ tick)) = decide (q.due p ≤ tick) := by
  have hsum : 0 ≤ p.time + retryTimeout q.rto p.retries :=
    deadline_nonneg hcaches.toFlags hp hsent hcaches.rto
  have htimeout := timeout_le_iff (p := p) htick hsum
  cases hprobe : q.activeProbe with
  | none =>
    have hother : ∀ probe, q.activeProbe = some probe → p.isProbe probe.sequence = false := by
      intro probe h'
      rw [hprobe] at h'
      cases h'
    rw [due_other hother, Option.any_none, Bool.or_false, decide_eq_decide]
    exact htimeout.symm
  | some probe =>
    rw [Option.any_some]
    by_cases hmine : p.isProbe probe.sequence = true
    · have hsequence : probe.sequence = p.sequence := by
        unfold InFlight.isProbe at hmine
        simp only [Bool.and_eq_true, beq_iff_eq] at hmine
        exact hmine.1.1.symm
      rw [due_probe hprobe hmine, hsequence, beq_self_eq_true, Bool.true_and, ← Bool.decide_or,
        decide_eq_decide, min_le_iff, htimeout]
    · have hsequence : (probe.sequence == p.sequence) = false := by
        rw [beq_eq_false_iff_ne]
        exact fun he => hmine (h.named hnumbered hwindow hprobe hp he.symm).2.1
      have hother : ∀ probe', q.activeProbe = some probe' → p.isProbe probe'.sequence = false := by
        intro probe' h'
        rw [hprobe] at h'
        rw [← Option.some.inj h']
        exact Bool.not_eq_true _ ▸ hmine
      rw [due_other hother, hsequence, Bool.false_and, Bool.or_false, decide_eq_decide]
      exact htimeout.symm

/-- What the loop of `tick` does to a frame. -/
def Lapses (q : SendQ) (tick : ℤ) (p p' : InFlight) : Prop :=
  if (q.underway p).lapsed tick then ∃ n d, q.allocated ≤ d ∧ p' = p.renumber n d else p' = p

/-- The loop of `tick`: the frames that timed out are renumbered, and end the packing. -/
theorem tickLoop_visits {a : ℕ} (h : Backed a q) (hcaches : Caches q)
    (hnumbered : ∀ p ∈ q.sentPacket, p.Numbered q.allocated) (hwindow : q.Windowed)
    (htick : tick < i64Max) :
    let q' := (List.range q.sentPacket.length).foldl (SendQ.tickAt q.activeProbe tick) q.clearRetry
    (q'.rto = q.rto ∧ q'.recovery = q.recovery ∧ q.allocated ≤ q'.allocated ∧
      q'.husk = if (q.sentPacket.any fun p => (q.underway p).lapsed tick) = true
        then Plain.unpack q.husk else q.husk) ∧
    List.Forall₂ (Lapses q tick) q.sentPacket q'.sentPacket := by
  refine foldl_visit SendQ.sentPacket (s := q.clearRetry) (R := Lapses q tick)
    (I := fun visited s => s.rto = q.rto ∧ s.recovery = q.recovery ∧ q.allocated ≤ s.allocated ∧
      s.husk = if (visited.any fun p => (q.underway p).lapsed tick) = true
        then Plain.unpack q.husk else q.husk) ?_ ⟨rfl, rfl, le_rfl, rfl⟩ ?_
  · intro s i j hj
    unfold SendQ.tickAt
    split
    · rfl
    · simp only
      split_ifs
      · exact List.getElem?_set_ne hj.symm
      · rfl
      · rfl
  · intro visited s p hp hentry hs
    obtain ⟨hrto, hrecovery, hallocated, hhusk⟩ := hs
    have hlt : visited.length < s.sentPacket.length := (List.getElem?_eq_some_iff.mp hentry).1
    -- the test of the loop is the timeout of the frame
    have htest : (p.sent && (decide (retryTimeout s.rto p.retries ≤ tick - p.time) ||
        q.activeProbe.any fun probe =>
          probe.sequence == p.sequence && decide (probe.deadline ≤ tick))) =
        (q.underway p).lapsed tick := by
      rw [underway_lapsed, hrto]
      cases hsent : p.sent with
      | false => rfl
      | true =>
        rw [Bool.true_and, Bool.true_and]
        exact expired_iff h hcaches hnumbered hwindow htick hp hsent
    obtain ⟨nextRetry, hturn⟩ : ∃ nextRetry, SendQ.tickAt q.activeProbe tick s visited.length =
        if (q.underway p).lapsed tick = true then s.reissue visited.length p p.time
        else { s with nextRetry } := by
      unfold SendQ.tickAt
      simp only [hentry, htest]
      split_ifs
      · exact ⟨0, rfl⟩
      · exact ⟨_, rfl⟩
      · exact ⟨_, rfl⟩
    rw [hturn, List.any_append, List.any_cons, List.any_nil, Bool.or_false]
    unfold Lapses
    cases hlapsed : (q.underway p).lapsed tick with
    | true =>
      refine ⟨⟨hrto, hrecovery, hallocated.trans (Nat.le_succ _), ?_⟩,
        p.renumber s.sequenceNumber s.allocated, ?_, ?_⟩
      · have hreissue : (s.reissue visited.length p p.time).husk = Plain.unpack s.husk := rfl
        rw [Bool.or_true, if_pos rfl, if_pos rfl, hreissue, hhusk]
        split_ifs <;> rfl
      · exact List.getElem?_set_self hlt
      · exact ⟨_, _, hallocated, rfl⟩
    | false =>
      rw [Bool.or_false, if_neg Bool.false_ne_true]
      exact ⟨⟨hrto, hrecovery, hallocated, hhusk⟩, p, hentry, rfl⟩

theorem Lapses.of_sent {p p' : InFlight} (h : Lapses q tick p p') (hsent : p'.sent = true) :
    p' = p ∧ tick < q.due p := by
  unfold Lapses at h
  split_ifs at h with hlapsed
  · obtain ⟨n, d, -, rfl⟩ := h
    cases hsent
  · subst h
    rw [underway_lapsed, hsent, Bool.true_and, decide_eq_true_eq] at hlapsed
    exact ⟨rfl, not_le.mp hlapsed⟩

/-- The plain queue after the loop, when the frames left on their way are due as before. -/
theorem plain_of_lapses
    (hhusk : q'.husk = if (q.sentPacket.any fun p => (q.underway p).lapsed tick) = true
      then Plain.unpack q.husk else q.husk)
    (hflight : List.Forall₂ (Lapses q tick) q.sentPacket q'.sentPacket)
    (hdue : ∀ p ∈ q.sentPacket, p.sent = true → tick < q.due p → q'.due p = q.due p) :
    q'.plain = q.plain.expire tick := by
  have hany : (0 < q.plain.flight.countP fun p => p.lapsed tick = true) ↔
      (q.sentPacket.any fun p => (q.underway p).lapsed tick) = true := by
    rw [Multiset.countP_pos, List.any_eq_true]
    refine ⟨fun ⟨x, hx, hlapsed⟩ => ?_, fun ⟨p, hp, hlapsed⟩ =>
      ⟨q.underway p, Multiset.mem_coe.mpr (List.mem_map_of_mem hp), hlapsed⟩⟩
    obtain ⟨p, hp, rfl⟩ := List.mem_map.mp (Multiset.mem_coe.mp hx)
    exact ⟨p, hp, hlapsed⟩
  have hmap : q'.sentPacket.map q'.underway =
      q.sentPacket.map (Underway.expire tick ∘ q.underway) := by
    refine forall₂_map hflight fun p hp p' hp' hlapses => ?_
    show q'.underway p' = Underway.expire tick (q.underway p)
    unfold Underway.expire
    cases hsent : p'.sent with
    | true =>
      obtain ⟨rfl, hlt⟩ := hlapses.of_sent hsent
      have hearly : (q.underway p').lapsed tick = false := by
        rw [underway_lapsed, hsent, Bool.true_and, decide_eq_false_iff_not]
        exact not_le.mpr hlt
      rw [hearly, if_neg Bool.false_ne_true]
      unfold SendQ.underway
      rw [hsent, if_pos rfl, if_pos rfl, hdue p' hp hsent hlt]
    | false =>
      unfold Lapses at hlapses
      split_ifs at hlapses ⊢ with hlapsed
      · obtain ⟨n, d, -, rfl⟩ := hlapses
        rfl
      · subst hlapses
        unfold SendQ.underway
        rw [hsent, if_neg Bool.false_ne_true, if_neg Bool.false_ne_true]
  unfold SendQ.plain Plain.expire
  simp only [hmap, hhusk, Multiset.map_coe, List.map_map]
  congr 1
  exact if_congr hany.symm rfl rfl

theorem early_timeout (hcaches : Caches q) (htick : tick < i64Max) (hearly : tick < q.nextRetry)
    {p : InFlight} (hp : p ∈ q.sentPacket) (hsent : p.sent = true) : tick < p.timeout q.rto := by
  have hsum : 0 ≤ p.time + retryTimeout q.rto p.retries :=
    deadline_nonneg hcaches.toFlags hp hsent hcaches.rto
  refine not_le.mp fun hle => ?_
  have hlate := (timeout_le_iff htick hsum).mp hle
  have hcache := hcaches.retry p hp hsent
  unfold InFlight.deadline at hcache
  omega

theorem early_due (hcaches : Caches q) (htick : tick < i64Max)
    (hearly : tick < min q.nextRetry (q.activeProbe.elim i64Max ProbeFallback.deadline))
    {p : InFlight} (hp : p ∈ q.sentPacket) (hsent : p.sent = true) : tick < q.due p := by
  obtain ⟨hretry, hprobe⟩ := lt_min_iff.mp hearly
  have htimeout := early_timeout hcaches htick hretry hp hsent
  unfold SendQ.due
  cases hactive : q.activeProbe with
  | none => exact htimeout
  | some probe =>
    rw [hactive] at hprobe
    rw [Option.filter_some]
    split_ifs
    · exact lt_min htimeout hprobe
    · exact htimeout

/-- The probe after the loop of `tick`: it falls back now, or its frames are as they were. -/
theorem Backed.lapses {a : ℕ} (h : Backed a q) (ha : a ≤ q.allocated) (hrto : q'.rto = q.rto)
    (hrecovery : q'.recovery = q.recovery)
    (hflight : List.Forall₂ (Lapses q tick) q.sentPacket q'.sentPacket)
    (hlater : ∀ probe, q.activeProbe = some probe → tick < probe.deadline) : Backed a q' := by
  refine ⟨fun r probe hr hpending => ?_⟩
  rw [hrecovery] at hr
  have hactive : q.activeProbe = some probe := by
    rw [h.activeProbe, hr]
    exact hpending
  have hdeadline := hlater probe hactive
  obtain ⟨d, hd, hsequence, ⟨p, hp, hpd⟩, hall⟩ := h.probe r probe hr hpending
  -- the frames of the probe have not timed out
  have hkept : ∀ x ∈ q.sentPacket, x.packet.datagram = d → ∀ x', Lapses q tick x x' → x' = x := by
    intro x hx hxd x' hlapses
    obtain ⟨hsent, hmine, htimeout⟩ := hall x hx hxd
    unfold Lapses at hlapses
    rwa [underway_lapsed, due_probe hactive hmine, hsent, Bool.true_and, min_eq_right htimeout,
      decide_eq_false (not_le.mpr hdeadline), if_neg Bool.false_ne_true] at hlapses
  refine ⟨d, hd, hsequence, ⟨p, ?_, hpd⟩, fun p' hp' hpd' => ?_⟩
  · obtain ⟨p', hp', hlapses⟩ := forall₂_left hflight p hp
    exact hkept p hp hpd p' hlapses ▸ hp'
  · obtain ⟨x, hx, hlapses⟩ := forall₂_left hflight.flip p' hp'
    have hlapses : Lapses q tick x p' := hlapses
    have hsame : p' = x := by
      have hcases := hlapses
      unfold Lapses at hcases
      split_ifs at hcases with hlapsed
      · obtain ⟨n, d', hle, rfl⟩ := hcases
        have hnew : d' = d := hpd'
        omega
      · exact hcases
    subst hsame
    rw [hrto]
    exact hall p' hx hpd'

/-- **The search for timeouts** is that of the plain queue. -/
theorem expire_plain {a : ℕ} (hB : B.recoveryPolicy = true) (h : Backed a q) (ha : a ≤ q.allocated)
    (hcaches : Caches q) (hnumbered : ∀ p ∈ q.sentPacket, p.Numbered q.allocated)
    (hwindow : q.Windowed) (htick : tick < i64Max) :
    (q.expire B tick).plain = q.plain.expire tick ∧ Backed a (q.expire B tick) ∧
      q.allocated ≤ (q.expire B tick).allocated := by
  unfold SendQ.expire
  simp only [hB, if_true]
  by_cases hearly : tick < min q.nextRetry (q.activeProbe.elim i64Max ProbeFallback.deadline)
  · rw [if_pos hearly]
    exact ⟨(expire_idle_plain fun p hp hsent => early_due hcaches htick hearly hp hsent).symm, h,
      le_rfl⟩
  rw [if_neg hearly]
  obtain ⟨⟨hrto, hrecovery, hallocated, hhusk⟩, hflight⟩ :=
    tickLoop_visits h hcaches hnumbered hwindow htick
  generalize (List.range q.sentPacket.length).foldl (SendQ.tickAt q.activeProbe tick)
    q.clearRetry = q' at hrto hrecovery hallocated hhusk hflight
  by_cases hlater : ∀ probe, q.activeProbe = some probe → tick < probe.deadline
  · have hbacked := h.lapses ha hrto hrecovery hflight hlater
    have hactive : q'.activeProbe = q.activeProbe := by
      rw [hbacked.activeProbe, h.activeProbe, hrecovery]
    have hkeep : (q.activeProbe.any fun probe => decide (probe.deadline ≤ tick)) = false := by
      cases hprobe : q.activeProbe with
      | none => rfl
      | some probe => exact decide_eq_false (not_le.mpr (hlater probe hprobe))
    rw [hkeep, if_neg Bool.false_ne_true]
    refine ⟨plain_of_lapses hhusk hflight fun p _ _ _ => ?_, hbacked, hallocated⟩
    unfold SendQ.due
    rw [hactive, hrto]
  · -- the probe falls back: its frames have timed out with it
    push Not at hlater
    obtain ⟨probe, hprobe, hdeadline⟩ := hlater
    have hdrop : (q.activeProbe.any fun probe => decide (probe.deadline ≤ tick)) = true := by
      rw [hprobe, Option.any_some, decide_eq_true hdeadline]
    have hnone : q'.dropProbe.activeProbe = none := by
      unfold SendQ.activeProbe SendQ.dropProbe
      cases q'.recovery <;> rfl
    rw [hdrop, if_pos rfl]
    refine ⟨plain_of_lapses hhusk hflight fun p hp hsent hlt => ?_, ⟨fun r probe' hr hpending => ?_⟩,
      hallocated⟩
    · have hgone : ∀ probe', q'.dropProbe.activeProbe = some probe' →
          p.isProbe probe'.sequence = false := by
        intro probe' h'
        rw [hnone] at h'
        cases h'
      have hother : ∀ probe', q.activeProbe = some probe' → p.isProbe probe'.sequence = false := by
        intro probe' h'
        rw [hprobe] at h'
        obtain rfl := Option.some.inj h'
        refine Bool.not_eq_true _ ▸ fun hmine => ?_
        rw [due_probe hprobe hmine] at hlt
        exact absurd (lt_min_iff.mp hlt).2 (not_lt.mpr hdeadline)
      rw [due_other hgone, due_other hother]
      exact congrArg (InFlight.timeout · p) hrto
    · obtain ⟨r', -, rfl⟩ := Option.map_eq_some_iff.mp hr
      cases hpending

/-- The plain queue has nothing to do: every frame is on its way and early, and none waits. -/
theorem flush_idle_plain (hpackets : q.packets = []) (hsent : ∀ p ∈ q.sentPacket, p.sent = true)
    (hearly : ∀ p ∈ q.sentPacket, tick < q.due p) : q.plain.flush tick = (0, q.plain) := by
  have hdue : ∀ x ∈ q.plain.flight, x.due.isNone = false := by
    intro x hx
    obtain ⟨p, hp, rfl⟩ := List.mem_map.mp (Multiset.mem_coe.mp hx)
    unfold SendQ.underway
    rw [hsent p hp]
    rfl
  have hlost : q.plain.lost = 0 := by
    unfold Plain.lost
    rw [Multiset.filter_eq_nil.mpr fun x hx => by simp [hdue x hx], Multiset.map_zero]
  have hresend : q.plain.resend tick = q.plain := by
    have hsame : ∀ x ∈ q.plain.flight, Underway.resend q.plain.queue.rto tick x = x := fun x hx =>
      if_neg (by simp [hdue x hx])
    unfold Plain.resend
    rw [Multiset.map_congr rfl hsame, Multiset.map_id']
  have hnone : q.plain.queue.packets.length = 0 := by
    show q.packets.length = 0
    rw [hpackets]
    rfl
  unfold Plain.flush
  rw [expire_idle_plain fun p hp _ => hearly p hp, hlost, hresend, hnone]
  rfl

/-! ### The probe during a burst -/

theorem Backed.perm {a : ℕ} (h : Backed a q) (hrecovery : q'.recovery = q.recovery)
    (hrto : q'.rto = q.rto) (hflight : q'.sentPacket.Perm q.sentPacket) : Backed a q' := by
  refine ⟨fun r probe hr hpending => ?_⟩
  obtain ⟨d, hd, hsequence, ⟨p, hp, hpd⟩, hall⟩ := h.probe r probe (hrecovery ▸ hr) hpending
  rw [hrto]
  exact ⟨d, hd, hsequence, ⟨p, hflight.mem_iff.mpr hp, hpd⟩, fun p' hp' =>
    hall p' (hflight.mem_iff.mp hp')⟩

theorem Backed.mono {a b : ℕ} (h : Backed a q) (hab : a ≤ b) : Backed b q := by
  refine ⟨fun r probe hr hpending => ?_⟩
  obtain ⟨d, hd, hrest⟩ := h.probe r probe hr hpending
  exact ⟨d, hd.trans_le hab, hrest⟩

/-- An entry of another datagram takes the place of one that waits. -/
theorem Backed.set {a : ℕ} (h : Backed a q) (hrecovery : q'.recovery = q.recovery)
    (hrto : q'.rto = q.rto) {i : ℕ} {p : InFlight} (p' : InFlight) (hi : q.sentPacket[i]? = some p)
    (hsent : p.sent = false) (hpacket : p'.packet = p.packet)
    (hflight : q'.sentPacket = q.sentPacket.set i p') : Backed a q' := by
  refine ⟨fun r probe hr hpending => ?_⟩
  obtain ⟨d, hd, hsequence, ⟨x, hx, hxd⟩, hall⟩ := h.probe r probe (hrecovery ▸ hr) hpending
  have hother : p.packet.datagram ≠ d := fun he => by
    have := (hall p (List.mem_of_getElem? hi) he).1
    rw [hsent] at this
    cases this
  have hkept : x ∈ q.sentPacket.set i p' := by
    obtain ⟨j, hj, hjx⟩ := List.mem_iff_getElem.mp hx
    refine List.mem_of_getElem? (i := j) ?_
    rw [List.getElem?_set_ne, List.getElem?_eq_getElem hj, hjx]
    rintro rfl
    rw [List.getElem?_eq_getElem hj, hjx] at hi
    exact hother (Option.some.inj hi ▸ hxd)
  rw [hrto, hflight]
  refine ⟨d, hd, hsequence, ⟨x, hkept, hxd⟩, fun y hy hyd => ?_⟩
  rcases List.mem_or_eq_of_mem_set hy with hy | rfl
  · exact hall y hy hyd
  · exact absurd (hpacket ▸ hyd) hother

theorem Backed.launch {a : ℕ} (h : Backed a q) (hrecovery : q'.recovery = q.recovery)
    (hrto : q'.rto = q.rto) {p : InFlight} (hp : a ≤ p.packet.datagram)
    (hflight : q'.sentPacket = q.sentPacket ++ [p]) : Backed a q' := by
  refine ⟨fun r probe hr hpending => ?_⟩
  obtain ⟨d, hd, hsequence, ⟨x, hx, hxd⟩, hall⟩ := h.probe r probe (hrecovery ▸ hr) hpending
  rw [hrto, hflight]
  refine ⟨d, hd, hsequence, ⟨x, List.mem_append_left _ hx, hxd⟩, fun y hy hyd => ?_⟩
  obtain hy | rfl := Lib.mem_snoc.mp hy
  · exact hall y hy hyd
  · omega

/-- **One turn of a burst** leaves the frames of a probe alone. -/
theorem Backed.sends {a b : ℕ} {probeSequence : Option ℕ} {s s' : Burst} (h : Backed a s.queue)
    (htiming : Timing b tick s) (hab : a ≤ b) (hsends : Sends probeSequence tick s s') :
    Backed a s'.queue := by
  have hbegun : a ≤ s.queue.allocated := hab.trans htiming.begun
  cases hsends with
  | @resend i p hi hp =>
    exact h.set rfl rfl { p with sent := true, time := tick, retries := _ } hi hp rfl rfl
  | @start f rest packable | @fresh f rest =>
    exact h.launch (p := ⟨f.numbered s.queue.sequenceNumber s.queue.allocated, true, tick, 0, [], []⟩)
      rfl rfl hbegun rfl
  | @join f rest x hpackets hf hx hcoalesce =>
    exact h.launch (p := ⟨f.numbered x s.group.datagram, true, tick, 0, [], []⟩) rfl rfl
      (hab.trans (htiming.group hcoalesce x hx).1) rfl
  | emit | emitScheduled | rotate | turnTo | clear => exact h.perm rfl rfl (.refl _)

theorem Backed.burst {a b : ℕ} {probeSequence : Option ℕ} {s s' : Burst} (h : Backed a s.queue)
    (htiming : Timing b tick s) (hab : a ≤ b)
    (hsends : Relation.ReflTransGen (Sends probeSequence tick) s s') :
    Backed a s'.queue ∧ Timing b tick s' := by
  induction hsends with
  | refl => exact ⟨h, htiming⟩
  | tail _ hstep ih => exact ⟨ih.1.sends ih.2 hab hstep, ih.2.sends hstep⟩

/-! ### Retransmissions -/

/-- What the loop over the flight makes of a frame. -/
def InFlight.afterResend (probeSequence : Option ℕ) (tick : ℤ) (p : InFlight) : InFlight :=
  if p.sent then p
  else { p with
    sent := true
    time := tick
    retries := if probeSequence = some p.sequence then p.retries else min (p.retries + 1) 4294967295 }

/-- **The loop of `flush` over the flight** sends every frame that waits, and no other. -/
theorem resendAll_visits (hflags : Flags q) (tick : ℤ) :
    (q.resendAll tick).queue.sentPacket = q.sentPacket.map (InFlight.afterResend q.probeReplay tick) ∧
    (q.resendAll tick).output.frames =
      (q.sentPacket.filter fun p => !p.sent).map InFlight.packet ∧
    (q.resendAll tick).queue.recovery = q.takeProbe.recovery ∧
    (q.resendAll tick).queue.husk = q.husk ∧
    (q.resendAll tick).queue.allocated = q.allocated := by
  unfold SendQ.resendAll
  simp only
  split_ifs with hpending
  · have hloop := foldl_visit (fun s : Burst => s.queue.sentPacket)
      (f := Burst.resendAt q.probeReplay tick) (s := q.burst)
      (R := fun p p' => p' = p.afterResend q.probeReplay tick)
      (I := fun visited s => s.output.frames =
          (visited.filter fun p => !p.sent).map InFlight.packet ∧
        s.queue.recovery = q.takeProbe.recovery ∧ s.queue.husk = q.husk ∧
        s.queue.allocated = q.allocated) ?_ ⟨rfl, rfl, rfl, rfl⟩ ?_
    · obtain ⟨⟨hframes, hrecovery, hhusk, hallocated⟩, hflight⟩ := hloop
      refine ⟨?_, hframes, hrecovery, hhusk, hallocated⟩
      have hmap := forall₂_map (f := InFlight.afterResend q.probeReplay tick) (g := id) hflight
        fun _ _ _ _ hr => hr
      rw [List.map_id] at hmap
      exact hmap
    · intro s i j hj
      unfold Burst.resendAt
      split
      · rfl
      · split_ifs
        · rfl
        · exact List.getElem?_set_ne hj.symm
    · intro visited s p hp hentry hs
      obtain ⟨hframes, hrecovery, hhusk, hallocated⟩ := hs
      have hlt : visited.length < s.queue.sentPacket.length := (List.getElem?_eq_some_iff.mp hentry).1
      have hturn : Burst.resendAt q.probeReplay tick s visited.length =
          if p.sent then s else s.resend q.probeReplay tick visited.length p := by
        unfold Burst.resendAt
        simp only [hentry]
      rw [hturn]
      unfold InFlight.afterResend
      cases hsent : p.sent with
      | true =>
        refine ⟨⟨?_, hrecovery, hhusk, hallocated⟩, p, hentry, rfl⟩
        rw [List.filter_append, List.filter_cons_of_neg (by simp [hsent]), List.filter_nil,
          List.append_nil]
        exact hframes
      | false =>
        refine ⟨⟨?_, hrecovery, hhusk, hallocated⟩, _, List.getElem?_set_self hlt, rfl⟩
        rw [List.filter_append, List.filter_cons_of_pos (by simp [hsent]), List.filter_nil,
          List.map_append, ← hframes]
        rfl
  · have hall : ∀ p ∈ q.sentPacket, p.sent = true := fun p hp => by
      by_contra hsent
      exact hpending (hflags.pending p hp (Bool.not_eq_true _ ▸ hsent))
    have hsame : q.sentPacket.map (InFlight.afterResend q.probeReplay tick) = q.sentPacket :=
      (List.map_congr_left fun p hp => if_pos (hall p hp)).trans (List.map_id _)
    refine ⟨hsame.symm, ?_, rfl, rfl, rfl⟩
    rw [List.filter_eq_nil_iff.mpr fun p hp => by simp [hall p hp]]
    rfl

theorem isProbe_resent {p : InFlight} (hsent : p.sent = false) (sequence : ℕ) :
    (p.afterResend none tick).isProbe sequence = false := by
  unfold InFlight.afterResend InFlight.isProbe
  simp [hsent]

/-- **The retransmissions** are those of the plain queue, when no probe is replayed. -/
theorem resendAll_plain {a : ℕ} (hflags : Flags q) (hbacked : Backed a q)
    (hbacked' : Backed a (q.resendAll tick).queue) (hreplay : q.probeReplay = none) :
    (q.resendAll tick).queue.plain = q.plain.resend tick ∧
      bodies (q.resendAll tick).output.frames = q.plain.lost := by
  obtain ⟨hflight, hframes, hrecovery, hhusk, -⟩ := resendAll_visits hflags tick
  rw [hreplay] at hflight
  generalize (q.resendAll tick) = s at hflight hframes hrecovery hhusk hbacked'
  have hrto : s.queue.rto = q.rto := (congrArg SendQ.rto hhusk :)
  have hkept : ∀ p : InFlight, p.sent = true → p.afterResend none tick = p := fun p hsent =>
    if_pos hsent
  have hactive : s.queue.activeProbe = q.activeProbe := by
    rw [hbacked'.activeProbe, hbacked.activeProbe, hrecovery]
    unfold SendQ.takeProbe
    cases q.recovery <;> rfl
  refine ⟨?_, ?_⟩
  · unfold SendQ.plain Plain.resend
    rw [hhusk, hflight]
    simp only [Multiset.map_coe, List.map_map]
    congr 2
    refine List.map_congr_left fun p hp => ?_
    show s.queue.underway (p.afterResend none tick) = Underway.resend q.rto tick (q.underway p)
    rw [underway_congr hrto hactive]
    cases hsent : p.sent with
    | true =>
      rw [hkept p hsent]
      unfold Underway.resend SendQ.underway
      rw [hsent]
      rfl
    | false =>
      have hdue : q.due (p.afterResend none tick) = (p.afterResend none tick).timeout q.rto :=
        due_other fun probe _ => isProbe_resent hsent probe.sequence
      unfold Underway.resend SendQ.underway
      rw [hdue, hsent]
      unfold InFlight.afterResend
      rw [hsent]
      rfl
  · rw [hframes]
    unfold bodies Plain.lost SendQ.plain
    simp only [Multiset.filter_coe, Multiset.map_coe, List.map_map, List.filter_map]
    refine congrArg _ ?_
    have hfilter : (fun p : InFlight => !p.sent) =
        ((fun p : Underway => decide (p.due.isNone = true)) ∘ q.underway) := by
      funext p
      unfold SendQ.underway
      simp only [Function.comp_apply]
      cases p.sent <;> rfl
    rw [hfilter]
    rfl

/-! ### New frames -/

theorem launch_activeProbe (s : Burst) (f : QueuedFrame) :
    (s.launch tick f).queue.activeProbe = s.queue.activeProbe := by
  have hany : ∀ sequence : ℕ, ((s.launch tick f).queue.sentPacket.any (InFlight.isProbe sequence)) =
      s.queue.sentPacket.any (InFlight.isProbe sequence) := by
    intro sequence
    show (s.queue.sentPacket ++ [_]).any _ = _
    rw [List.any_append, List.any_cons, List.any_nil]
    simp [InFlight.isProbe]
  unfold SendQ.activeProbe
  simp only [hany]
  rfl

theorem launch_plain (s : Burst) {f g : QueuedFrame} (hbody : g.body = f.body) :
    (s.launch tick g).queue.plain = s.queue.plain.launch tick f := by
  have hunderway : (s.launch tick g).queue.underway = s.queue.underway :=
    underway_congr rfl (launch_activeProbe s g)
  have hnew : s.queue.underway ⟨g, true, tick, 0, [], []⟩ =
      ⟨f.body, 0, some (saturatingAdd tick (retryTimeout s.queue.rto 0))⟩ := by
    have hdue : s.queue.due ⟨g, true, tick, 0, [], []⟩ =
        saturatingAdd tick (retryTimeout s.queue.rto 0) :=
      due_other fun probe _ => by simp [InFlight.isProbe]
    unfold SendQ.underway
    rw [hdue, hbody]
    rfl
  unfold SendQ.plain
  rw [hunderway]
  show Plain.mk s.queue.husk ((s.queue.sentPacket ++ [_]).map s.queue.underway : List Underway) = _
  rw [List.map_append, List.map_singleton, hnew, ← Multiset.coe_add, Multiset.coe_singleton,
    Multiset.add_comm, Multiset.singleton_add]
  rfl

theorem number_plain (s : Burst) (f : QueuedFrame) (rest : List QueuedFrame) :
    (s.number f rest).2.queue.plain = s.queue.plain.wait rest ∧ (s.number f rest).1.body = f.body ∧
      (s.number f rest).2.output.frames = s.output.frames ∧
      charge (s.number f rest).1 = charge f := by
  unfold Burst.number
  split_ifs
  · unfold Burst.assign
    split
    · split_ifs <;> exact ⟨rfl, rfl, rfl, rfl⟩
    · exact ⟨rfl, rfl, rfl, rfl⟩
  · exact ⟨rfl, rfl, rfl, rfl⟩

theorem card_plain (q : SendQ) : q.plain.flight.card = q.sentPacket.length := by
  unfold SendQ.plain
  rw [Multiset.coe_card, List.length_map]

/-- **One turn of the loop over the queue** is one of the plain queue. -/
theorem sendOne_plain (tick : ℤ) (s : Burst) :
    (s.sendOne tick).map (fun s' => (bodies s'.output.frames, s'.queue.plain)) =
      (s.queue.plain.sendOne tick).map fun x =>
        (bodies s.output.frames + x.1.elim 0 ({·}), x.2) := by
  have hpackets : s.queue.plain.queue.packets = s.queue.packets := rfl
  have hunreliable : s.queue.plain.queue.queuedUnreliable = s.queue.queuedUnreliable := rfl
  unfold Burst.sendOne Plain.sendOne
  rw [card_plain, hpackets, hunreliable]
  by_cases hfull : maxInFlightPackets ≤ s.queue.sentPacket.length ∧ s.queue.queuedUnreliable = 0
  · rw [if_pos hfull, if_pos hfull]
    rfl
  rw [if_neg hfull, if_neg hfull]
  cases hq : s.queue.packets with
  | nil => rfl
  | cons f rest =>
    simp only
    by_cases hturn : (f.isReliable && decide (maxInFlightPackets ≤ s.queue.sentPacket.length)) = true
    · rw [if_pos hturn, if_pos hturn, Option.map_some, Option.map_some, Option.elim_none, add_zero]
      rfl
    · rw [if_neg hturn, if_neg hturn]
      obtain ⟨hplain, hbody, hframes, hcharge⟩ := number_plain s f rest
      rw [show (if s.queue.coalesce = true then (s.pop rest).assign f.packable f
        else (s.pop rest).fresh f) = s.number f rest from rfl]
      generalize s.number f rest = g at hplain hbody hframes hcharge
      have hout : bodies (g.2.output.frames ++ [g.1]) = bodies s.output.frames + {f.body} := by
        rw [hframes, bodies_append]
        unfold bodies
        rw [List.map_singleton, hbody]
        rfl
      cases hreliable : f.isReliable with
      | true =>
        rw [if_pos rfl, if_pos rfl, Option.map_some, Option.map_some, launch_plain g.2 hbody, hplain]
        exact congrArg (fun o => some (o, _)) hout
      | false =>
        rw [if_neg Bool.false_ne_true, if_neg Bool.false_ne_true, Option.map_some, Option.map_some]
        have hemit : (g.2.emit g.1).queue.plain = (s.queue.plain.wait rest).emit f := by
          rw [← hplain]
          unfold Plain.emit
          rw [← hcharge]
          rfl
        rw [hemit]
        exact congrArg (fun o => some (o, _)) hout

theorem sendLoop_plain : ∀ (n : ℕ) (s : Burst),
    Plain.sendLoop tick n (bodies s.output.frames, s.queue.plain) =
      (bodies (s.sendLoop tick n).output.frames, (s.sendLoop tick n).queue.plain)
  | 0, _ => rfl
  | n + 1, s => by
    have hone := sendOne_plain tick s
    unfold Burst.sendLoop Plain.sendLoop
    cases hs : s.sendOne tick with
    | none =>
      rw [hs, Option.map_none] at hone
      rw [Option.map_eq_none_iff.mp hone.symm]
    | some s' =>
      rw [hs, Option.map_some] at hone
      obtain ⟨⟨sent, a⟩, ha, he⟩ := Option.map_eq_some_iff.mp hone.symm
      simp only [Prod.mk.injEq] at he
      obtain ⟨hout, rfl⟩ := he
      rw [ha]
      simp only
      rw [hout]
      exact sendLoop_plain n s'

/-! ### Insertion -/

section insertion

variable {m : Message}

/-- An insertion looks at nothing that the plain queue has not. -/
theorem husk_unseen (hpolicy : B.sendPolicy = false) : Unseen B SendQ.husk := by
  refine ⟨fun _ => rfl, fun _ _ _ => rfl, fun _ => rfl, fun _ => rfl, fun _ => rfl, fun _ => rfl,
    fun _ => rfl, fun _ _ => rfl, fun _ => rfl, fun _ _ => rfl, fun _ _ => rfl,
    fun _ _ => rfl, fun f q => ?_, fun _ _ _ => rfl⟩
  show (q.pushUnreliable B f).husk = (q.husk.pushUnreliable B f).husk
  unfold SendQ.pushUnreliable
  rw [hpolicy]
  rfl

theorem insertPayload_plain (h : q.insertPayload B m = .ok q') : q'.plain.flight = q.plain.flight := by
  have hbehind := insertPayload_behind h
  have hactive : q'.activeProbe = q.activeProbe :=
    activeProbe_perm hbehind.recovery (hbehind.sentPacket ▸ .refl _)
  unfold SendQ.plain
  rw [underway_congr (insertPayload_steady h).rto hactive, hbehind.sentPacket]

end insertion

end plain

/-! ### The plain queue without any number

A build with `send-policy` numbers an unreliable frame when it is inserted, although the flush gives
it another number. -/

/-- The queue without the numbers of the frames that wait. -/
def SendQ.unnumbered (q : SendQ) : SendQ := { q with packets := q.packets.map QueuedFrame.body }

/-- A plain queue of which only a part is looked at. -/
def Plain.view (V : SendQ → SendQ) (a : Plain) : Plain := { a with queue := V a.queue }

/-- The operations of the plain queue do not depend on what `V` leaves out. -/
structure View (B : Build) (V : SendQ → SendQ) : Prop where
  flush : ∀ (a : Plain) tick,
    (a.view V).flush tick = ((a.flush tick).1, (a.flush tick).2.view V)
  enableCoalescing : ∀ q : SendQ, V q.enableCoalescing = (V q).enableCoalescing
  unseen : Unseen B fun q => V q.husk

section view

variable {B : Build} {tick : ℤ}

theorem sendOne_unnumbered (a : Plain) : (a.view .unnumbered).sendOne tick =
    (a.sendOne tick).map fun s => (s.1, s.2.view .unnumbered) := by
  unfold Plain.sendOne
  have hpackets : (a.view .unnumbered).queue.packets = a.queue.packets.map QueuedFrame.body := rfl
  have hfull : (maxInFlightPackets ≤ (a.view .unnumbered).flight.card ∧
      (a.view .unnumbered).queue.queuedUnreliable = 0) ↔
      maxInFlightPackets ≤ a.flight.card ∧ a.queue.queuedUnreliable = 0 := Iff.rfl
  rw [hpackets]
  by_cases h : maxInFlightPackets ≤ a.flight.card ∧ a.queue.queuedUnreliable = 0
  · rw [if_pos h, if_pos (hfull.mpr h), Option.map_none]
  rw [if_neg h, if_neg fun h' => h (hfull.mp h')]
  cases a.queue.packets with
  | nil => rfl
  | cons f rest =>
    have hreliable : f.body.isReliable = f.isReliable := rfl
    have hflight : (a.view .unnumbered).flight = a.flight := rfl
    simp only [List.map_cons, hreliable, hflight]
    split_ifs
    · simp [Plain.view, Plain.wait, SendQ.unnumbered]
    · rfl
    · rfl

theorem sendLoop_unnumbered (n : ℕ) (o : Multiset QueuedFrame) (a : Plain) :
    Plain.sendLoop tick n (o, a.view .unnumbered) =
      ((Plain.sendLoop tick n (o, a)).1, (Plain.sendLoop tick n (o, a)).2.view .unnumbered) := by
  induction n generalizing o a with
  | zero => rfl
  | succ n ih =>
    unfold Plain.sendLoop
    simp only [sendOne_unnumbered]
    cases a.sendOne tick with
    | none => rfl
    | some s => exact ih _ _

theorem flush_unnumbered (a : Plain) (tick : ℤ) : (a.view .unnumbered).flush tick =
    ((a.flush tick).1, (a.flush tick).2.view .unnumbered) := by
  have hexpire : (a.view .unnumbered).expire tick = (a.expire tick).view .unnumbered :=
    congrArg (fun q => Plain.mk q (a.flight.map (Underway.expire tick)))
      (apply_ite SendQ.unnumbered _ (Plain.unpack a.queue) a.queue).symm
  have hlength : (a.view .unnumbered).queue.packets.length = a.queue.packets.length :=
    List.length_map _
  unfold Plain.flush
  rw [hexpire, hlength]
  exact sendLoop_unnumbered _ (a.expire tick).lost ((a.expire tick).resend tick)

theorem unnumbered_unseen : Unseen B fun q => q.husk.unnumbered := by
  have htwice : ∀ l : List QueuedFrame,
      (l.map QueuedFrame.body).map QueuedFrame.body = l.map QueuedFrame.body :=
    fun l => by
      rw [List.map_map]
      rfl
  have hpush : ∀ (l : List QueuedFrame) (f f' : QueuedFrame), f.body = f'.body →
      (l ++ [f]).map QueuedFrame.body = (l.map QueuedFrame.body ++ [f']).map QueuedFrame.body := by
    intro l f f' he
    rw [List.map_append, List.map_append, htwice, List.map_singleton, List.map_singleton, he]
  have hpackets : ∀ (q : SendQ) {l l' : List QueuedFrame}, l = l' →
      ({ q with packets := l } : SendQ) = { q with packets := l' } := fun q _ _ he => by rw [he]
  refine ⟨fun q => ?_, fun _ _ _ => rfl, fun _ => rfl, fun _ => rfl, fun _ => rfl, fun _ => rfl,
    fun _ => rfl, fun _ q => ?_, fun q => ?_, fun _ q => ?_, fun _ q => ?_, fun f q => ?_,
    fun f q => ?_, fun _ _ q => ?_⟩
  · exact hpackets _ (htwice q.packets)
  · exact hpackets _ (htwice q.packets).symm
  · exact hpackets _ (htwice q.packets).symm
  · exact hpackets _ (htwice q.packets).symm
  · exact hpackets _ (htwice q.packets).symm
  · exact hpackets _ (hpush q.packets _ _ rfl)
  · show (q.pushUnreliable B f).husk.unnumbered =
      (q.husk.unnumbered.pushUnreliable B f).husk.unnumbered
    have hs : q.husk.unnumbered.scheduler = q.scheduler := rfl
    unfold SendQ.pushUnreliable
    rw [hs]
    cases B.sendPolicy with
    | false => exact hpackets _ (hpush q.packets _ _ rfl)
    | true =>
      cases q.scheduler with
      | none => exact hpackets _ (hpush q.packets _ _ rfl)
      | some s => exact hpackets _ (htwice q.packets).symm
  · exact hpackets _ (htwice q.packets).symm

theorem view_id (hpolicy : B.sendPolicy = false) : View B id :=
  ⟨fun _ _ => rfl, fun _ => rfl, husk_unseen hpolicy⟩

theorem view_unnumbered : View B .unnumbered :=
  ⟨flush_unnumbered, fun _ => rfl, unnumbered_unseen⟩

end view

/-! ### Operations -/

/-- The operations of a sender that hears nothing. -/
def Op.silent : Op → Bool
  | .insert _ | .flush _ | .enableCoalescing => true
  | _ => false

/-- A message is queued, or refused. -/
def Plain.insert (V : SendQ → SendQ) (B : Build) (a : Plain) (m : Message) : Plain :=
  (a.queue.insertPayload B m).toOption.elim a fun queue => { a with queue := V queue.husk }

/-- One operation of the plain queue, with the frames transmitted so far and their times. -/
def Plain.step (V : SendQ → SendQ) (B : Build) (s : Plain × Multiset (ℤ × QueuedFrame)) :
    Op → Plain × Multiset (ℤ × QueuedFrame)
  | .insert m => (s.1.insert V B m, s.2)
  | .flush tick => ((s.1.flush tick).2, s.2 + (s.1.flush tick).1.map fun f => (tick, f))
  | .enableCoalescing => ({ s.1 with queue := s.1.queue.enableCoalescing }, s.2)
  | _ => s

theorem View.insert {B : Build} {V : SendQ → SendQ} (h : View B V) (q : SendQ) (m : Message) :
    (q.plain.view V).insert V B m = (q.insertPayload B m).toOption.elim (q.plain.view V) fun q' =>
      { q.plain.view V with queue := V q'.husk } := by
  have he := h.unseen.insertPayload (m := m) q
  unfold Plain.insert
  rw [show (q.plain.view V).queue = V q.husk from rfl]
  cases hq : q.insertPayload B m <;> cases hq' : (V q.husk).insertPayload B m <;>
    rw [hq, hq'] at he
  · rfl
  · cases he
  · cases he
  · exact congrArg (Plain.mk · q.plain.flight) (Except.ok.inj he).symm

end RustRaknet.Send
