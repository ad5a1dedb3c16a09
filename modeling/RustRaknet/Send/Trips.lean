import RustRaknet.Send.Conserve
import RustRaknet.Send.Samples
import RustRaknet.Send.Stowage

/-! # The transmissions of a frame

A run with its history: every frame that was handed out, with the tick of the flush, and every frame
that was sampled. A frame in flight whose number was never changed has been sent once, at the time
its entry shows. Without `recovery-policy`, so has a frame that was never sent again, whatever its
entry shows (`Traced`). -/

namespace RustRaknet.Send

open RustRaknet.Frame RustRaknet.Lib.Machine RustRaknet.Lib.Result

/-! ### Runs with a history -/

/-- A run, the frames transmitted so far and the frames sampled so far, each with its tick. -/
structure History where
  run : Run
  transmissions : List (ℤ × QueuedFrame)
  samples : List (ℤ × InFlight)

namespace History

/-- A new queue. -/
def new (mtu : Fin 65536) : History := ⟨.new mtu, [], []⟩

/-- The frames of a burst, with the tick of the flush. -/
def burst (h : History) (B : Build) : Op → List (ℤ × QueuedFrame)
  | .flush tick => (h.run.queue.flush B tick).1.frames.map fun f => (tick, f)
  | _ => []

/-- One operation. -/
def step (B : Build) (h : History) (op : Op) : History where
  run := h.run.step B op
  transmissions := h.transmissions ++ h.burst B op
  samples := h.samples ++ (h.run.queue.samples B op).map fun p => (op.tick, p)

end History

/-- The history of a list of operations. -/
def history (B : Build) (mtu : Fin 65536) (ops : List Op) : History :=
  Lib.Machine.run (History.step B) (.new mtu) ops

theorem history_append (B : Build) (mtu : Fin 65536) (ops : List Op) (op : Op) :
    history B mtu (ops ++ [op]) = (history B mtu ops).step B op :=
  Lib.Machine.run_append _ _ ops op

theorem history_run (B : Build) (mtu : Fin 65536) (ops : List Op) :
    (history B mtu ops).run = run B mtu ops := by
  induction ops using List.reverseRecOn with
  | nil => rfl
  | append_singleton ops op ih =>
    rw [history_append, run_append, ← ih]
    rfl

/-! ### What has been transmitted has left the queue -/

namespace Ledger

/-- The frames in flight and those that are gone. -/
def away (L : Ledger) : Multiset QueuedFrame := bodies (L.flight.map InFlight.packet) + L.gone

/-- A move calls no frame back. -/
theorem away_step {L L' : Ledger} (h : Step L L') {b : QueuedFrame} (hb : b ∈ L.away) :
    b ∈ L'.away := by
  have hpush : ∀ (f : QueuedFrame), b ∈ bodies ((L.flight ++ [entry f]).map InFlight.packet) +
      L.gone := by
    intro f
    rw [List.map_append, bodies_append]
    rcases Multiset.mem_add.mp hb with hb | hb
    · exact Multiset.mem_add.mpr (.inl (Multiset.mem_add.mpr (.inl hb)))
    · exact Multiset.mem_add.mpr (.inr hb)
  have hemit : ∀ (f : QueuedFrame), b ∈ bodies (L.flight.map InFlight.packet) +
      (bodies (L.retired.map Retired.packet) + bodies (L.emitted ++ [f])) := by
    intro f
    rw [bodies_append, ← add_assoc, ← add_assoc]
    exact Multiset.mem_add.mpr (.inl (by rw [add_assoc]; exact hb))
  cases h with
  | acceptReliable | acceptUnreliable | acceptNumbered | acceptScheduled | migrate | burst | rotate
  | ungroup => exact hb
  | renumber h hp | resend h hp =>
    unfold away
    rw [bodies_set _ h (by rfl)]
    exact hb
  | launch h hf | join h hf hg => exact hpush _
  | emit h hf | emitScheduled h => exact hemit _
  | @retire i p id h hid =>
    obtain ⟨l₁, l₂, hl, -, herase⟩ := split_at h
    unfold away gone retireAt at *
    rw [hl] at hb
    simp only [herase, Ledger.release, List.map_append, List.map_cons, List.map_nil, bodies_append,
      bodies_cons, bodies_nil, Multiset.mem_add] at hb ⊢
    tauto
  | sort hperm =>
    unfold away
    rw [bodies_perm (hperm.map _)]
    exact hb
  | probe hout hall hperm =>
    have hsame : bodies ((L.flight.map fun p => { L.renumbered p with sent := true }).map
        InFlight.packet) = bodies (L.flight.map InFlight.packet) := by
      rw [List.map_map]
      exact bodies_congr fun _ => rfl
    unfold away
    rw [bodies_perm (hperm.map _), hsame]
    exact hb

/-- What a burst has handed out is in flight or gone. -/
def Shipped (L : Ledger) : Prop := ∀ f ∈ L.outbox, f.body ∈ L.away

theorem Shipped.step {L L' : Ledger} (h : L.Shipped) (hstep : Step L L') : L'.Shipped := by
  have hpush : ∀ {g : QueuedFrame}, L'.outbox = L.outbox ++ [g] → g.body ∈ L'.away →
      L'.Shipped := by
    intro g hout hg f hf
    obtain hf | rfl := Lib.mem_snoc.mp (hout ▸ hf)
    · exact away_step hstep (h f hf)
    · exact hg
  have hflight : ∀ {p : InFlight}, p ∈ L'.flight → p.packet.body ∈ L'.away := fun hp =>
    Multiset.mem_add.mpr (.inl (mem_bodies.mpr ⟨_, List.mem_map_of_mem hp, rfl⟩))
  have hemitted : ∀ {f : QueuedFrame}, f ∈ L'.emitted → f.body ∈ L'.away := fun hf =>
    Multiset.mem_add.mpr (.inr (Multiset.mem_add.mpr (.inr (mem_bodies.mpr ⟨_, hf, rfl⟩))))
  cases hstep with
  | burst => exact fun f hf => absurd hf List.not_mem_nil
  | @resend i p hi hp =>
    refine hpush rfl ?_
    unfold away
    rw [bodies_set _ hi (by rfl)]
    exact Multiset.mem_add.mpr (.inl (mem_bodies.mpr
      ⟨p.packet, List.mem_map_of_mem (List.mem_of_getElem? hi), rfl⟩))
  | @launch f rest hpackets hf =>
    exact hpush rfl (hflight (p := entry (L.fresh f))
      (List.mem_append_right _ List.mem_cons_self))
  | @join f g rest hpackets hf hg =>
    exact hpush rfl (hflight (p := entry (f.numbered g.frame.sequenceNumber g.datagram))
      (List.mem_append_right _ List.mem_cons_self))
  | emit hpackets hf | emitScheduled hunreliable =>
    exact hpush rfl (hemitted (List.mem_append_right _ List.mem_cons_self))
  | probe hout hall hperm =>
    intro f hf
    obtain ⟨p, hp, rfl⟩ := List.mem_map.mp hf
    exact hflight hp
  | acceptReliable hadm hr => exact fun f hf => away_step (.acceptReliable hadm hr) (h f hf)
  | acceptUnreliable hadm hr hs => exact fun f hf => away_step (.acceptUnreliable hadm hr hs) (h f hf)
  | acceptNumbered hadm hr hs => exact fun f hf => away_step (.acceptNumbered hadm hr hs) (h f hf)
  | acceptScheduled hadm hr hs => exact fun f hf => away_step (.acceptScheduled hadm hr hs) (h f hf)
  | migrate hs => exact fun f hf => away_step (.migrate hs) (h f hf)
  | renumber hi hp => exact fun f hf => away_step (.renumber hi hp) (h f hf)
  | rotate hpackets => exact fun f hf => away_step (.rotate hpackets) (h f hf)
  | retire hi hid => exact fun f hf => away_step (.retire hi hid) (h f hf)
  | sort hperm => exact fun f hf => away_step (.sort hperm) (h f hf)
  | ungroup hempty => exact fun f hf => away_step (.ungroup hempty) (h f hf)

end Ledger

theorem shipped_run (B : Build) (mtu : Fin 65536) (ops : List Op) :
    (run B mtu ops).ledger.Shipped :=
  run_preserves (I := Ledger.Shipped) (fun hstep h => h.step hstep) B mtu
    (fun _ hf => absurd hf List.not_mem_nil) ops

/-- Every transmitted frame is in flight or gone. -/
theorem transmissions_away (B : Build) (mtu : Fin 65536) (ops : List Op) :
    ∀ e ∈ (history B mtu ops).transmissions, e.2.body ∈ (run B mtu ops).ledger.away := by
  induction ops using List.reverseRecOn with
  | nil => exact fun _ he => absurd he List.not_mem_nil
  | append_singleton ops op ih =>
    have hsteps := (step_steps (run B mtu ops) op (run_steps B mtu ops).1).2
    have hshipped := shipped_run B mtu (ops ++ [op])
    rw [run_append] at hshipped
    rw [history_append, run_append]
    have hrun := history_run B mtu ops
    generalize history B mtu ops = h at hrun ih
    obtain ⟨r, transmissions, samples⟩ := h
    subst hrun
    generalize run B mtu ops = r at ih hsteps hshipped ⊢
    intro e he
    rcases List.mem_append.mp he with he | he
    · exact Ledger.Steps.preserves (I := fun L => e.2.body ∈ L.away)
        (fun hstep hb => Ledger.away_step hstep hb) hsteps (ih e he)
    · cases op with
      | flush tick =>
        obtain ⟨f, hf, rfl⟩ := List.mem_map.mp he
        exact hshipped f hf
      | _ => exact absurd he List.not_mem_nil

/-- The frames of the queue and of the flight are all different. -/
theorem bodies_nodup (B : Build) (mtu : Fin 65536) (ops : List Op) :
    (((run B mtu ops).queue.queued ++ (run B mtu ops).queue.sentPacket.map InFlight.packet).map
      QueuedFrame.body).Nodup ∧
    ∀ f ∈ (run B mtu ops).queue.queued, f.body ∉ (run B mtu ops).ledger.away := by
  obtain ⟨-, hconserved, -⟩ := conserved_run B mtu ops
  have hnodup : ((run B mtu ops).ledger.held + (run B mtu ops).ledger.gone).Nodup := by
    rw [hconserved]
    exact accepted_nodup _ _
  have hheld : (run B mtu ops).ledger.held =
      bodies (run B mtu ops).queue.queued +
        bodies ((run B mtu ops).queue.sentPacket.map InFlight.packet) := by
    unfold Ledger.held SendQ.queued Run.ledger
    simp only [bodies_append, List.map_map]
    have hpackets : (InFlight.packet ∘ InFlight.timeless) = InFlight.packet := rfl
    rw [hpackets]
    abel
  have haway : (run B mtu ops).ledger.away =
      bodies ((run B mtu ops).queue.sentPacket.map InFlight.packet) +
        (run B mtu ops).ledger.gone := by
    unfold Ledger.away Run.ledger
    simp only [List.map_map]
    rfl
  rw [hheld] at hnodup
  refine ⟨?_, fun f hf hmem => ?_⟩
  · have hleft := (Multiset.nodup_add.mp hnodup).1
    rw [← bodies_append] at hleft
    exact Multiset.coe_nodup.mp hleft
  · rw [add_assoc, ← haway] at hnodup
    exact Multiset.disjoint_left.mp (Multiset.nodup_add.mp hnodup).2.2
      (mem_bodies.mpr ⟨f, hf, rfl⟩) hmem

/-! ### The trips of a frame -/

/-- The transmissions of a frame. -/
def trips (sent : List (ℤ × QueuedFrame)) (f : QueuedFrame) : List (ℤ × QueuedFrame) :=
  sent.filter fun e => e.2.body = f.body

section trips

variable {sent : List (ℤ × QueuedFrame)} {f g : QueuedFrame} {tick : ℤ}

theorem trips_snoc_self (h : g.body = f.body) :
    trips (sent ++ [(tick, g)]) f = trips sent f ++ [(tick, g)] := by
  simp [trips, List.filter_append, h]

theorem trips_snoc_other (h : g.body ≠ f.body) : trips (sent ++ [(tick, g)]) f = trips sent f := by
  simp [trips, List.filter_append, h]

theorem trips_congr (h : g.body = f.body) : trips sent g = trips sent f := by
  simp [trips, h]

end trips

/-- **What the entry of a frame in flight tells of its trips.** -/
structure Traced (B : Build) (sent : List (ℤ × QueuedFrame)) (p : InFlight) : Prop where
  original : p.previous = [] →
    p.sent = true ∧ p.retries = 0 ∧ trips sent p.packet = [(p.time, p.packet)]
  once : B.recoveryPolicy = false → p.retries = 0 → ∃ e, trips sent p.packet = [e]
  settled : B.recoveryPolicy = false → p.retries = 0 → p.sent = true → p.previous = []

namespace Traced

variable {B : Build} {sent sent' : List (ℤ × QueuedFrame)} {p : InFlight}

theorem congr (h : Traced B sent p) (htrips : trips sent' p.packet = trips sent p.packet) :
    Traced B sent' p :=
  ⟨fun hp => htrips ▸ h.original hp, fun hB hp => htrips ▸ h.once hB hp, h.settled⟩

theorem pushPrevious_ne_nil (l : List ℕ) (id : ℕ) : pushPrevious l id ≠ [] := by
  simp [pushPrevious]

theorem renumber (h : Traced B sent p) (sequence d : ℕ) (time : ℤ) :
    Traced B sent { p.renumber sequence d with time } where
  original hp := absurd hp (pushPrevious_ne_nil _ _)
  once hB hp := h.once hB hp
  settled _ _ hsent := by cases hsent

theorem eased (h : Traced B sent p) : Traced B sent p.eased := by
  have hretries : p.eased.retries = 0 ↔ p.retries = 0 := by
    show min p.retries 1 = 0 ↔ p.retries = 0
    omega
  exact ⟨fun hp => ⟨(h.original hp).1, hretries.mpr (h.original hp).2.1, (h.original hp).2.2⟩,
    fun hB hp => h.once hB (hretries.mp hp), fun hB hp => h.settled hB (hretries.mp hp)⟩

theorem resend (h : Traced B sent p) (hsent : p.sent = false) {probeSequence : Option ℕ}
    (hprobe : B.recoveryPolicy = false → probeSequence = none) (tick : ℤ) :
    Traced B sent' { p with
      sent := true
      time := tick
      retries := if probeSequence = some p.sequence then p.retries
        else min (p.retries + 1) 4294967295 } := by
  have hcount : B.recoveryPolicy = false → (if probeSequence = some p.sequence then p.retries
      else min (p.retries + 1) 4294967295) ≠ 0 := by
    intro hB
    rw [hprobe hB, if_neg (by simp)]
    omega
  exact ⟨fun hp => absurd ((h.original hp).1.symm.trans hsent) (by simp),
    fun hB hp => absurd hp (hcount hB), fun hB hp => absurd hp (hcount hB)⟩

theorem launch {f : QueuedFrame} {tick : ℤ} (h : trips sent f = [(tick, f)]) :
    Traced B sent ⟨f, true, tick, 0, [], []⟩ :=
  ⟨fun _ => ⟨rfl, rfl, h⟩, fun _ _ => ⟨_, h⟩, fun _ _ _ => rfl⟩

end Traced

/-- Between two bursts the entries stay true. -/
theorem Fates.traced {B : Build} {sent : List (ℤ × QueuedFrame)} {D D' : Deck} (h : Fates D D')
    (hD : ∀ p ∈ D.flight, Traced B sent p) : ∀ p ∈ D'.flight, Traced B sent p := by
  induction h with
  | refl => exact hD
  | tail _ hfate ih =>
    cases hfate with
    | reissue hi hp sequence time =>
      intro p' hp'
      rcases List.mem_or_eq_of_mem_set hp' with hp' | rfl
      · exact ih p' hp'
      · exact (ih _ (List.mem_of_getElem? hi)).renumber sequence _ time
    | retire hsub => exact fun p hp => ih p (hsub.subset hp)
    | ease =>
      intro p' hp'
      obtain ⟨p, hp, rfl⟩ := List.mem_map.mp hp'
      exact (ih p hp).eased
    | skip => exact ih

/-! ### A burst -/

/-- A burst whose entries are true, when `sent` was transmitted before it. -/
structure Tracing (B : Build) (sent : List (ℤ × QueuedFrame)) (tick : ℤ) (s : Burst) : Prop where
  nodup : ((s.queue.queued ++ s.queue.sentPacket.map InFlight.packet).map QueuedFrame.body).Nodup
  waiting : ∀ f ∈ s.queue.queued, trips (sent ++ s.output.frames.map fun f => (tick, f)) f = []
  flight : ∀ p ∈ s.queue.sentPacket,
    Traced B (sent ++ s.output.frames.map fun f => (tick, f)) p

namespace Tracing

variable {B : Build} {sent : List (ℤ × QueuedFrame)} {tick : ℤ} {s s' : Burst}

theorem stay (h : Tracing B sent tick s) (hqueued : s'.queue.queued.Perm s.queue.queued)
    (hflight : s'.queue.sentPacket = s.queue.sentPacket)
    (houtput : s'.output.frames = s.output.frames) : Tracing B sent tick s' := by
  refine ⟨?_, fun f hf => ?_, ?_⟩
  · rw [hflight]
    exact (((hqueued.append_right _).map _).nodup_iff).mpr h.nodup
  · rw [houtput]
    exact h.waiting f (hqueued.mem_iff.mp hf)
  · rw [hflight, houtput]
    exact h.flight

theorem forget {f g : QueuedFrame} (h : Tracing B sent tick s)
    (hqueued : s.queue.queued.Perm (f :: s'.queue.queued)) (hbody : g.body = f.body)
    (hflight : s'.queue.sentPacket = s.queue.sentPacket)
    (houtput : s'.output.frames = s.output.frames ++ [g]) : Tracing B sent tick s' := by
  have hnodup : ((f :: s'.queue.queued ++ s.queue.sentPacket.map InFlight.packet).map
      QueuedFrame.body).Nodup := (((hqueued.append_right _).map _).nodup_iff).mp h.nodup
  simp only [List.cons_append, List.map_cons, List.nodup_cons] at hnodup
  have hother : ∀ k ∈ s'.queue.queued ++ s.queue.sentPacket.map InFlight.packet,
      g.body ≠ k.body := by
    intro k hk he
    exact hnodup.1 (hbody ▸ he ▸ List.mem_map_of_mem hk)
  refine ⟨hflight ▸ hnodup.2, fun k hk => ?_, fun p hp => ?_⟩
  · rw [houtput, List.map_append, ← List.append_assoc]
    refine (trips_snoc_other (hother k (List.mem_append_left _ hk))).trans (h.waiting k ?_)
    exact hqueued.mem_iff.mpr (List.mem_cons_of_mem _ hk)
  · rw [hflight] at hp
    rw [houtput, List.map_append, ← List.append_assoc]
    exact (h.flight p hp).congr
      (trips_snoc_other (hother _ (List.mem_append_right _ (List.mem_map_of_mem hp))))

/-- A frame leaves the queue and enters the flight. -/
theorem launch {f g : QueuedFrame} (h : Tracing B sent tick s)
    (hqueued : s.queue.queued.Perm (f :: s'.queue.queued)) (hbody : g.body = f.body)
    (hflight : s'.queue.sentPacket = s.queue.sentPacket ++ [⟨g, true, tick, 0, [], []⟩])
    (houtput : s'.output.frames = s.output.frames ++ [g]) : Tracing B sent tick s' := by
  have hforget : Tracing B sent tick { s' with
      queue := { s'.queue with sentPacket := s.queue.sentPacket } } :=
    h.forget hqueued hbody rfl houtput
  refine ⟨?_, hforget.waiting, fun p hp => ?_⟩
  · have hperm : (s'.queue.queued ++ s'.queue.sentPacket.map InFlight.packet).Perm
        (g :: (s'.queue.queued ++ s.queue.sentPacket.map InFlight.packet)) := by
      rw [hflight, List.map_append, ← List.append_assoc]
      exact List.perm_append_singleton _ _
    refine ((hperm.map QueuedFrame.body).nodup_iff).mpr ?_
    have hnodup : ((f :: s'.queue.queued ++ s.queue.sentPacket.map InFlight.packet).map
        QueuedFrame.body).Nodup := (((hqueued.append_right _).map _).nodup_iff).mp h.nodup
    rw [List.map_cons, hbody]
    exact hnodup
  · rcases List.mem_append.mp (hflight ▸ hp) with hp | hp
    · exact hforget.flight p hp
    · rw [List.mem_singleton.mp hp, houtput, List.map_append, ← List.append_assoc]
      refine Traced.launch ?_
      have hwaiting := h.waiting f (hqueued.mem_iff.mpr List.mem_cons_self)
      exact (trips_snoc_self rfl).trans (by rw [trips_congr hbody, hwaiting]; rfl)

theorem resend {i : ℕ} {p : InFlight} {probeSequence : Option ℕ} (h : Tracing B sent tick s)
    (hprobe : B.recoveryPolicy = false → probeSequence = none)
    (hi : s.queue.sentPacket[i]? = some p) (hsent : p.sent = false) :
    Tracing B sent tick (s.resend probeSequence tick i p).closeGroup := by
  obtain ⟨l₁, l₂, hl, hset, -⟩ := Ledger.split_at hi
  have hnodup := h.nodup
  rw [hl] at hnodup
  have hapart : ∀ k ∈ s.queue.queued ++ (l₁ ++ l₂).map InFlight.packet,
      p.packet.body ≠ k.body := by
    have hperm : (s.queue.queued ++ (l₁ ++ p :: l₂).map InFlight.packet).Perm
        (p.packet :: (s.queue.queued ++ (l₁ ++ l₂).map InFlight.packet)) := by
      simp only [List.map_append, List.map_cons]
      exact (List.perm_middle.append_left _).trans List.perm_middle
    have hcons := ((hperm.map QueuedFrame.body).nodup_iff).mp hnodup
    rw [List.map_cons, List.nodup_cons] at hcons
    exact fun k hk he => hcons.1 (he ▸ List.mem_map_of_mem hk)
  have houtput : (s.resend probeSequence tick i p).closeGroup.output.frames =
      s.output.frames ++ [p.packet] := rfl
  refine ⟨?_, fun k hk => ?_, fun p' hp' => ?_⟩
  · show ((s.queue.queued ++ (s.queue.sentPacket.set i _).map InFlight.packet).map _).Nodup
    rw [hset]
    simpa using hnodup
  · rw [houtput, List.map_append, ← List.append_assoc]
    exact (trips_snoc_other (hapart k (List.mem_append_left _ hk))).trans (h.waiting k hk)
  · have hmem : p' ∈ s.queue.sentPacket.set i _ := hp'
    rw [hset] at hmem
    rw [houtput, List.map_append, ← List.append_assoc]
    have hothers : ∀ p' ∈ l₁ ++ l₂, Traced B ((sent ++ s.output.frames.map fun f => (tick, f)) ++
        [p.packet].map fun f => (tick, f)) p' := by
      intro p' hp'
      refine (h.flight p' ?_).congr
        (trips_snoc_other (hapart _ (List.mem_append_right _ (List.mem_map_of_mem hp'))))
      rw [hl]
      exact List.perm_middle.mem_iff.mpr (List.mem_cons_of_mem _ hp')
    rcases List.mem_cons.mp (List.perm_middle.mem_iff.mp hmem) with rfl | hp'
    · exact (h.flight p (List.mem_of_getElem? hi)).resend hsent hprobe tick
    · exact hothers p' hp'

/-- **One turn of a burst** keeps the entries true. -/
theorem sends {probeSequence : Option ℕ} (h : Tracing B sent tick s)
    (hprobe : B.recoveryPolicy = false → probeSequence = none)
    (hsends : Sends probeSequence tick s s') : Tracing B sent tick s' := by
  have hpop : ∀ {f : QueuedFrame} {rest : List QueuedFrame}, s.queue.packets = f :: rest →
      s.queue.queued.Perm (f :: (rest ++ s.queue.scheduler.elim [] SendScheduler.unreliable)) := by
    intro f rest hpackets
    unfold SendQ.queued
    rw [hpackets]
    exact .refl _
  cases hsends with
  | resend hi hsent => exact h.resend hprobe hi hsent
  | @start f rest packable hpackets | @fresh f rest hpackets =>
    exact h.launch (g := f.numbered s.queue.sequenceNumber s.queue.allocated) (hpop hpackets) rfl rfl
      rfl
  | @join f rest x hpackets =>
    exact h.launch (g := f.numbered x s.group.datagram) (hpop hpackets) rfl rfl rfl
  | @emit f rest group hpackets =>
    exact h.forget (g := f.numbered s.queue.sequenceNumber s.queue.allocated) (hpop hpackets) rfl rfl
      rfl
  | @emitScheduled scheduler f rest hs hunreliable =>
    refine h.forget (f := f) (g := f.numbered s.queue.sequenceNumber s.queue.allocated) ?_ rfl rfl rfl
    have hqueued : s.queue.queued = s.queue.packets ++ f :: rest := by
      unfold SendQ.queued
      rw [hs, Option.elim_some, hunreliable]
    rw [hqueued]
    exact List.perm_middle
  | @rotate f rest hpackets =>
    refine h.stay ?_ rfl rfl
    have hqueued : s.queue.queued =
        (f :: rest) ++ s.queue.scheduler.elim [] SendScheduler.unreliable := by
      unfold SendQ.queued
      rw [hpackets]
    rw [hqueued]
    exact (List.perm_append_singleton f rest).append_right _
  | turnTo hs =>
    refine h.stay ?_ rfl rfl
    simp only [SendQ.queued, Burst.schedule, SendQ.schedule, hs, Option.elim_some]
    exact .refl _
  | clear => exact h.stay (.refl _) rfl rfl

end Tracing

/-! ### The state of the recovery -/

/-- What the state of the recovery keeps when progress is acknowledged, in a flush and when its
options are set. -/
structure Persists (B : Build) (P : Option Recovery → Prop) : Prop where
  start : P none
  progress : ∀ (q : SendQ) (retired sampledRtt : Bool) (tick : ℤ), P q.recovery →
    P (q.progress B retired sampledRtt tick).recovery
  flush : ∀ (q : SendQ) (tick : ℤ), P q.recovery → P (q.flush B tick).2.recovery
  options : ∀ (q : SendQ) (options : RecoveryOptions) (now : ℤ), B.recoveryPolicy = true →
    P q.recovery → P (q.setRecoveryOptions options now).recovery

section recovery

variable {B : Build} {P : Option Recovery → Prop} {tick : ℤ} {q : SendQ}

namespace Persists

theorem ackRule (h : Persists B P) : AckRule B fun q q' => P q.recovery → P q'.recovery where
  refl _ := id
  trans h h' := h' ∘ h
  reissue _ _ _ := id
  advanceAck _ _ := id
  progress := h.progress
  ungroup _ := id
  release _ _ := id
  updateRto _ _ := id
  setLatency _ _ _ := id

theorem step (h : Persists B P) {r : Run} (hr : P r.queue.recovery) (op : Op) :
    P (r.step B op).queue.recovery := by
  have hkept : ∀ {q : SendQ}, q.recovery = r.queue.recovery → P q.recovery := fun he => by
    rw [he]
    exact hr
  cases op with
  | insert m =>
    exact Run.insert_cases (fun q hq => hkept (congrArg Prod.snd (insertPayload_estimate hq))) hr
  | flush tick => exact h.flush r.queue tick hr
  | ack sequence tick =>
    exact h.ackRule.ack r.queue (fun _ _ => id) (fun _ _ _ => id) sequence hr
  | ackRanges ranges tick =>
    exact h.ackRule.ackRangesInner r.queue (fun _ _ => id) (fun _ _ _ => id) _ ranges hr
  | nack sequence tick => exact h.ackRule.nack r.queue sequence hr
  | nackRanges ranges tick => exact h.ackRule.nackRanges r.queue ranges hr
  | enableCoalescing => exact hr
  | setSendOptions options =>
    refine Run.setSendOptions_cases (fun q _ hq => ?_) hr
    exact hkept (congrArg Prod.snd (setSendOptions_estimate hq))
  | setRecoveryOptions options now =>
    exact Run.setRecoveryOptions_cases (fun hB => h.options r.queue options now hB hr) hr

theorem run (h : Persists B P) (mtu : Fin 65536) (ops : List Op) :
    P (Send.run B mtu ops).queue.recovery := by
  induction ops using List.reverseRecOn with
  | nil => exact h.start
  | append_singleton ops op ih =>
    rw [run_append]
    exact h.step ih op

end Persists

end recovery

/-! ### Builds without recovery -/

section unrecovered

variable {B : Build} {tick : ℤ} {q : SendQ}

/-- Without `recovery-policy` a flush begins to send without a probe. -/
theorem prepared_recovery (hB : B.recoveryPolicy = false) (h : q.recovery = none) :
    (q.prepared B tick).recovery = none := by
  have hsort : ∀ q : SendQ, (q.sortFlight B).recovery = q.recovery := by
    intro q
    unfold SendQ.sortFlight
    split_ifs <;> rfl
  have hrule : TickRule fun q q' : SendQ => q.recovery = none → q'.recovery = none :=
    ⟨⟨fun _ => id, fun h h' => h' ∘ h, fun _ _ _ => id⟩, fun _ _ => id,
      fun _ h => Option.map_eq_none_iff.mpr h⟩
  unfold SendQ.prepared
  rw [hsort]
  unfold SendQ.tick SendQ.entered
  simp only [hB, Bool.false_and, Bool.false_eq_true, if_false]
  exact hrule.expire B q tick h

theorem flush_recovery (hB : B.recoveryPolicy = false) (h : q.recovery = none) :
    (q.flush B tick).2.recovery = none := by
  obtain ⟨s, hsends, retriesPending, scheduler, hresult, -⟩ := flush_sends B q tick
  have hburst : (q.prepared B tick).burst.queue.recovery = none :=
    congrArg (Option.map _) (prepared_recovery hB h)
  rw [hresult]
  exact (congrArg Prod.snd (sends_estimate hsends)).trans hburst

/-- **Without `recovery-policy` there is no recovery state.** -/
theorem unrecovered_run (hB : B.recoveryPolicy = false) (mtu : Fin 65536) (ops : List Op) :
    (run B mtu ops).queue.recovery = none := by
  have hpersists : Persists B (· = none) := by
    refine ⟨rfl, fun q retired sampledRtt tick h => ?_, fun q tick h => flush_recovery hB h,
      fun q options now hon => ?_⟩
    · rw [progress_default B _ hB]
      exact h
    · rw [hB] at hon
      cases hon
  exact hpersists.run mtu ops

end unrecovered

end RustRaknet.Send
