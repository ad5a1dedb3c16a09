import RustRaknet.Send.Held

/-! # No frame is lost or duplicated

Every frame of every accepted message is in one place: queued, in flight, retired by an
acknowledgement, or, if it is unreliable, emitted. Nothing of it changes but its datagram number.

The reliable index of a frame is its position among all reliable frames, modulo 2^24. Two frames
that the queue holds therefore have different indexes as long as no held frame is older than 2^24
positions. It is not enough that fewer than 2^24 frames are held: see `Send.Stuck`. -/

namespace RustRaknet.Send

open RustRaknet.Frame Ledger

/-! ### The frames of the log -/

section accepted

variable (limit : ℕ)

/-- The position of a frame among the reliable frames of the log. -/
def QueuedFrame.position (log : List Message) (f : QueuedFrame) : ℕ :=
  (counters limit (log.take f.message)).reliable + f.frame.fragmentIndex

theorem position_append {log : List Message} {f : QueuedFrame} (m : Message)
    (h : f.message < log.length) :
    f.position limit (log ++ [m]) = f.position limit log := by
  unfold QueuedFrame.position
  rw [List.take_append_of_le_length h.le]

theorem frames_position (log : List Message) (m : Message) :
    (m.frames limit log.length (counters limit log)).map
      (QueuedFrame.position limit (log ++ [m])) =
      (List.range (m.count limit)).map fun i => (counters limit log).reliable + i := by
  unfold Message.frames
  split_ifs with hf
  · rw [List.map_map]
    refine List.map_congr_left fun i _ => ?_
    simp [QueuedFrame.position, Message.fragment]
  · simp [count_single hf, QueuedFrame.position, Message.single, FrameSetPacket.fromPayload]

theorem frames_message {number : ℕ} {c : Counters} {m : Message} {f : QueuedFrame}
    (h : f ∈ m.frames limit number c) : f.message = number := by
  unfold Message.frames at h
  split_ifs at h
  · obtain ⟨i, -, rfl⟩ := List.mem_map.mp h
    rfl
  · rw [List.mem_singleton.mp h]

theorem accepted_message (log : List Message) :
    ∀ f ∈ accepted limit log, f.message < log.length := by
  induction log using List.reverseRecOn with
  | nil => exact fun f hf => by cases hf
  | append_singleton log m ih =>
    intro f hf
    rw [accepted_append] at hf
    rw [List.length_append, List.length_singleton]
    rcases List.mem_append.mp hf with hf | hf
    · have := ih f hf
      omega
    · have := frames_message limit hf
      omega

/-- The reliable frames of a log have the positions 0, 1, 2, … -/
theorem accepted_position (log : List Message) :
    ((accepted limit log).filter QueuedFrame.isReliable).map (QueuedFrame.position limit log) =
      List.range (counters limit log).reliable := by
  induction log using List.reverseRecOn with
  | nil => rfl
  | append_singleton log m ih =>
    rw [accepted_append, List.filter_append, List.map_append, counters_append]
    have hold : ((accepted limit log).filter QueuedFrame.isReliable).map
        (QueuedFrame.position limit (log ++ [m])) = List.range (counters limit log).reliable := by
      rw [← ih]
      refine List.map_congr_left fun f hf => position_append limit m ?_
      exact accepted_message limit log f (List.mem_of_mem_filter hf)
    rw [hold]
    cases hr : m.reliability.isReliable
    · rw [List.filter_eq_nil_iff.mpr fun f hf => by simp [frames_isReliable hf, hr]]
      simp [Counters.add, hr]
    · rw [List.filter_eq_self.mpr fun f hf => (frames_isReliable hf).trans hr,
        frames_position limit]
      simp [Counters.add, hr, List.range_add]

/-- The index of a reliable frame is its position modulo 2^24. -/
theorem accepted_index (log : List Message) : ∀ f ∈ accepted limit log, f.isReliable = true →
    f.frame.reliableFrameIndex = f.position limit log % 16777216 := by
  induction log using List.reverseRecOn with
  | nil => exact fun f hf => by cases hf
  | append_singleton log m ih =>
    intro f hf hrel
    rw [accepted_append] at hf
    rcases List.mem_append.mp hf with hf | hf
    · rw [position_append limit m (accepted_message limit log f hf)]
      exact ih f hf hrel
    · have hr := (frames_isReliable hf).symm.trans hrel
      unfold Message.frames at hf
      split_ifs at hf
      · obtain ⟨i, -, rfl⟩ := List.mem_map.mp hf
        simp [QueuedFrame.position, Message.fragment]
      · rw [List.mem_singleton.mp hf]
        simp [QueuedFrame.position, Message.single, FrameSetPacket.fromPayload, hr]

theorem accepted_nodup (log : List Message) : (accepted limit log).Nodup := by
  induction log using List.reverseRecOn with
  | nil => exact List.nodup_nil
  | append_singleton log m ih =>
    rw [accepted_append]
    refine List.nodup_append.mpr ⟨ih, ?_, fun f hf g hg => ?_⟩
    · unfold Message.frames
      split_ifs
      · refine List.Nodup.map_on (fun i _ j _ he => ?_) List.nodup_range
        have := congrArg (fun f : QueuedFrame => f.frame.fragmentIndex) he
        exact this
      · exact List.nodup_singleton _
    · rintro rfl
      have h1 := accepted_message limit log f hf
      have h2 := frames_message limit hg
      omega

end accepted

/-! ### Conservation -/

/-- The frames of the log are those held and those gone. -/
def Ledger.Conserved (L : Ledger) : Prop :=
  L.held + L.gone = (accepted L.limit L.log : Multiset QueuedFrame)

theorem Ledger.Conserved.step {L L' : Ledger} (hstep : Step L L') (hlanes : L.Lanes)
    (h : L.Conserved) : L'.Conserved := by
  unfold Ledger.Conserved at *
  rw [hstep.limit_eq]
  cases hstep.effect hlanes with
  | stay hheld hgone hlog => rw [hheld, hgone, hlog, h]
  | accept m hadm hheld hgone hlog =>
    have happend := accepted_append L.limit L.log m
    rw [hheld, hgone, hlog, happend, ← Multiset.coe_add, ← h, bodies_framesOf]
    unfold framesOf
    abel
  | emit f hf hheld hgone hlog | retire f hheld hgone hlog =>
    rw [hgone, hlog, ← h, hheld]
    abel

/-! ### Where frames may be -/

/-- Reliable frames are in flight and are retired; unreliable ones are emitted. -/
structure Ledger.Sorted (L : Ledger) : Prop where
  flight : ∀ p ∈ L.flight, p.packet.isReliable = true
  retired : ∀ t ∈ L.retired, t.packet.isReliable = true
  emitted : ∀ f ∈ L.emitted, f.isReliable = false

theorem Ledger.Sorted.step {L L' : Ledger} (hstep : Step L L') (hlanes : L.Lanes) (h : L.Sorted) :
    L'.Sorted := by
  obtain ⟨hflight, hretired, hemitted⟩ := h
  have hset : ∀ {i : ℕ} {p p' : InFlight}, L.flight[i]? = some p →
      p'.packet.isReliable = p.packet.isReliable →
      ∀ x ∈ L.flight.set i p', x.packet.isReliable = true := by
    intro i p p' hp he x hx
    rcases List.mem_or_eq_of_mem_set hx with hx | rfl
    · exact hflight x hx
    · exact he.trans (hflight p (List.mem_of_getElem? hp))
  have hpush : ∀ {f : QueuedFrame}, f.isReliable = true →
      ∀ x ∈ L.flight ++ [entry f], x.packet.isReliable = true := by
    intro f hf x hx
    obtain hx | rfl := Lib.mem_snoc.mp hx
    · exact hflight x hx
    · exact hf
  have hemit : ∀ {f : QueuedFrame}, f.isReliable = false →
      ∀ x ∈ L.emitted ++ [L.fresh f], x.isReliable = false := by
    intro f hf x hx
    obtain hx | rfl := Lib.mem_snoc.mp hx
    · exact hemitted x hx
    · exact hf
  cases hstep with
  | renumber hp hsent | resend hp hsent => exact ⟨hset hp rfl, hretired, hemitted⟩
  | launch hp hf => exact ⟨hpush (f := L.fresh _) hf, hretired, hemitted⟩
  | join hp hf hg => exact ⟨hpush hf, hretired, hemitted⟩
  | emit hp hf => exact ⟨hflight, hretired, hemit hf⟩
  | emitScheduled hp =>
    exact ⟨hflight, hretired, hemit (hlanes.unreliable _ (by simp [hp]))⟩
  | retire hp hid =>
    refine ⟨fun x hx => hflight x (List.mem_of_mem_eraseIdx hx), fun t ht => ?_, hemitted⟩
    obtain ht | rfl := Lib.mem_snoc.mp ht
    · exact hretired t ht
    · exact hflight _ (List.mem_of_getElem? hp)
  | sort hperm => exact ⟨fun x hx => hflight x (hperm.mem_iff.mp hx), hretired, hemitted⟩
  | probe hout hall hperm =>
    refine ⟨fun x hx => ?_, hretired, hemitted⟩
    obtain ⟨p, hp, rfl⟩ := List.mem_map.mp (hperm.mem_iff.mp hx)
    exact hflight p hp
  | _ => exact ⟨hflight, hretired, hemitted⟩

theorem run_mtu (B : Build) (mtu : Fin 65536) (ops : List Op) :
    (run B mtu ops).ledger.limit = (mtu : ℕ) - 60 :=
  run_preserves (I := fun L => L.limit = (mtu : ℕ) - 60) (fun hstep h => hstep.limit_eq.trans h) B
    mtu rfl ops

theorem conserved_run (B : Build) (mtu : Fin 65536) (ops : List Op) :
    (run B mtu ops).ledger.Lanes ∧ (run B mtu ops).ledger.Conserved ∧
      (run B mtu ops).ledger.Sorted :=
  run_preserves (I := fun L => L.Lanes ∧ L.Conserved ∧ L.Sorted)
    (fun hstep h => ⟨h.1.step hstep, h.2.1.step hstep h.1, h.2.2.step hstep h.1⟩) B mtu
    ⟨⟨fun f hf => by simp [Run.ledger, Run.new, SendQ.new] at hf, fun _ => rfl⟩, rfl,
      fun p hp => by simp [Run.ledger, Run.new, SendQ.new] at hp,
      fun t ht => by simp [Run.ledger, Run.new] at ht,
      fun f hf => by simp [Run.ledger, Run.new] at hf⟩ ops

/-! ### What retires a frame -/

/-- The identifiers an operation acknowledges. -/
def Op.Acknowledges : Op → ℕ → Prop
  | .ack sequence _, id => id = sequence
  | .ackRanges ranges _, id => SendQ.inRanges ranges id = true
  | _, _ => False

/-- A frame of the flight `l` that was retired under one of its identifiers. -/
def Named (l : List InFlight) (t : Retired) : Prop :=
  ∃ p ∈ l, p.packet = t.packet ∧ t.id ∈ p.ids

theorem ackSingle_named (B : Build) (q : SendQ) (sequence : ℕ) (tick : ℤ) :
    ∀ t ∈ (q.ackSingle B sequence tick).1, t.id = sequence ∧ Named q.sentPacket t := by
  intro t ht
  obtain ⟨-, he⟩ | ⟨index, item, -, hfind, he⟩ := ackSingle_cases B q sequence tick <;> rw [he] at ht
  · cases ht
  · rw [List.mem_singleton.mp ht]
    exact ⟨rfl, item, List.mem_of_find?_eq_some hfind, rfl, by simpa using List.find?_some hfind⟩

theorem ackRangesInner_named (B : Build) (q : SendQ) (grouped : Bool) (ranges : List (ℕ × ℕ))
    (tick : ℤ) : ∀ t ∈ (q.ackRangesInner B grouped ranges tick).1,
      SendQ.inRanges ranges t.id = true ∧ Named q.sentPacket t := by
  have hscan : ∀ ranges, ∀ t ∈ (q.ackScan B grouped ranges tick).1,
      SendQ.inRanges ranges t.id = true ∧ Named q.sentPacket t := by
    intro ranges t ht
    replace ht : t ∈ (q.scan B grouped ranges tick).retired := ht
    rw [scan_retired] at ht
    obtain ⟨p, hp, hid⟩ := List.mem_filterMap.mp ht
    obtain ⟨id, hfind, rfl⟩ := Option.map_eq_some_iff.mp hid
    exact ⟨List.find?_some hfind, p, hp, rfl, List.mem_of_find?_eq_some hfind⟩
  unfold SendQ.ackRangesInner
  split
  · next a b =>
    split_ifs with hc
    · intro t ht
      obtain ⟨hid, hnamed⟩ := ackSingle_named B q a tick t ht
      refine ⟨?_, hnamed⟩
      rw [hid, ← hc.1]
      simp [SendQ.inRanges]
    · exact hscan _
  · exact hscan _

/-- Frames are retired only by an operation that acknowledges one of their identifiers. -/
theorem step_retired (B : Build) (r : Run) (op : Op) : ∃ new,
    (r.step B op).retired = r.retired ++ new ∧
      ∀ t ∈ new, op.Acknowledges t.id ∧ Named r.queue.sentPacket t := by
  have hnone : (r.step B op).retired = r.retired → ∃ new,
      (r.step B op).retired = r.retired ++ new ∧
        ∀ t ∈ new, op.Acknowledges t.id ∧ Named r.queue.sentPacket t :=
    fun h => ⟨[], h.trans (List.append_nil _).symm, fun t ht => by cases ht⟩
  cases op with
  | ack sequence tick =>
    refine ⟨(r.queue.ack B sequence tick).1, rfl, fun t ht => ?_⟩
    unfold SendQ.ack at ht
    split_ifs at ht
    · obtain ⟨hid, hnamed⟩ := ackRangesInner_named B _ _ _ tick t ht
      refine ⟨?_, hnamed⟩
      simp only [SendQ.inRanges, List.any_cons, List.any_nil, Bool.or_false, Bool.and_eq_true,
        decide_eq_true_eq] at hid
      exact le_antisymm hid.2 hid.1
    · exact ackSingle_named B _ sequence tick t ht
  | ackRanges ranges tick =>
    exact ⟨(r.queue.ackRanges B ranges tick).1, rfl, ackRangesInner_named B _ _ ranges tick⟩
  | insert m =>
    exact hnone (Run.insert_cases (fun _ _ => rfl) rfl)
  | setSendOptions options =>
    exact hnone (Run.setSendOptions_cases (fun _ _ _ => rfl) rfl)
  | setRecoveryOptions options now =>
    exact hnone (Run.setRecoveryOptions_cases (fun _ => rfl) rfl)
  | _ => exact hnone rfl

/-! ### The theorem -/

/-- Frames of the log within 2^24 positions have different indexes. -/
theorem indexes_nodup {limit : ℕ} {log : List Message} {l : List QueuedFrame}
    (hl : bodies l ≤ (accepted limit log : Multiset QueuedFrame))
    (hrel : ∀ f ∈ l, f.isReliable = true)
    (hwindow : ∀ f ∈ l, (counters limit log).reliable ≤ f.position limit log + 16777216) :
    (l.map fun f => f.frame.reliableFrameIndex).Nodup := by
  have hpositions : (l.map (QueuedFrame.position limit log)).Nodup := by
    have hle : bodies l ≤ ((accepted limit log).filter QueuedFrame.isReliable : List _) := by
      have hall : ∀ b ∈ bodies l, b.isReliable = true := by
        intro b hb
        obtain ⟨f, hf, rfl⟩ := mem_bodies.mp hb
        exact hrel f hf
      have hfilter := Multiset.filter_le_filter (fun f => f.isReliable = true) hl
      rw [Multiset.filter_eq_self.mpr hall, Multiset.filter_coe] at hfilter
      simpa using hfilter
    have hmap := Multiset.map_le_map (f := QueuedFrame.position limit log) hle
    rw [Multiset.map_coe, accepted_position] at hmap
    have hnodup := Multiset.nodup_of_le hmap (Multiset.coe_nodup.mpr List.nodup_range)
    rw [bodies, Multiset.map_coe, List.map_map] at hnodup
    exact Multiset.coe_nodup.mp hnodup
  have hmem : ∀ f ∈ l, f.frame.reliableFrameIndex = f.position limit log % 16777216 ∧
      f.position limit log < (counters limit log).reliable := by
    intro f hf
    have hacc : f.body ∈ accepted limit log :=
      Multiset.mem_coe.mp (Multiset.mem_of_le hl (mem_bodies.mpr ⟨f, hf, rfl⟩))
    refine ⟨accepted_index limit log f.body hacc (hrel f hf), ?_⟩
    have hpos : f.position limit log ∈ List.range (counters limit log).reliable := by
      rw [← accepted_position]
      exact List.mem_map.mpr ⟨f.body, List.mem_filter.mpr ⟨hacc, hrel f hf⟩, rfl⟩
    exact List.mem_range.mp hpos
  refine List.Nodup.map_on (fun f hf g hg he => ?_) hpositions.of_map
  refine List.inj_on_of_nodup_map hpositions hf hg ?_
  obtain ⟨h1, h2⟩ := hmem f hf
  obtain ⟨h3, h4⟩ := hmem g hg
  have h5 := hwindow f hf
  have h6 := hwindow g hg
  have h7 : f.frame.reliableFrameIndex = g.frame.reliableFrameIndex := he
  omega

/-- **Conservation.** After any run, the frames of the accepted messages, all different, are those
queued, those in flight, those of the scheduler, those retired and those emitted: each of them once,
and as it was inserted up to its datagram number. Reliable frames are in flight and are retired,
unreliable ones are emitted; a frame is retired only by an acknowledgement of one of its
identifiers. The reliable indexes of the queue and of the flight are different as long as fewer than
2^24 were assigned after the oldest of them. -/
theorem conservation (B : Build) (mtu : Fin 65536) (ops : List Op) :
    (accepted ((mtu : ℕ) - 60) (run B mtu ops).queue.log).Nodup ∧
    bodies (run B mtu ops).queue.packets +
      bodies ((run B mtu ops).queue.sentPacket.map InFlight.packet) +
      bodies ((run B mtu ops).queue.scheduler.elim [] SendScheduler.unreliable) +
      (bodies ((run B mtu ops).retired.map Retired.packet) + bodies (run B mtu ops).emitted) =
        (accepted ((mtu : ℕ) - 60) (run B mtu ops).queue.log : Multiset QueuedFrame) ∧
    (∀ p ∈ (run B mtu ops).queue.sentPacket, p.packet.isReliable = true) ∧
    (∀ t ∈ (run B mtu ops).retired, t.packet.isReliable = true) ∧
    (∀ s, (run B mtu ops).queue.scheduler = some s → ∀ f ∈ s.unreliable, f.isReliable = false) ∧
    (∀ f ∈ (run B mtu ops).emitted, f.isReliable = false) ∧
    (∀ op, ∃ new, ((run B mtu ops).step B op).retired = (run B mtu ops).retired ++ new ∧
      ∀ t ∈ new, op.Acknowledges t.id ∧ Named (run B mtu ops).queue.sentPacket t) ∧
    ((∀ f ∈ (run B mtu ops).queue.packets ++ (run B mtu ops).queue.sentPacket.map InFlight.packet,
        f.isReliable = true → (counters ((mtu : ℕ) - 60) (run B mtu ops).queue.log).reliable ≤
          f.position ((mtu : ℕ) - 60) (run B mtu ops).queue.log + 16777216) →
      (((run B mtu ops).queue.packets ++
          (run B mtu ops).queue.sentPacket.map InFlight.packet).filter QueuedFrame.isReliable |>.map
        fun f => f.frame.reliableFrameIndex).Nodup) := by
  obtain ⟨hlanes, hconserved, hsorted⟩ := conserved_run B mtu ops
  have hlimit := run_mtu B mtu ops
  generalize run B mtu ops = r at *
  have hall : bodies r.queue.packets + bodies (r.queue.sentPacket.map InFlight.packet) +
      bodies (r.queue.scheduler.elim [] SendScheduler.unreliable) +
      (bodies (r.retired.map Retired.packet) + bodies r.emitted) =
        (accepted ((mtu : ℕ) - 60) r.queue.log : Multiset QueuedFrame) := by
    have hflight : r.ledger.flight.map InFlight.packet = r.queue.sentPacket.map InFlight.packet := by
      simp [Run.ledger, Function.comp_def]
    rw [← hlimit, ← hflight]
    exact hconserved
  refine ⟨accepted_nodup _ _, hall, fun p hp => ?_, hsorted.retired, fun s hs f hf => ?_,
    hsorted.emitted, step_retired B _, fun hwindow => ?_⟩
  · exact hsorted.flight p.timeless (List.mem_map_of_mem hp)
  · exact hlanes.unreliable f (by simpa [Run.ledger, hs] using hf)
  · refine indexes_nodup ?_
      (fun f hf => (List.mem_filter.mp hf).2)
      fun f hf => hwindow f (List.mem_of_mem_filter hf) (List.mem_filter.mp hf).2
    have hsub : bodies ((r.queue.packets ++ r.queue.sentPacket.map InFlight.packet).filter
        QueuedFrame.isReliable) ≤ bodies (r.queue.packets ++ r.queue.sentPacket.map InFlight.packet) :=
      Multiset.coe_le.mpr (List.filter_sublist.map _).subperm
    refine hsub.trans ?_
    rw [← hall, bodies_append, add_assoc]
    exact Multiset.le_add_right _ _

end RustRaknet.Send
