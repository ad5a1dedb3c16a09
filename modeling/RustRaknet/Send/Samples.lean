import RustRaknet.Send.Given

/-! # Round-trip samples

`arq.rs`: which acknowledged frames `ack` and `ack_ranges_inner` give to `latency_sample`, and with
which value. `samples` follows the two functions and keeps nothing but this; the round-trip estimate
after an operation is the one before it with these samples fed to it in their order, and no other
operation touches it (`step_latency`). -/

namespace RustRaknet.Send

open RustRaknet.Frame RustRaknet.Sequence RustRaknet.Lib.Result

/-- `tick.saturating_sub(item.2).max(0)`: the value of a sample. -/
def InFlight.rtt (tick : ℤ) (p : InFlight) : ℤ := max (saturatingSub tick p.time) 0

/-- Samples are fed to `latency_sample` one after the other. -/
def feed (tick : ℤ) (latency : ℤ × ℤ) (samples : List InFlight) : ℤ × ℤ :=
  samples.foldl (fun l p => SendQ.latencySample l.1 (p.rtt tick)) latency

namespace SendQ

variable (B : Build) (q : SendQ)

/-- The round-trip estimate and the timeout. -/
def latency : ℤ × ℤ := (q.srtt, q.rto)

/-- The frame that `ack` samples, if any, when the frames do not share datagrams. -/
def samplesSingle (sequence : ℕ) : List InFlight :=
  (q.sentPacket.find? fun item => item.ids.contains sequence).toList.filter (unambiguous B)

/-- The frames that the scan of `ack_ranges_inner` samples, when `previousSample` is the number of
the last sample. -/
def samplesScan (grouped : Bool) (ranges : List (ℕ × ℕ)) : Option ℕ → List InFlight → List InFlight
  | _, [] => []
  | previousSample, item :: rest =>
    match item.ids.find? (inRanges ranges) with
    | none => samplesScan grouped ranges previousSample rest
    | some id =>
      if unambiguous B item && (!grouped || previousSample != some id) then
        item :: samplesScan grouped ranges (if grouped then some id else previousSample) rest
      else samplesScan grouped ranges previousSample rest

/-- The frames that `ack_ranges` samples. -/
def samplesRanges (ranges : List (ℕ × ℕ)) : List InFlight :=
  let scanned := samplesScan B q.groupedAcks ranges none q.sentPacket
  match ranges with
  | [(a, b)] =>
    if a = b ∧ (¬ q.groupedAcks ∨ q.sentPacket.length ≤ 1) then q.samplesSingle B a else scanned
  | _ => scanned

/-- The frames that an operation samples. -/
def samples : Op → List InFlight
  | .ack sequence _ =>
    if q.groupedAcks && decide (1 < q.sentPacket.length) then q.samplesRanges B [(sequence, sequence)]
    else q.samplesSingle B sequence
  | .ackRanges ranges _ => q.samplesRanges B ranges
  | _ => []

end SendQ

/-- The tick of an operation, if it has one. -/
def Op.tick : Op → ℤ
  | .flush tick => tick
  | .ack _ tick => tick
  | .ackRanges _ tick => tick
  | .nack _ tick => tick
  | .nackRanges _ tick => tick
  | .setRecoveryOptions _ now => now
  | _ => 0

/-! ### The estimate after an operation -/

section latency

variable {B : Build} {tick : ℤ}

/-- The round-trip estimate and the state of the recovery. -/
def SendQ.estimate (q : SendQ) : (ℤ × ℤ) × Option Recovery := (q.latency, q.recovery)

theorem nackRule_estimate : NackRule fun q q' => q'.estimate = q.estimate where
  refl _ := rfl
  trans h h' := h'.trans h
  reissue _ _ _ := rfl

theorem expose_latency (q : SendQ) (previous newest : ℕ) :
    (q.expose previous newest tick).latency = q.latency :=
  congrArg Prod.fst (nackRule_estimate.nackAll q _)

theorem progress_latency (tick : ℤ) (q : SendQ) (retired sampledRtt : Bool) :
    (q.progress B retired sampledRtt tick).latency = q.latency := by
  obtain ⟨_, _, _, he, -⟩ := progress_eq B q retired sampledRtt tick
  rw [he]
  rfl

theorem acknowledge_latency (q : SendQ) (sequence index : ℕ) (item : InFlight) :
    (q.acknowledge B sequence tick index item).latency =
      feed tick q.latency ([item].filter (SendQ.unambiguous B)) := by
  have hprogress := progress_latency (B := B) tick (q.remove index) true
    (item.retries == 0 && item.previous.isEmpty)
  unfold SendQ.acknowledge
  simp only
  generalize (q.remove index).progress B true (item.retries == 0 && item.previous.isEmpty) tick = q'
    at hprogress
  have hexpose : (if newer sequence (q'.ungroup.release item.packet).ackSequenceNumber then
      (q'.ungroup.release item.packet).expose (q'.ungroup.release item.packet).ackSequenceNumber
        sequence tick else q'.ungroup.release item.packet).latency = q.latency := by
    split_ifs
    · exact (expose_latency _ _ _).trans hprogress
    · exact hprogress
  generalize (if newer sequence (q'.ungroup.release item.packet).ackSequenceNumber then
      (q'.ungroup.release item.packet).expose (q'.ungroup.release item.packet).ackSequenceNumber
        sequence tick else q'.ungroup.release item.packet) = q'' at hexpose
  have hsrtt : q''.srtt = q.srtt := congrArg Prod.fst hexpose
  unfold SendQ.sampleRtt
  split_ifs with hsample
  · rw [List.filter_cons_of_pos hsample]
    simp only [feed, List.filter_nil, List.foldl_cons, List.foldl_nil, SendQ.latency,
      SendQ.updateRto, hsrtt, InFlight.rtt]
  · rw [List.filter_cons_of_neg hsample]
    exact hexpose

theorem ackSingle_latency (q : SendQ) (sequence : ℕ) :
    (q.ackSingle B sequence tick).2.latency =
      feed tick q.latency (q.samplesSingle B sequence) := by
  unfold SendQ.samplesSingle
  obtain ⟨hfind, he⟩ | ⟨index, item, -, hfind, he⟩ := ackSingle_cases B q sequence tick <;>
    rw [he, hfind]
  · rfl
  · exact acknowledge_latency q sequence index item

theorem scan_samples (grouped : Bool) (ranges : List (ℕ × ℕ)) :
    ∀ (l : List InFlight) (s : SendQ.Scan),
      (l.foldl (SendQ.scanItem B grouped ranges tick) s).latency =
        feed tick s.latency (SendQ.samplesScan B grouped ranges s.previousSample l)
  | [], _ => rfl
  | item :: l, s => by
    rw [SendQ.samplesScan, List.foldl_cons, scan_samples grouped ranges l]
    unfold SendQ.scanItem
    cases item.ids.find? (SendQ.inRanges ranges) with
    | none => rfl
    | some id =>
      simp only
      have hprevious : (s.take item id).previousSample = s.previousSample := rfl
      unfold SendQ.Scan.sample
      rw [hprevious]
      split_ifs <;> rfl

theorem ackScan_latency (q : SendQ) (ranges : List (ℕ × ℕ)) (grouped : Bool) :
    (q.ackScan B grouped ranges tick).2.latency =
      feed tick q.latency (SendQ.samplesScan B grouped ranges none q.sentPacket) := by
  have hscan : (q.scan B grouped ranges tick).latency =
      feed tick q.latency (SendQ.samplesScan B grouped ranges none q.sentPacket) :=
    scan_samples grouped ranges q.sentPacket _
  unfold SendQ.ackScan
  simp only
  rw [← hscan]
  split_ifs
  · exact expose_latency _ _ _
  · exact expose_latency _ _ _
  · rfl
  · rfl

theorem ackRanges_latency (q : SendQ) (ranges : List (ℕ × ℕ)) :
    (q.ackRanges B ranges tick).2.latency = feed tick q.latency (q.samplesRanges B ranges) := by
  unfold SendQ.ackRanges SendQ.ackRangesInner SendQ.samplesRanges
  rcases ranges with _ | ⟨⟨a, b⟩, _ | ⟨r, rest⟩⟩
  · exact ackScan_latency q _ _
  · simp only
    split_ifs
    · exact ackSingle_latency q a
    · exact ackScan_latency q _ _
  · exact ackScan_latency q _ _

theorem ack_latency (q : SendQ) (sequence : ℕ) :
    (q.ack B sequence tick).2.latency =
      feed tick q.latency (q.samples B (.ack sequence tick)) := by
  unfold SendQ.ack SendQ.samples
  simp only
  split_ifs
  · exact ackRanges_latency q _
  · exact ackSingle_latency q sequence

theorem insertPayload_estimate {q q' : SendQ} {m : Message} (h : q.insertPayload B m = .ok q') :
    q'.estimate = q.estimate := by
  refine (PushRule.of_key SendQ.estimate (fun q frame => ?_) (fun _ _ => rfl) (fun _ _ => rfl)
    (fun _ _ => rfl) (fun _ _ => rfl) fun _ => rfl).insert (fun _ _ => rfl) h
  obtain ⟨_, _, _, _, _, he⟩ := pushUnreliable_eq B q frame
  rw [he]
  rfl

theorem sends_estimate {probeSequence : Option ℕ} {s s' : Burst}
    (h : Relation.ReflTransGen (Sends probeSequence tick) s s') :
    s'.queue.estimate = s.queue.estimate := by
  induction h with
  | refl => rfl
  | tail _ hstep ih => cases hstep <;> exact ih

theorem flush_latency (q : SendQ) : (q.flush B tick).2.latency = q.latency := by
  obtain ⟨s, hsends, retriesPending, scheduler, hresult, -⟩ := flush_sends B q tick
  have hprepared : (q.prepared B tick).latency = q.latency :=
    (congrArg SendQ.latency (prepared_settled q tick) :)
  rw [hresult]
  exact (congrArg Prod.fst (sends_estimate hsends)).trans hprepared

theorem setSendOptions_estimate {q q' : SendQ} {options : SendOptions}
    (h : q.setSendOptions options = .ok q') : q'.estimate = q.estimate := by
  unfold SendQ.setSendOptions at h
  obtain ⟨-, hok⟩ := guard_eq_ok.mp h
  have hensure : q.ensureScheduler.estimate = q.estimate := by
    unfold SendQ.ensureScheduler
    cases q.scheduler <;> rfl
  rw [← Except.ok.inj hok]
  exact hensure

/-- **The estimate after an operation** is the one before it, fed with the operation's samples. -/
theorem step_latency (r : Run) (op : Op) :
    (r.step B op).queue.latency = feed op.tick r.queue.latency (r.queue.samples B op) := by
  cases op with
  | insert m =>
    exact Run.insert_cases (fun q hq => congrArg Prod.fst (insertPayload_estimate hq)) rfl
  | flush tick => exact flush_latency r.queue
  | ack sequence tick => exact ack_latency r.queue sequence
  | ackRanges ranges tick => exact ackRanges_latency r.queue ranges
  | nack sequence tick => exact congrArg Prod.fst (nackRule_estimate.nack r.queue sequence)
  | nackRanges ranges tick => exact congrArg Prod.fst (nackRule_estimate.nackRanges r.queue ranges)
  | enableCoalescing => rfl
  | setSendOptions options =>
    refine Run.setSendOptions_cases (fun q _ hq => ?_) rfl
    exact congrArg Prod.fst (setSendOptions_estimate hq)
  | setRecoveryOptions options now => exact Run.setRecoveryOptions_cases (fun _ => rfl) rfl

end latency

/-! ### Which frames are sampled -/

section sampled

variable {B : Build}

/-- The operation acknowledges the frame: it names one of its numbers. -/
def Op.Names (op : Op) (p : InFlight) : Prop :=
  match op with
  | .ack sequence _ => sequence ∈ p.ids
  | .ackRanges ranges _ => ∃ id ∈ p.ids, SendQ.inRanges ranges id = true
  | _ => False

instance (op : Op) (p : InFlight) : Decidable (op.Names p) := by
  unfold Op.Names
  cases op <;> infer_instance

theorem inRanges_single {a id : ℕ} : SendQ.inRanges [(a, a)] id = true ↔ id = a := by
  simp only [SendQ.inRanges, List.any_cons, List.any_nil, Bool.or_false, Bool.and_eq_true,
    decide_eq_true_eq]
  omega

theorem mem_samplesSingle {q : SendQ} {sequence : ℕ} {p : InFlight}
    (h : p ∈ q.samplesSingle B sequence) :
    (q.sentPacket.find? fun item => item.ids.contains sequence) = some p ∧ p ∈ q.sentPacket ∧
      sequence ∈ p.ids ∧ SendQ.unambiguous B p = true := by
  unfold SendQ.samplesSingle at h
  obtain ⟨hfind, hsample⟩ := List.mem_filter.mp h
  have hfound := Option.mem_toList.mp hfind
  have hids := List.find?_some hfound
  exact ⟨hfound, List.mem_of_find?_eq_some hfound, by simpa using hids, hsample⟩

theorem mem_samplesScan {grouped : Bool} {ranges : List (ℕ × ℕ)} {p : InFlight} :
    ∀ {l : List InFlight} {previousSample : Option ℕ},
      p ∈ SendQ.samplesScan B grouped ranges previousSample l →
      p ∈ l ∧ (∃ id ∈ p.ids, SendQ.inRanges ranges id = true) ∧ SendQ.unambiguous B p = true
  | [], _, h => absurd h List.not_mem_nil
  | item :: l, previousSample, h => by
    have hrest : ∀ previousSample, p ∈ SendQ.samplesScan B grouped ranges previousSample l →
        p ∈ item :: l ∧ (∃ id ∈ p.ids, SendQ.inRanges ranges id = true) ∧
          SendQ.unambiguous B p = true := by
      intro previousSample hmem
      obtain ⟨hl, hid, hsample⟩ := mem_samplesScan hmem
      exact ⟨List.mem_cons_of_mem _ hl, hid, hsample⟩
    unfold SendQ.samplesScan at h
    cases hid : item.ids.find? (SendQ.inRanges ranges) with
    | none =>
      simp only [hid] at h
      exact hrest _ h
    | some id =>
      simp only [hid] at h
      by_cases hsample : (SendQ.unambiguous B item && (!grouped || previousSample != some id)) = true
      · rw [if_pos hsample] at h
        rcases List.mem_cons.mp h with rfl | h
        · exact ⟨List.mem_cons_self, ⟨id, List.mem_of_find?_eq_some hid, List.find?_some hid⟩,
            (Bool.and_eq_true_iff.mp hsample).1⟩
        · exact hrest _ h
      · rw [if_neg hsample] at h
        exact hrest _ h

theorem mem_samplesRanges {q : SendQ} {ranges : List (ℕ × ℕ)} {p : InFlight}
    (h : p ∈ q.samplesRanges B ranges) : p ∈ q.sentPacket ∧
      (∃ id ∈ p.ids, SendQ.inRanges ranges id = true) ∧ SendQ.unambiguous B p = true := by
  unfold SendQ.samplesRanges at h
  simp only at h
  split at h
  · split_ifs at h with hsingle
    · obtain ⟨-, hp, hid, hsample⟩ := mem_samplesSingle h
      obtain ⟨rfl, -⟩ := hsingle
      exact ⟨hp, ⟨_, hid, inRanges_single.mpr rfl⟩, hsample⟩
    · exact mem_samplesScan h
  · exact mem_samplesScan h

/-- **A sampled frame** is in flight, is acknowledged, and passes the test of Karn's algorithm. -/
theorem mem_samples {q : SendQ} {op : Op} {p : InFlight} (h : p ∈ q.samples B op) :
    p ∈ q.sentPacket ∧ op.Names p ∧ SendQ.unambiguous B p = true := by
  cases op with
  | ack sequence tick =>
    unfold SendQ.samples at h
    simp only at h
    split_ifs at h
    · obtain ⟨hp, ⟨id, hid, hin⟩, hsample⟩ := mem_samplesRanges h
      exact ⟨hp, inRanges_single.mp hin ▸ hid, hsample⟩
    · obtain ⟨-, hp, hid, hsample⟩ := mem_samplesSingle h
      exact ⟨hp, hid, hsample⟩
  | ackRanges ranges tick => exact mem_samplesRanges h
  | _ => exact absurd h List.not_mem_nil

end sampled

end RustRaknet.Send
