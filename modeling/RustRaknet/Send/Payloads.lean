import RustRaknet.Encode
import RustRaknet.Socket.Transmit

/-! # Two ways to hold a payload

`insert` copies a message and `insert_bytes` keeps the buffer of the caller. The frames differ in how
they hold the payload (`FramePayload`) and in nothing else. `flat` puts every payload of a queue into
a vector of its own. No operation looks at how a payload is held: feedback and flush commute with
`flat`, and a datagram has the same bytes (`place_flat`). -/

namespace RustRaknet.Frame

/-- The payload in a vector of its own. -/
def FramePayload.flat (p : FramePayload) : FramePayload := .owned p.deref

/-- The frame with such a payload. -/
def FrameSetPacket.flat (f : FrameSetPacket) : FrameSetPacket := { f with data := f.data.flat }

end RustRaknet.Frame

namespace RustRaknet.Send

open RustRaknet.Frame RustRaknet.Codec RustRaknet.Lib.Result RustRaknet.Socket

def QueuedFrame.flat (f : QueuedFrame) : QueuedFrame := { f with frame := f.frame.flat }

def InFlight.flat (p : InFlight) : InFlight := { p with packet := p.packet.flat }

def Retired.flat (r : Retired) : Retired := { r with packet := r.packet.flat }

def SendScheduler.flat (s : SendScheduler) : SendScheduler :=
  { s with unreliable := s.unreliable.map QueuedFrame.flat }

def Message.flat (m : Message) : Message := { m with owned := false }

/-- The queue with every payload in a vector of its own. -/
def SendQ.flat (q : SendQ) : SendQ :=
  { q with
    packets := q.packets.map QueuedFrame.flat
    sentPacket := q.sentPacket.map InFlight.flat
    scheduler := q.scheduler.map SendScheduler.flat
    log := q.log.map Message.flat }

def OutgoingFrames.flat (o : OutgoingFrames) : OutgoingFrames :=
  { o with frames := o.frames.map QueuedFrame.flat }

def Run.flat (r : Run) : Run where
  queue := r.queue.flat
  output := r.output.flat
  emitted := r.emitted.map QueuedFrame.flat
  retired := r.retired.map Retired.flat

/-- The sort looks at the keys only, as `sort_unstable_by_key` does: it commutes with every change
that keeps them. -/
def Build.KeySort (B : Build) : Prop :=
  ∀ f : InFlight → InFlight, (∀ p, (f p).sequence = p.sequence) →
    ∀ l, B.sortByKey (l.map f) = (B.sortByKey l).map f

/-! ### Frames -/

@[simp] theorem flat_size (f : QueuedFrame) : f.flat.size = f.size := rfl

@[simp] theorem flat_charge (f : QueuedFrame) : charge f.flat = charge f := rfl

@[simp] theorem flat_isReliable (f : QueuedFrame) : f.flat.isReliable = f.isReliable := rfl

@[simp] theorem flat_packable (f : QueuedFrame) : f.flat.packable = f.packable := rfl

@[simp] theorem flat_numbered (f : QueuedFrame) (s d : ℕ) :
    f.flat.numbered s d = (f.numbered s d).flat := rfl

theorem sendFrameTo_flat (f : FrameSetPacket) : sendFrameTo f.flat = sendFrameTo f := rfl

theorem groupLoopTo_flat (s : ℕ) : ∀ (frames : List FrameSetPacket) (index : ℕ) (output : Bytes),
    groupLoopTo s index (frames.map FrameSetPacket.flat) output = groupLoopTo s index frames output
  | [], _, _ => rfl
  | f :: frames, index, output => by
    have hheader : encodeHeaderTo f.flat = encodeHeaderTo f := rfl
    have hdata : f.flat.data.deref = f.data.deref := rfl
    have hnumber : f.flat.sequenceNumber = f.sequenceNumber := rfl
    simp only [List.map_cons, groupLoopTo, hheader, hdata, hnumber, groupLoopTo_flat s frames]

/-- The bytes of a datagram: `send_frame` for a frame alone, `serialize_group_into` for several. -/
def wire : List QueuedFrame → Except Stop Bytes
  | [f] => sendFrameTo f.frame
  | g => serializeGroupTo (g.map QueuedFrame.frame)

theorem wire_flat (g : List QueuedFrame) : wire (g.map QueuedFrame.flat) = wire g := by
  match g with
  | [] => rfl
  | [f] => exact sendFrameTo_flat f.frame
  | f :: f' :: g =>
    have hframes : ((f :: f' :: g).map QueuedFrame.flat).map QueuedFrame.frame =
        ((f :: f' :: g).map QueuedFrame.frame).map FrameSetPacket.flat := by
      rw [List.map_map, List.map_map]
      rfl
    show serializeGroupTo (((f :: f' :: g).map QueuedFrame.flat).map QueuedFrame.frame) =
      serializeGroupTo ((f :: f' :: g).map QueuedFrame.frame)
    rw [hframes]
    exact groupLoopTo_flat f.frame.sequenceNumber (f.frame :: f'.frame :: g.map QueuedFrame.frame) 0 []

theorem place_flat (B : Build) (o : OutgoingFrames) (path : Path) :
    (place B o.flat path).map wire = (place B o path).map wire := by
  have halone : alone o.flat = (alone o).map (List.map QueuedFrame.flat) := by
    simp [alone, OutgoingFrames.flat]
  have hlength : o.flat.frames.length = o.frames.length := List.length_map _
  have hfragments : (o.flat.frames.all fun f => !f.frame.isFragment) =
      o.frames.all fun f => !f.frame.isFragment := List.all_map
  have hruns : Lib.Runs.runs (fun f : QueuedFrame => f.frame.sequenceNumber) o.flat.frames =
      (Lib.Runs.runs (fun f : QueuedFrame => f.frame.sequenceNumber) o.frames).map
        (List.map QueuedFrame.flat) := Lib.Runs.runs_map (f := QueuedFrame.flat) (fun _ => rfl) o.frames
  have hcoalesced : o.flat.coalesced = o.coalesced := rfl
  have hframes : transmitFrames o.flat = (transmitFrames o).map (List.map QueuedFrame.flat) := by
    simp only [transmitFrames, halone, hlength, hruns, hcoalesced, apply_ite (List.map _)]
  have hplace : place B o.flat path = (place B o path).map (List.map QueuedFrame.flat) := by
    cases path with
    | frames => exact hframes
    | replies bulk =>
      simp only [place, transmitReplies, halone, hlength, hfragments, hframes, hcoalesced,
        apply_ite (List.map _)]
    | maintenance =>
      simp only [place, transmitMaintenanceFrames, halone, hframes, hcoalesced,
        apply_ite (List.map _)]
  rw [hplace, List.map_map]
  exact List.map_congr_left fun g _ => wire_flat g

/-! ### Options and feedback -/

@[simp] theorem flat_inFlight_ids (p : InFlight) : p.flat.ids = p.ids := rfl

@[simp] theorem flat_sequence (p : InFlight) : p.flat.sequence = p.sequence := rfl

theorem isProbe_flat (sequence : ℕ) (p : InFlight) :
    p.flat.isProbe sequence = p.isProbe sequence := rfl

theorem any_flat {c : InFlight → Bool} (hc : ∀ p, c p.flat = c p) (l : List InFlight) :
    (l.map InFlight.flat).any c = l.any c := by
  rw [List.any_map]
  exact congrArg l.any (funext hc)

namespace SendQ

variable (B : Build) (q : SendQ)

@[simp] theorem flat_sentPacket : q.flat.sentPacket = q.sentPacket.map InFlight.flat := rfl

@[simp] theorem flat_packets : q.flat.packets = q.packets.map QueuedFrame.flat := rfl

@[simp] theorem flat_recovery : q.flat.recovery = q.recovery := rfl

@[simp] theorem flat_scheduler : q.flat.scheduler = q.scheduler.map SendScheduler.flat := rfl

theorem ensureScheduler_flat : q.flat.ensureScheduler = q.ensureScheduler.flat := by
  unfold ensureScheduler
  cases hs : q.scheduler with
  | some s => simp [hs]
  | none =>
    have hfilter : ∀ c : QueuedFrame → Bool, (∀ f, c f.flat = c f) →
        (q.packets.map QueuedFrame.flat).filter c = (q.packets.filter c).map QueuedFrame.flat := by
      intro c hc
      rw [List.filter_map]
      exact congrArg _ (congrArg (q.packets.filter ·) (funext hc))
    simp only [flat_scheduler, hs, Option.map_none, flat_packets]
    rw [hfilter _ flat_isReliable, hfilter (fun f => !f.isReliable) fun _ => rfl, List.map_map]
    rfl

theorem configure_flat (options : SendOptions) :
    q.flat.configure options = (q.configure options).flat := by
  unfold configure
  cases hs : q.scheduler with
  | none => simp [flat, hs]
  | some s => simp [flat, hs, SendScheduler.flat]

theorem setSendOptions_flat (options : SendOptions) :
    q.flat.setSendOptions options = (q.setSendOptions options).map flat := by
  unfold setSendOptions
  rw [ensureScheduler_flat, configure_flat, apply_ite (Except.map flat)]
  rfl

theorem activeProbe_flat : q.flat.activeProbe = q.activeProbe := by
  unfold activeProbe
  simp only [flat_recovery, flat_sentPacket, any_flat (isProbe_flat _)]

theorem setRecoveryOptions_flat (options : RecoveryOptions) (now : ℤ) :
    q.flat.setRecoveryOptions options now = (q.setRecoveryOptions options now).flat := by
  unfold setRecoveryOptions
  rw [activeProbe_flat]
  rfl

theorem acknowledgeProgress_flat (now : ℤ) (sampledRtt : Bool) :
    q.flat.acknowledgeProgress now sampledRtt = (q.acknowledgeProgress now sampledRtt).flat := by
  unfold acknowledgeProgress
  rw [activeProbe_flat, flat_recovery]
  cases q.recovery with
  | none => rfl
  | some r =>
    simp only
    split_ifs
    · simp [flat, Function.comp_def, InFlight.flat]
    · rfl

theorem reissue_flat (i : ℕ) (item : InFlight) (time : ℤ) :
    q.flat.reissue i item.flat time = (q.reissue i item time).flat := by
  unfold reissue flat
  rw [List.map_set]
  rfl

theorem getElem?_flat (i : ℕ) : q.flat.sentPacket[i]? = (q.sentPacket[i]?).map InFlight.flat :=
  List.getElem?_map

theorem nackAt_flat (sequence : ℕ) (tick : ℤ) (i : ℕ) :
    nackAt sequence tick q.flat i = (nackAt sequence tick q i).flat := by
  unfold nackAt
  rw [getElem?_flat]
  cases q.sentPacket[i]? with
  | none => rfl
  | some item =>
    simp only [Option.map_some, reissue_flat]
    show (if item.sent && item.sequence == sequence then _ else _) = _
    split_ifs <;> rfl

theorem nack_flat (sequence : ℕ) (tick : ℤ) : q.flat.nack sequence tick = (q.nack sequence tick).flat := by
  unfold nack
  rw [flat_sentPacket, List.length_map]
  exact List.foldl_hom flat fun q i => nackAt_flat q sequence tick i

theorem nackAll_flat (ids : List ℕ) (tick : ℤ) : q.flat.nackAll ids tick = (q.nackAll ids tick).flat :=
  List.foldl_hom flat fun q id => nack_flat q id tick

theorem map_sequence_flat :
    q.flat.sentPacket.map InFlight.sequence = q.sentPacket.map InFlight.sequence := by
  rw [flat_sentPacket, List.map_map]
  rfl

theorem nackRanges_flat (ranges : List (ℕ × ℕ)) (tick : ℤ) :
    q.flat.nackRanges ranges tick = (q.nackRanges ranges tick).flat := by
  unfold nackRanges
  simp only [map_sequence_flat, nackAll_flat]
  split
  · rw [nack_flat]
    split_ifs <;> rfl
  · rfl

theorem progress_flat (retired sampledRtt : Bool) (tick : ℤ) :
    q.flat.progress B retired sampledRtt tick = (q.progress B retired sampledRtt tick).flat := by
  unfold progress
  rw [acknowledgeProgress_flat]
  split_ifs <;> rfl

theorem ungroup_flat : q.flat.ungroup = q.ungroup.flat := by
  unfold ungroup
  rw [flat_sentPacket, List.isEmpty_map]
  rfl

theorem expose_flat (previous newest : ℕ) (tick : ℤ) :
    q.flat.expose previous newest tick = (q.expose previous newest tick).flat := by
  unfold expose missing
  rw [map_sequence_flat, nackAll_flat]
  rfl

theorem sampleRtt_flat (tick : ℤ) (item : InFlight) :
    q.flat.sampleRtt B tick item.flat = (q.sampleRtt B tick item).flat := by
  unfold sampleRtt
  show (if unambiguous B item then _ else _) = _
  split_ifs <;> rfl

theorem remove_flat (index : ℕ) : q.flat.remove index = (q.remove index).flat := by
  unfold remove flat
  rw [List.eraseIdx_map]

theorem acknowledge_flat (sequence : ℕ) (tick : ℤ) (index : ℕ) (item : InFlight) :
    q.flat.acknowledge B sequence tick index item.flat =
      (q.acknowledge B sequence tick index item).flat := by
  have hrelease : ∀ q : SendQ, q.flat.release item.flat.packet = (q.release item.packet).flat :=
    fun _ => rfl
  have hexpose : ∀ q : SendQ, (if Sequence.newer sequence q.flat.ackSequenceNumber then
      q.flat.expose q.flat.ackSequenceNumber sequence tick else q.flat) =
      (if Sequence.newer sequence q.ackSequenceNumber then
        q.expose q.ackSequenceNumber sequence tick else q).flat := by
    intro q
    rw [expose_flat, apply_ite flat]
    rfl
  unfold acknowledge
  simp only [remove_flat]
  rw [progress_flat, ungroup_flat, hrelease, hexpose]
  exact sampleRtt_flat B _ tick item

theorem ackSingle_flat (sequence : ℕ) (tick : ℤ) :
    q.flat.ackSingle B sequence tick =
      ((q.ackSingle B sequence tick).1.map Retired.flat, (q.ackSingle B sequence tick).2.flat) := by
  unfold ackSingle
  have hfind : (q.flat.sentPacket.findIdx? fun item => item.ids.contains sequence) =
      q.sentPacket.findIdx? fun item => item.ids.contains sequence := by
    rw [flat_sentPacket, List.findIdx?_map]
    rfl
  rw [hfind]
  cases q.sentPacket.findIdx? fun item => item.ids.contains sequence with
  | none => rfl
  | some index =>
    simp only [getElem?_flat]
    cases q.sentPacket[index]? with
    | none => rfl
    | some item =>
      simp only [Option.map_some, acknowledge_flat]
      rfl

def Scan.flat (s : Scan) : Scan :=
  { s with kept := s.kept.map InFlight.flat, retired := s.retired.map Retired.flat }

theorem scanItem_flat (grouped : Bool) (ranges : List (ℕ × ℕ)) (tick : ℤ) (s : Scan)
    (item : InFlight) :
    scanItem B grouped ranges tick s.flat item.flat = (scanItem B grouped ranges tick s item).flat := by
  have htake : ∀ id, s.flat.take item.flat id = (s.take item id).flat := by
    intro id
    unfold Scan.take Scan.flat
    rw [List.map_append]
    rfl
  have hsample : ∀ (s : Scan) id,
      s.flat.sample B grouped tick item.flat id = (s.sample B grouped tick item id).flat := by
    intro s id
    unfold Scan.sample
    show (if unambiguous B item && (!grouped || s.previousSample != some id) then _ else _) = _
    split_ifs <;> rfl
  unfold scanItem
  rw [flat_inFlight_ids]
  cases item.ids.find? (inRanges ranges) with
  | none => simp [Scan.flat]
  | some id => simp only [htake, hsample]

theorem scan_flat (grouped : Bool) (ranges : List (ℕ × ℕ)) (tick : ℤ) :
    q.flat.scan B grouped ranges tick = (q.scan B grouped ranges tick).flat := by
  have hfold : ∀ (l : List InFlight) (s : Scan),
      (l.map InFlight.flat).foldl (scanItem B grouped ranges tick) s.flat =
        (l.foldl (scanItem B grouped ranges tick) s).flat := by
    intro l
    induction l with
    | nil => exact fun _ => rfl
    | cons item l ih =>
      intro s
      rw [List.map_cons, List.foldl_cons, scanItem_flat, ih]
      rfl
  exact hfold q.sentPacket ⟨[], q.ackSequenceNumber, (q.srtt, q.rto), 0, none, false, q.remaining,
    q.fault, []⟩

theorem ackScan_flat (grouped : Bool) (ranges : List (ℕ × ℕ)) (tick : ℤ) :
    q.flat.ackScan B grouped ranges tick =
      ((q.ackScan B grouped ranges tick).1.map Retired.flat,
        (q.ackScan B grouped ranges tick).2.flat) := by
  have hsettle : ∀ s, q.flat.settle s.flat = (q.settle s).flat := fun _ => rfl
  have hlatency : ∀ (q : SendQ) latency, q.flat.setLatency latency = (q.setLatency latency).flat :=
    fun _ _ => rfl
  have hungroup : ∀ q : SendQ,
      (if grouped then q.flat.ungroup else q.flat) = (if grouped then q.ungroup else q).flat := by
    intro q
    rw [ungroup_flat]
    split_ifs <;> rfl
  unfold ackScan
  simp only [scan_flat, hsettle]
  rw [progress_flat, hungroup, hlatency, expose_flat]
  refine Prod.ext rfl ?_
  show (if (q.scan B grouped ranges tick).newest ≠ q.ackSequenceNumber then _ else _) = SendQ.flat _
  split_ifs <;> rfl

theorem ackRanges_flat (ranges : List (ℕ × ℕ)) (tick : ℤ) :
    q.flat.ackRanges B ranges tick =
      ((q.ackRanges B ranges tick).1.map Retired.flat, (q.ackRanges B ranges tick).2.flat) := by
  have hscan := ackScan_flat B q q.groupedAcks ranges tick
  match ranges with
  | [] | _ :: _ :: _ => exact hscan
  | [(a, b)] =>
    have hranges : ∀ q : SendQ, q.ackRanges B [(a, b)] tick =
        if a = b ∧ (¬ q.groupedAcks ∨ q.sentPacket.length ≤ 1) then q.ackSingle B a tick
        else q.ackScan B q.groupedAcks [(a, b)] tick := fun _ => rfl
    rw [hranges, hranges, flat_sentPacket, List.length_map, ackSingle_flat]
    show (if a = b ∧ (¬ q.groupedAcks ∨ q.sentPacket.length ≤ 1) then _
      else q.flat.ackScan B q.groupedAcks [(a, b)] tick) = _
    rw [hscan]
    split_ifs <;> rfl

theorem ack_flat (sequence : ℕ) (tick : ℤ) :
    q.flat.ack B sequence tick =
      ((q.ack B sequence tick).1.map Retired.flat, (q.ack B sequence tick).2.flat) := by
  unfold ack
  rw [flat_sentPacket, List.length_map, ackRanges_flat, ackSingle_flat]
  show (if q.groupedAcks && decide (1 < q.sentPacket.length) then _ else _) = _
  split_ifs <;> rfl

/-! ### Timeouts and probes -/

theorem probeDeadline_flat : q.flat.probeDeadline = q.probeDeadline := by
  unfold probeDeadline
  rw [flat_recovery]
  cases q.recovery with
  | none => rfl
  | some r =>
    simp only
    cases r.options.tailProbeMinDelay with
    | none => rfl
    | some delay =>
      cases hflight : q.sentPacket with
      | nil => simp only [flat_sentPacket, hflight, List.map_nil]
      | cons first rest =>
        have hlength : (first.flat :: rest.map InFlight.flat).length = (first :: rest).length := by
          rw [← List.map_cons, List.length_map]
        have hany : (first.flat :: rest.map InFlight.flat).any (fun p => !p.sent || p.retries != 0 ||
              !p.previous.isEmpty || p.sequence != first.flat.sequence) =
            (first :: rest).any fun p => !p.sent || p.retries != 0 || !p.previous.isEmpty ||
              p.sequence != first.sequence := any_flat (fun _ => rfl) (first :: rest)
        have hsize : (first.flat :: rest.map InFlight.flat).map (fun p => p.packet.size) =
            (first :: rest).map fun p => p.packet.size :=
          List.map_map (l := first :: rest) (f := InFlight.flat)
        have hscheduler : ∀ bytes : ℕ, q.flat.scheduler.any (fun s => !s.unreliable.isEmpty ||
              decide (s.options.flushBytes < bytes)) =
            q.scheduler.any fun s => !s.unreliable.isEmpty ||
              decide (s.options.flushBytes < bytes) := by
          intro bytes
          rw [flat_scheduler]
          cases q.scheduler with
          | none => rfl
          | some s => simp [SendScheduler.flat]
        have hflat : q.flat.sentPacket = first.flat :: rest.map InFlight.flat := by
          rw [flat_sentPacket, hflight, List.map_cons]
        simp only [hflat, hlength, hany, hsize, hscheduler, flat_packets, List.isEmpty_map]
        rfl

theorem replay_flat (first : InFlight) (r : Recovery) :
    q.flat.replay first.flat r = (q.replay first r).flat := by
  unfold replay
  rw [flat_sentPacket, List.map_map, List.length_map]
  unfold flat
  rw [List.map_map]
  rfl

theorem probeTail_flat (now : ℤ) : q.flat.probeTail now = (q.probeTail now).flat := by
  unfold probeTail
  simp only [probeDeadline_flat]
  show (if q.probeDeadline = i64Max ∨ now < q.probeDeadline ∨ q.nextRetry ≤ now then _ else _) = _
  split_ifs
  · rfl
  · cases hflight : q.sentPacket with
    | nil => simp [hflight]
    | cons first rest =>
      cases hrecovery : q.recovery with
      | none => simp [hflight, hrecovery]
      | some r =>
        simp only [flat_sentPacket, flat_recovery, hflight, hrecovery, List.map_cons, replay_flat]

theorem tickAt_flat (probe : Option ProbeFallback) (tick : ℤ) (i : ℕ) :
    tickAt probe tick q.flat i = (tickAt probe tick q i).flat := by
  unfold tickAt
  rw [getElem?_flat]
  cases q.sentPacket[i]? with
  | none => rfl
  | some p =>
    simp only [Option.map_some]
    have hreissue := reissue_flat q i p p.time
    rw [apply_ite flat, apply_ite flat, ← hreissue]
    rfl

theorem expire_flat (tick : ℤ) : q.flat.expire B tick = (q.expire B tick).flat := by
  have hclear : ∀ q : SendQ, q.flat.clearRetry = q.clearRetry.flat := fun _ => rfl
  have hdrop : ∀ q : SendQ, q.flat.dropProbe = q.dropProbe.flat := fun _ => rfl
  have hfold : ∀ (probe : Option ProbeFallback) (l : List ℕ) (q : SendQ),
      l.foldl (tickAt probe tick) q.flat = (l.foldl (tickAt probe tick) q).flat :=
    fun probe l q => List.foldl_hom flat fun q i => tickAt_flat q probe tick i
  unfold expire
  simp only [activeProbe_flat, flat_sentPacket, List.length_map, hclear, hfold, hdrop]
  rw [apply_ite flat, apply_ite flat]
  rfl

theorem tick_flat (t : ℤ) : q.flat.tick B t = (q.tick B t).flat := by
  unfold tick
  rw [probeTail_flat, flat_recovery]
  split_ifs <;> exact expire_flat B _ t

theorem resetRecovery_flat (tick : ℤ) : q.flat.resetRecovery tick = (q.resetRecovery tick).flat := by
  unfold resetRecovery
  rw [flat_sentPacket, List.isEmpty_map, apply_ite flat]
  rfl

theorem sortFlight_flat {B : Build} (hB : B.KeySort) (q : SendQ) :
    q.flat.sortFlight B = (q.sortFlight B).flat := by
  unfold sortFlight
  rw [flat_sentPacket, hB InFlight.flat (fun _ => rfl), apply_ite flat]
  rfl

end SendQ

/-! ### The burst without a policy -/

def Burst.flat (s : Burst) : Burst := { s with queue := s.queue.flat, output := s.output.flat }

theorem push_flat (o : OutgoingFrames) (f : QueuedFrame) : o.flat.push f.flat = (o.push f).flat := by
  unfold OutgoingFrames.push OutgoingFrames.flat
  rw [List.map_append]
  rfl

namespace Burst

variable (s : Burst)

theorem resend_flat (probeSequence : Option ℕ) (tick : ℤ) (i : ℕ) (p : InFlight) :
    s.flat.resend probeSequence tick i p.flat = (s.resend probeSequence tick i p).flat := by
  unfold resend flat
  simp only [SendQ.flat, List.map_set, ← push_flat]
  rfl

theorem resendAt_flat (probeSequence : Option ℕ) (tick : ℤ) (i : ℕ) :
    resendAt probeSequence tick s.flat i = (resendAt probeSequence tick s i).flat := by
  unfold resendAt
  have hget : s.flat.queue.sentPacket[i]? = (s.queue.sentPacket[i]?).map InFlight.flat :=
    SendQ.getElem?_flat s.queue i
  rw [hget]
  cases s.queue.sentPacket[i]? with
  | none => rfl
  | some p =>
    simp only [Option.map_some, resend_flat]
    rw [apply_ite flat]
    rfl

theorem launch_flat (tick : ℤ) (f : QueuedFrame) : s.flat.launch tick f.flat = (s.launch tick f).flat := by
  unfold launch flat
  simp only [SendQ.flat, List.map_append, List.getLast?_map, ← push_flat]
  cases s.queue.sentPacket.getLast? <;> rfl

theorem emit_flat (f : QueuedFrame) : s.flat.emit f.flat = (s.emit f).flat := by
  unfold emit flat
  simp only [← push_flat]
  rfl

theorem assign_flat (packable : Bool) (f : QueuedFrame) :
    s.flat.assign packable f.flat = ((s.assign packable f).1.flat, (s.assign packable f).2.flat) := by
  have hgroup : s.flat.group = s.group := rfl
  unfold assign
  rw [hgroup]
  cases s.group.sequence with
  | none => rfl
  | some sequence =>
    simp only
    show (if packable ∧ s.group.frames < maxCoalescedFrames ∧
        s.group.bytes + (f.size - 4) ≤ (s.queue.mtu : ℕ) - 28 then _ else _) = _
    split_ifs <;> rfl

theorem pop_flat (rest : List QueuedFrame) :
    s.flat.pop (rest.map QueuedFrame.flat) = (s.pop rest).flat := rfl

theorem sendOne_flat (tick : ℤ) : s.flat.sendOne tick = (s.sendOne tick).map flat := by
  have hlength : s.flat.queue.sentPacket.length = s.queue.sentPacket.length := List.length_map _
  have hpackets : s.flat.queue.packets = s.queue.packets.map QueuedFrame.flat := rfl
  unfold sendOne
  rw [hlength, hpackets]
  show (if maxInFlightPackets ≤ s.queue.sentPacket.length ∧ s.queue.queuedUnreliable = 0 then _
    else _) = _
  rw [apply_ite (Option.map flat)]
  cases s.queue.packets with
  | nil => rfl
  | cons f rest =>
    have hrotate : rest.map QueuedFrame.flat ++ [f.flat] = (rest ++ [f]).map QueuedFrame.flat := by
      rw [List.map_append]
      rfl
    obtain ⟨g, hg⟩ : ∃ g, g = if s.queue.coalesce then (s.pop rest).assign f.packable f
      else (s.pop rest).fresh f := ⟨_, rfl⟩
    have hassign : (if s.flat.queue.coalesce then (s.pop rest).flat.assign f.packable f.flat
        else (s.pop rest).flat.fresh f.flat) = (g.1.flat, g.2.flat) := by
      rw [assign_flat, hg]
      show (if s.queue.coalesce then _ else _) = _
      split_ifs <;> rfl
    simp only [List.map_cons, flat_isReliable, hrotate, pop_flat, flat_packable, hassign, ← hg,
      launch_flat, emit_flat, apply_ite (Option.map flat), Option.map_some, Option.map_none,
      apply_ite flat]

theorem sendLoop_flat (tick : ℤ) : ∀ (n : ℕ) (s : Burst),
    sendLoop tick n s.flat = (sendLoop tick n s).flat
  | 0, _ => rfl
  | n + 1, s => by
    unfold sendLoop
    rw [sendOne_flat]
    cases s.sendOne tick with
    | none => rfl
    | some s => exact sendLoop_flat tick n s

end Burst

/-! ### The scheduled burst -/

def Round.flat (r : Round) : Round := { r with burst := r.burst.flat, scheduler := r.scheduler.flat }

namespace Round

variable (r : Round)

theorem seek_flat (flight : List InFlight) (cursor : ℕ) :
    seek (flight.map InFlight.flat) cursor = seek flight cursor := by
  unfold seek
  rw [← List.map_drop, List.findIdx_map]
  rfl

theorem advance_flat (lane : ℕ) : r.flat.advance lane = (r.advance lane).flat := by
  have hseek : seek r.flat.burst.queue.sentPacket r.flat.retryCursor =
      seek r.burst.queue.sentPacket r.retryCursor := seek_flat _ _
  unfold advance
  rw [hseek, apply_ite flat]
  rfl

theorem laneCharge_flat (lane : ℕ) : r.flat.laneCharge lane = r.laneCharge lane := by
  have hlength : r.flat.burst.queue.sentPacket.length = r.burst.queue.sentPacket.length :=
    List.length_map _
  match lane with
  | 0 =>
    show ((r.scheduler.unreliable.map QueuedFrame.flat).head?).map QueuedFrame.size = _
    rw [List.head?_map, Option.map_map]
    rfl
  | 1 =>
    show (if r.burst.queue.retriesPending then
      ((r.burst.queue.sentPacket.map InFlight.flat)[r.retryCursor]?).map _ else none) = _
    rw [List.getElem?_map, Option.map_map]
    rfl
  | n + 2 =>
    unfold laneCharge
    show ((r.burst.queue.packets.map QueuedFrame.flat).head?).bind _ = _
    rw [List.head?_map, hlength]
    cases r.burst.queue.packets.head? <;> rfl

theorem sendUnreliable_flat : r.flat.sendUnreliable = r.sendUnreliable.flat := by
  have hunreliable : r.flat.scheduler.unreliable = r.scheduler.unreliable.map QueuedFrame.flat := rfl
  unfold sendUnreliable
  rw [hunreliable]
  cases r.scheduler.unreliable with
  | nil => rfl
  | cons f rest =>
    have hpush := push_flat r.burst.output
      (f.numbered r.burst.queue.sequenceNumber r.burst.queue.allocated)
    simp only [List.map_cons, flat, Burst.flat, ← hpush]
    rfl

theorem sendRetry_flat (probeSequence : Option ℕ) (tick : ℤ) :
    r.flat.sendRetry probeSequence tick = (r.sendRetry probeSequence tick).flat := by
  have hget : r.flat.burst.queue.sentPacket[r.flat.retryCursor]? =
      (r.burst.queue.sentPacket[r.retryCursor]?).map InFlight.flat :=
    SendQ.getElem?_flat r.burst.queue r.retryCursor
  unfold sendRetry
  rw [hget]
  cases r.burst.queue.sentPacket[r.retryCursor]? with
  | none => rfl
  | some p =>
    have hresend := Burst.resend_flat r.burst probeSequence tick r.retryCursor p
    simp only [Option.map_some]
    show Round.mk (Burst.closeGroup (r.burst.flat.resend probeSequence tick r.retryCursor p.flat)) _ _ _
      _ _ = _
    rw [hresend]
    rfl

theorem sendNew_flat (tick : ℤ) : r.flat.sendNew tick = (r.sendNew tick).flat := by
  have hpackets : r.flat.burst.queue.packets = r.burst.queue.packets.map QueuedFrame.flat := rfl
  unfold sendNew
  rw [hpackets]
  cases r.burst.queue.packets with
  | nil => rfl
  | cons f rest =>
    have hassign := Burst.assign_flat (r.burst.pop rest) (r.burst.queue.coalesce && f.packable) f
    have hpop : r.flat.burst.pop (rest.map QueuedFrame.flat) = (r.burst.pop rest).flat := rfl
    have hcoalesce : r.flat.burst.queue.coalesce = r.burst.queue.coalesce := rfl
    simp only [List.map_cons, hpop, hcoalesce, flat_packable, hassign, Burst.launch_flat]
    rfl

theorem laneSend_flat (probeSequence : Option ℕ) (tick : ℤ) (lane charge : ℕ) :
    r.flat.laneSend probeSequence tick lane charge =
      (r.laneSend probeSequence tick lane charge).flat := by
  have hcharged : ∀ r : Round, r.flat.charged lane charge = (r.charged lane charge).flat :=
    fun _ => rfl
  match lane with
  | 0 => exact (congrArg _ r.sendUnreliable_flat).trans (hcharged _)
  | 1 => exact (congrArg _ (r.sendRetry_flat probeSequence tick)).trans (hcharged _)
  | n + 2 => exact (congrArg _ (r.sendNew_flat tick)).trans (hcharged _)

theorem laneLoop_flat (probeSequence : Option ℕ) (tick : ℤ) (lane quantum : ℕ) :
    ∀ (n laneBytes : ℕ) (r : Round), laneLoop probeSequence tick lane quantum n laneBytes r.flat =
      ((laneLoop probeSequence tick lane quantum n laneBytes r).1.flat,
        (laneLoop probeSequence tick lane quantum n laneBytes r).2)
  | 0, _, _ => rfl
  | n + 1, laneBytes, r => by
    unfold laneLoop
    simp only [advance_flat, laneCharge_flat, laneSend_flat, laneLoop_flat]
    split_ifs
    · rfl
    · cases (r.advance lane).laneCharge lane with
      | none => rfl
      | some charge =>
        simp only
        generalize r.advance lane = r
        show (if r.scheduler.options.flushBytes < r.bytes + charge then _ else
          if (r.laneSend probeSequence tick lane charge).bytes =
            (r.laneSend probeSequence tick lane charge).scheduler.options.flushBytes then _
          else _) = _
        split_ifs <;> rfl

theorem waiting_flat : r.flat.waiting = r.waiting := by
  have hretries : (r.burst.queue.sentPacket.map InFlight.flat).filter (fun p => !p.sent) =
      (r.burst.queue.sentPacket.filter fun p => !p.sent).map InFlight.flat := List.filter_map
  show (r.scheduler.unreliable.map QueuedFrame.flat).length +
    (r.burst.queue.packets.map QueuedFrame.flat).length +
    ((r.burst.queue.sentPacket.map InFlight.flat).filter fun p => !p.sent).length = _
  rw [hretries, List.length_map, List.length_map, List.length_map]
  rfl

theorem laneRound_flat (probeSequence : Option ℕ) (tick : ℤ) (quantum start : ℕ) :
    ∀ (offsets : List ℕ) (r : Round),
      laneRound probeSequence tick quantum start offsets r.flat =
        ((laneRound probeSequence tick quantum start offsets r).1.flat,
          (laneRound probeSequence tick quantum start offsets r).2)
  | [], _ => rfl
  | offset :: offsets, r => by
    unfold laneRound
    simp only [waiting_flat, laneLoop_flat, laneRound_flat probeSequence tick quantum start offsets]
    split_ifs <;> rfl

theorem rounds_flat (probeSequence : Option ℕ) (tick : ℤ) (quantum : ℕ) :
    ∀ (n : ℕ) (r : Round), rounds probeSequence tick quantum n r.flat =
      (rounds probeSequence tick quantum n r).flat
  | 0, _ => rfl
  | n + 1, r => by
    have hstart : laneRound probeSequence tick quantum r.flat.scheduler.nextLane [0, 1, 2]
        { r.flat with progressed := false } = _ :=
      laneRound_flat probeSequence tick quantum r.scheduler.nextLane [0, 1, 2]
        { r with progressed := false }
    unfold rounds
    simp only [hstart, rounds_flat probeSequence tick quantum n]
    rw [apply_ite flat]
    rfl

end Round

/-! ### Flush and insertion -/

namespace SendQ

variable {B : Build}

theorem resendAll_flat (q : SendQ) (tick : ℤ) : q.flat.resendAll tick = (q.resendAll tick).flat := by
  have hfold : ∀ (l : List ℕ) (s : Burst), l.foldl (Burst.resendAt q.probeReplay tick) s.flat =
      (l.foldl (Burst.resendAt q.probeReplay tick) s).flat :=
    fun l s => List.foldl_hom Burst.flat fun s i => Burst.resendAt_flat s q.probeReplay tick i
  have hstart : q.flat.burst = q.burst.flat := rfl
  have hprobe : q.flat.probeReplay = q.probeReplay := rfl
  unfold resendAll
  simp only [hstart, hprobe, flat_sentPacket, List.length_map, hfold]
  rw [apply_ite Burst.flat]
  rfl

theorem flushLegacy_flat (hB : B.KeySort) (q : SendQ) (tick : ℤ) :
    q.flat.flushLegacy B tick = ((q.flushLegacy B tick).1.flat, (q.flushLegacy B tick).2.flat) := by
  have hlength : ∀ s : Burst, s.flat.queue.packets.length = s.queue.packets.length :=
    fun s => List.length_map _
  unfold flushLegacy
  simp only [tick_flat, sortFlight_flat hB, resendAll_flat, hlength, Burst.sendLoop_flat]
  rfl

theorem finish_flat (q : SendQ) (s : SendScheduler) : q.flat.finish s.flat = (q.finish s).flat := by
  have hpending : (q.flat.sentPacket.any fun p => !p.sent) = q.sentPacket.any fun p => !p.sent :=
    any_flat (fun _ => rfl) q.sentPacket
  have hunreliable : s.flat.unreliable.isEmpty = s.unreliable.isEmpty := List.isEmpty_map
  unfold finish
  rw [hpending, hunreliable]
  unfold flat
  rw [apply_ite (Option.map SendScheduler.flat)]
  rfl

theorem flushScheduled_flat (hB : B.KeySort) (q : SendQ) (tick : ℤ) (s : SendScheduler) :
    q.flat.flushScheduled B tick s.flat =
      ((q.flushScheduled B tick s).1.flat, (q.flushScheduled B tick s).2.flat) := by
  have hstart : ∀ q : SendQ, q.flat.startRound s.flat = (q.startRound s).flat := by
    intro q
    have hsize : (q.flat.sentPacket.map fun p => p.packet.size) =
        q.sentPacket.map fun p => p.packet.size := List.map_map
    unfold startRound
    rw [hsize]
    rfl
  have hprobe : ∀ q : SendQ, q.flat.probeReplay = q.probeReplay := fun _ => rfl
  unfold flushScheduled
  simp only [tick_flat, sortFlight_flat hB, hstart, hprobe, Round.waiting_flat]
  generalize (q.tick B tick).sortFlight B = q
  show ((Round.rounds q.probeReplay tick ((q.mtu : ℕ) * 4) _ (q.startRound s).flat).burst.output,
    (Round.rounds q.probeReplay tick ((q.mtu : ℕ) * 4) _ (q.startRound s).flat).burst.queue.finish
      (Round.rounds q.probeReplay tick ((q.mtu : ℕ) * 4) _ (q.startRound s).flat).scheduler) = _
  rw [Round.rounds_flat]
  exact Prod.ext rfl (finish_flat _ _)

/-- **Flush does not look at how a payload is held.** -/
theorem flush_flat (hB : B.KeySort) (q : SendQ) (tick : ℤ) :
    q.flat.flush B tick = ((q.flush B tick).1.flat, (q.flush B tick).2.flat) := by
  have hreset : (if B.recoveryPolicy then q.flat.resetRecovery tick else q.flat) =
      (if B.recoveryPolicy then q.resetRecovery tick else q).flat := by
    rw [resetRecovery_flat, apply_ite flat]
  unfold flush
  simp only [hreset]
  generalize (if B.recoveryPolicy then q.resetRecovery tick else q) = q
  rw [flat_scheduler]
  cases q.scheduler with
  | none => exact flushLegacy_flat hB q tick
  | some s =>
    have hunreliable : s.flat.unreliable.isEmpty = s.unreliable.isEmpty := List.isEmpty_map
    simp only [Option.map_some, hunreliable, flushScheduled_flat hB, flushLegacy_flat hB]
    show (if !s.useLegacy || !s.unreliable.isEmpty then _ else _) = _
    split_ifs <;> rfl

end SendQ

end RustRaknet.Send
