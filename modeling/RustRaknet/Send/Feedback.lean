import RustRaknet.Lib.Machine
import RustRaknet.Send.Queue

/-! # The send queue: acknowledgements

`arq.rs`: `ack`, `ack_ranges`, `nack` and `nack_ranges`, with the round-trip estimate and the part
of the recovery policy they touch. An acknowledged frame leaves the flight and gives its budget
back; a frame found missing gets a new number and waits to be sent again.

The functions that retire frames also return them, each with the sequence number it was acknowledged
under; the source drops them. -/

namespace RustRaknet.Send

open RustRaknet.Frame RustRaknet.Sequence

/-- A frame that was acknowledged, and the number that named it. -/
structure Retired where
  packet : QueuedFrame
  id : ℕ
  deriving DecidableEq, Repr

/-! ### Recovery -/

/-- An entry of the flight that carries a probe. -/
def InFlight.isProbe (sequence : ℕ) (p : InFlight) : Bool :=
  p.sequence == sequence && p.retries == 0 && !p.previous.isEmpty

namespace SendQ

variable (B : Build) (q : SendQ)

/-- `SendQ::active_probe`. -/
def activeProbe : Option ProbeFallback :=
  match q.recovery with
  | none => none
  | some r => r.pendingProbe.filter fun probe => q.sentPacket.any (InFlight.isProbe probe.sequence)

/-- `SendQ::set_recovery_options`. -/
def setRecoveryOptions (options : RecoveryOptions) (now : ℤ) : SendQ :=
  let pendingProbe := q.activeProbe
  { q with recovery :=
      if options ≠ .default ∨ pendingProbe.isSome then some {
        options
        lastProgress := now
        sampledRtt := q.recovery.any Recovery.sampledRtt
        probed := pendingProbe.isSome
        probePacked := false
        pendingProbe
        probeReplay := q.recovery.bind Recovery.probeReplay }
      else none }

/-- `SendQ::acknowledge_progress`. -/
def acknowledgeProgress (now : ℤ) (sampledRtt : Bool) : SendQ :=
  match q.recovery with
  | none => q
  | some r =>
    let recovery := some { r with
      pendingProbe := q.activeProbe
      sampledRtt := r.sampledRtt || sampledRtt
      lastProgress := now
      probed := false }
    if r.options.resetBackoffOnProgress && sampledRtt then
      { q with
        recovery
        sentPacket := q.sentPacket.map fun p => { p with retries := min p.retries 1 }
        nextRetry := 0 }
    else { q with recovery }

/-! ### Round-trip time -/

/-- `SendQ::latency_sample`. -/
def latencySample (srtt rtt : ℤ) : ℤ × ℤ :=
  let srtt := (srtt * 4 + rtt) / 5
  (srtt, max rtoLbound (min rtoUbound (srtt * 3 / 2)))

/-- `SendQ::update_rto`. -/
def updateRto (rtt : ℤ) : SendQ :=
  { q with
    srtt := (latencySample q.srtt rtt).1
    rto := (latencySample q.srtt rtt).2
    nextRetry := if (latencySample q.srtt rtt).2 ≠ q.rto then 0 else q.nextRetry }

/-! ### Negative acknowledgements -/

/-- A frame of the flight is taken for lost: it gets the next number and waits to be sent again.
Ordinary pacing is kept once the connection has observed loss. -/
def reissue (i : ℕ) (item : InFlight) (time : ℤ) : SendQ :=
  { q with
    sequenceNumber := next q.sequenceNumber
    allocated := q.allocated + 1
    coalescingAllowed := false
    coalesce := false
    flightOrderDirty := true
    retriesPending := true
    sentPacket := q.sentPacket.set i
      { item.renumber q.sequenceNumber q.allocated with time } }

/-- The body of the loop of `SendQ::nack`. -/
def nackAt (sequence : ℕ) (tick : ℤ) (q : SendQ) (i : ℕ) : SendQ :=
  match q.sentPacket[i]? with
  | none => q
  | some item =>
    if item.sent && item.sequence == sequence then q.reissue i item tick else q

/-- `SendQ::nack`. -/
def nack (sequence : ℕ) (tick : ℤ) : SendQ :=
  (List.range q.sentPacket.length).foldl (nackAt sequence tick) q

/-- `for id in missing { self.nack(id, tick); }`. -/
def nackAll (ids : List ℕ) (tick : ℤ) : SendQ := ids.foldl (fun q id => q.nack id tick) q

/-- The frames between the previous highest acknowledged number and the new one, which are taken for
lost. -/
def missing (previous newest : ℕ) : List ℕ :=
  let span := distance newest previous
  (q.sentPacket.map InFlight.sequence).filter fun id =>
    decide (0 < distance id previous) && decide (distance id previous < span)

/-- Whether a number lies in one of the ranges. -/
def inRanges (ranges : List (ℕ × ℕ)) (id : ℕ) : Bool :=
  ranges.any fun r => decide (r.1 ≤ id) && decide (id ≤ r.2)

/-- `SendQ::nack_ranges`. A range of one number is reported without collecting. -/
def nackRanges (ranges : List (ℕ × ℕ)) (tick : ℤ) : SendQ :=
  let collected := q.nackAll ((q.sentPacket.map InFlight.sequence).filter (inRanges ranges)) tick
  match ranges with
  | [(a, b)] => if a = b then q.nack a tick else collected
  | _ => collected

/-! ### Acknowledgements -/

/-- What an acknowledged frame gives back: its payload when it has its own, and the whole message
with the last of its fragments. `fetch_sub` returns the counter before the subtraction. -/
def releasedPayload (remaining : ℕ → ℕ) (f : QueuedFrame) : ℕ :=
  match f.frame.sharedPayload with
  | some payload => if remaining payload.cell = 1 then payload.bytes else 0
  | none => f.frame.data.len

/-- The shared counters after `fetch_sub(1)`. -/
def countDown (remaining : ℕ → ℕ) (f : QueuedFrame) : ℕ → ℕ :=
  match f.frame.sharedPayload with
  | some payload => Function.update remaining payload.cell (remaining payload.cell - 1)
  | none => remaining

/-- The shared counter was already zero. -/
def exhausted (remaining : ℕ → ℕ) (f : QueuedFrame) : Bool :=
  match f.frame.sharedPayload with
  | some payload => decide (remaining payload.cell = 0)
  | none => false

/-- Whether an acknowledged frame gives a round-trip sample (Karn's algorithm). -/
def unambiguous (item : InFlight) : Bool :=
  item.retries == 0 && (!B.recoveryPolicy || item.previous.isEmpty)

/-- `self.sent_packet.remove(index)`. -/
def remove (index : ℕ) : SendQ := { q with sentPacket := q.sentPacket.eraseIdx index }

/-- The flight is empty: its datagrams are no longer shared. -/
def ungroup : SendQ :=
  { q with groupedAcks := q.groupedAcks && !q.sentPacket.isEmpty }

/-- The budget of a retired frame is given back. -/
def release (f : QueuedFrame) : SendQ :=
  { q with
    remaining := countDown q.remaining f
    bufferedBytes := q.bufferedBytes - (releasedPayload q.remaining f + frameBudget)
    fault := q.fault || exhausted q.remaining f ||
      decide (q.bufferedBytes < releasedPayload q.remaining f + frameBudget) }

/-- `self.ack_sequence_number = sequence`. -/
def advanceAck (sequence : ℕ) : SendQ := { q with ackSequenceNumber := sequence }

/-- Progress is reported when the build has the recovery policy and a frame was retired. -/
def progress (retired sampledRtt : Bool) (tick : ℤ) : SendQ :=
  if B.recoveryPolicy && retired then q.acknowledgeProgress tick sampledRtt else q

/-- A new highest acknowledged number shows the frames before it to be lost. -/
def expose (previous newest : ℕ) (tick : ℤ) : SendQ :=
  (q.nackAll (q.missing previous newest) tick).advanceAck newest

/-- The round-trip sample of an acknowledged frame. -/
def sampleRtt (tick : ℤ) (item : InFlight) : SendQ :=
  if unambiguous B item then q.updateRto (max (saturatingSub tick item.time) 0) else q

/-- `SendQ::ack` for a flight whose frames do not share datagrams, from the removal of `item` on. -/
def acknowledge (sequence : ℕ) (tick : ℤ) (index : ℕ) (item : InFlight) : SendQ :=
  let q := (q.remove index).progress B true (item.retries == 0 && item.previous.isEmpty) tick
  let q := q.ungroup.release item.packet
  let q := if newer sequence q.ackSequenceNumber then
    q.expose q.ackSequenceNumber sequence tick else q
  q.sampleRtt B tick item

/-- `SendQ::ack` for a flight whose frames do not share datagrams. -/
def ackSingle (sequence : ℕ) (tick : ℤ) : List Retired × SendQ :=
  match q.sentPacket.findIdx? fun item => item.ids.contains sequence with
  | none => ([], q)
  | some index =>
    match q.sentPacket[index]? with
    | none => ([], q)
    | some item => ([⟨item.packet, sequence⟩], q.acknowledge B sequence tick index item)

/-- The variables of the scan of `ack_ranges_inner`. -/
structure Scan where
  kept : List InFlight
  newest : ℕ
  latency : ℤ × ℤ
  releasedBytes : ℕ
  previousSample : Option ℕ
  sampledRtt : Bool
  remaining : ℕ → ℕ
  fault : Bool
  retired : List Retired

/-- An acknowledged frame of the scan. -/
def Scan.take (s : Scan) (item : InFlight) (id : ℕ) : Scan :=
  { s with
    releasedBytes := s.releasedBytes + (releasedPayload s.remaining item.packet + frameBudget)
    remaining := countDown s.remaining item.packet
    fault := s.fault || exhausted s.remaining item.packet
    newest := if newer id s.newest then id else s.newest
    retired := s.retired ++ [⟨item.packet, id⟩] }

/-- The round-trip sample of an acknowledged frame. -/
def Scan.sample (s : Scan) (grouped : Bool) (tick : ℤ) (item : InFlight) (id : ℕ) : Scan :=
  if unambiguous B item && (!grouped || s.previousSample != some id) then
    { s with
      previousSample := if grouped then some id else s.previousSample
      sampledRtt := true
      latency := latencySample s.latency.1 (max (saturatingSub tick item.time) 0) }
  else s

/-- The closure given to `retain_mut` in `ack_ranges_inner`. -/
def scanItem (grouped : Bool) (ranges : List (ℕ × ℕ)) (tick : ℤ) (s : Scan) (item : InFlight) :
    Scan :=
  match item.ids.find? (inRanges ranges) with
  | none => { s with kept := s.kept ++ [item] }
  | some id => (s.take item id).sample B grouped tick item id

/-- The scan of `ack_ranges_inner` over the flight. -/
def scan (grouped : Bool) (ranges : List (ℕ × ℕ)) (tick : ℤ) : Scan :=
  q.sentPacket.foldl (scanItem B grouped ranges tick) {
    kept := []
    newest := q.ackSequenceNumber
    latency := (q.srtt, q.rto)
    releasedBytes := 0
    previousSample := none
    sampledRtt := false
    remaining := q.remaining
    fault := q.fault
    retired := [] }

/-- The flight and the budget after the scan. -/
def settle (s : Scan) : SendQ :=
  { q with
    sentPacket := s.kept
    remaining := s.remaining
    bufferedBytes := q.bufferedBytes - s.releasedBytes
    fault := s.fault || decide (q.bufferedBytes < s.releasedBytes) }

/-- The round-trip estimate after the scan. -/
def setLatency (latency : ℤ × ℤ) : SendQ :=
  { q with
    nextRetry := if q.rto ≠ latency.2 then 0 else q.nextRetry
    srtt := latency.1
    rto := latency.2 }

/-- `SendQ::ack_ranges_inner` after its first test. -/
def ackScan (grouped : Bool) (ranges : List (ℕ × ℕ)) (tick : ℤ) : List Retired × SendQ :=
  let previous := q.ackSequenceNumber
  let s := q.scan B grouped ranges tick
  let q := (q.settle s).progress B (s.releasedBytes != 0) s.sampledRtt tick
  let q := (if grouped then q.ungroup else q).setLatency s.latency
  let q := if s.newest ≠ previous then q.expose previous s.newest tick else q
  (s.retired, q)

/-- `SendQ::ack_ranges_inner`. It calls `ack` back only when the flight does not share datagrams or
has at most one frame, and `ack` then takes its own path. -/
def ackRangesInner (grouped : Bool) (ranges : List (ℕ × ℕ)) (tick : ℤ) : List Retired × SendQ :=
  match ranges with
  | [(a, b)] =>
    if a = b ∧ (¬ grouped ∨ q.sentPacket.length ≤ 1) then q.ackSingle B a tick
    else q.ackScan B grouped ranges tick
  | _ => q.ackScan B grouped ranges tick

/-- `SendQ::ack_ranges`. -/
def ackRanges (ranges : List (ℕ × ℕ)) (tick : ℤ) : List Retired × SendQ :=
  q.ackRangesInner B q.groupedAcks ranges tick

/-- `SendQ::ack`. -/
def ack (sequence : ℕ) (tick : ℤ) : List Retired × SendQ :=
  if q.groupedAcks && decide (1 < q.sentPacket.length) then q.ackRanges B [(sequence, sequence)] tick
  else q.ackSingle B sequence tick

end SendQ

/-! ### What an acknowledgement finds -/

section found

variable (B : Build) (q : SendQ)

theorem progress_default (hB : B.recoveryPolicy = false) (retired sampledRtt : Bool) (tick : ℤ) :
    q.progress B retired sampledRtt tick = q := by
  simp [SendQ.progress, hB]

theorem ackSingle_cases (sequence : ℕ) (tick : ℤ) :
    (q.sentPacket.find? fun item => item.ids.contains sequence) = none ∧
      q.ackSingle B sequence tick = ([], q) ∨
    ∃ index item, q.sentPacket[index]? = some item ∧
      (q.sentPacket.find? fun item => item.ids.contains sequence) = some item ∧
      q.ackSingle B sequence tick =
        ([⟨item.packet, sequence⟩], q.acknowledge B sequence tick index item) := by
  unfold SendQ.ackSingle
  cases hindex : q.sentPacket.findIdx? fun item => item.ids.contains sequence with
  | none =>
    refine .inl ⟨List.find?_eq_none.mpr fun p hp => ?_, rfl⟩
    simpa using List.findIdx?_eq_none_iff.mp hindex p hp
  | some index =>
    obtain ⟨hlt, hitem, hbefore⟩ := List.findIdx?_eq_some_iff_getElem.mp hindex
    have hget := List.getElem?_eq_getElem hlt
    refine .inr ⟨index, _, hget, ?_, by simp only [hget]⟩
    rw [List.find?_eq_some_iff_getElem]
    exact ⟨hitem, index, hlt, rfl, fun j hj => by simpa using hbefore j hj⟩

theorem foldl_scanItem (grouped : Bool) (ranges : List (ℕ × ℕ)) (tick : ℤ) :
    ∀ (l : List InFlight) (s : SendQ.Scan),
      (l.foldl (SendQ.scanItem B grouped ranges tick) s).kept =
        s.kept ++ l.filter (fun p => !p.ids.any (SendQ.inRanges ranges)) ∧
      (l.foldl (SendQ.scanItem B grouped ranges tick) s).retired = s.retired ++
        l.filterMap fun p => (p.ids.find? (SendQ.inRanges ranges)).map (Retired.mk p.packet)
  | [], s => by simp
  | p :: l, s => by
    obtain ⟨hkept, hretired⟩ := foldl_scanItem grouped ranges tick l
      (SendQ.scanItem B grouped ranges tick s p)
    have hany : p.ids.any (SendQ.inRanges ranges) = (p.ids.find? (SendQ.inRanges ranges)).isSome :=
      List.isSome_find?.symm
    rw [List.foldl_cons, hkept, hretired, List.filter_cons, List.filterMap_cons, hany]
    unfold SendQ.scanItem
    cases p.ids.find? (SendQ.inRanges ranges) with
    | none => simp
    | some id =>
      have hsample : (SendQ.Scan.sample B (s.take p id) grouped tick p id).kept = s.kept ∧
          (SendQ.Scan.sample B (s.take p id) grouped tick p id).retired =
            s.retired ++ [⟨p.packet, id⟩] := by
        unfold SendQ.Scan.sample
        split_ifs <;> exact ⟨rfl, rfl⟩
      simp [hsample]

/-- The scan keeps the frames that have none of the acknowledged identifiers. -/
theorem scan_kept (grouped : Bool) (ranges : List (ℕ × ℕ)) (tick : ℤ) :
    (q.scan B grouped ranges tick).kept =
      q.sentPacket.filter fun p => !p.ids.any (SendQ.inRanges ranges) :=
  (foldl_scanItem B grouped ranges tick q.sentPacket _).1

/-- It retires each of the others under the first identifier that is acknowledged. -/
theorem scan_retired (grouped : Bool) (ranges : List (ℕ × ℕ)) (tick : ℤ) :
    (q.scan B grouped ranges tick).retired = q.sentPacket.filterMap fun p =>
      (p.ids.find? (SendQ.inRanges ranges)).map (Retired.mk p.packet) :=
  (foldl_scanItem B grouped ranges tick q.sentPacket _).2

end found

/-! ### Rules for feedback -/

/-- A relation that is kept when a frame is taken for lost. -/
structure NackRule (R : SendQ → SendQ → Prop) : Prop where
  refl : ∀ q, R q q
  trans : ∀ {q q' q''}, R q q' → R q' q'' → R q q''
  reissue : ∀ {q : SendQ} {i : ℕ} {item : InFlight}, q.sentPacket[i]? = some item →
    item.sent = true → ∀ time, R q (q.reissue i item time)

/-- A relation that is also kept by the rest of an acknowledgement, when its frames are removed. -/
structure AckRule (B : Build) (R : SendQ → SendQ → Prop) : Prop extends NackRule R where
  advanceAck : ∀ (q : SendQ) sequence, R q (q.advanceAck sequence)
  progress : ∀ (q : SendQ) retired sampledRtt tick, R q (q.progress B retired sampledRtt tick)
  ungroup : ∀ q : SendQ, R q q.ungroup
  release : ∀ (q : SendQ) f, R q (q.release f)
  updateRto : ∀ (q : SendQ) rtt, R q (q.updateRto rtt)
  setLatency : ∀ (q : SendQ) latency, latency.2 = q.rto ∨ rtoLbound ≤ latency.2 →
    R q (q.setLatency latency)

section rules

variable {B : Build} {R : SendQ → SendQ → Prop} {tick : ℤ}

namespace NackRule

variable (h : NackRule R) (q : SendQ)

include h

theorem foldl {α : Type} {f : SendQ → α → SendQ} (hf : ∀ q a, R q (f q a)) (l : List α) :
    R q (l.foldl f q) :=
  Lib.Machine.run_invariant (I := R q) (h.refl q) (fun s a hs => h.trans hs (hf s a)) l

theorem nack (sequence : ℕ) : R q (q.nack sequence tick) := by
  refine h.foldl q (fun q i => ?_) _
  unfold SendQ.nackAt
  split
  · exact h.refl q
  · next item hitem =>
    split_ifs with hc
    · exact h.reissue hitem (Bool.and_eq_true_iff.mp hc).1 tick
    · exact h.refl q

theorem nackAll (ids : List ℕ) : R q (q.nackAll ids tick) :=
  h.foldl q (fun q id => h.nack q id) ids

theorem nackRanges (ranges : List (ℕ × ℕ)) : R q (q.nackRanges ranges tick) := by
  unfold SendQ.nackRanges
  simp only
  split
  · split_ifs
    · exact h.nack q _
    · exact h.nackAll q _
  · exact h.nackAll q _

end NackRule

namespace AckRule

variable (h : AckRule B R) (q : SendQ)

include h

theorem expose (previous newest : ℕ) : R q (q.expose previous newest tick) :=
  h.trans (h.nackAll q _) (h.advanceAck _ newest)

theorem sampleRtt (item : InFlight) : R q (q.sampleRtt B tick item) := by
  unfold SendQ.sampleRtt
  split_ifs
  · exact h.updateRto q _
  · exact h.refl q

/-- What follows the removal of a frame. -/
theorem removed (sequence index : ℕ) (item : InFlight) :
    R (q.remove index) (q.acknowledge B sequence tick index item) := by
  unfold SendQ.acknowledge
  simp only
  have hrelease : R (q.remove index) (((q.remove index).progress B true
      (item.retries == 0 && item.previous.isEmpty) tick).ungroup.release item.packet) :=
    h.trans (h.trans (h.progress _ _ _ tick) (h.ungroup _)) (h.release _ _)
  refine h.trans ?_ (h.sampleRtt _ item)
  split_ifs
  · exact h.trans hrelease (h.expose _ _ _)
  · exact hrelease

omit h in
theorem scan_latency (grouped : Bool) (ranges : List (ℕ × ℕ)) :
    (q.scan B grouped ranges tick).latency.2 = q.rto ∨
      rtoLbound ≤ (q.scan B grouped ranges tick).latency.2 := by
  refine Lib.Machine.run_invariant
    (I := fun s : SendQ.Scan => s.latency.2 = q.rto ∨ rtoLbound ≤ s.latency.2) (.inl rfl)
    (fun s item hs => ?_) q.sentPacket
  unfold SendQ.scanItem
  split
  · exact hs
  · unfold SendQ.Scan.sample
    split_ifs
    · exact .inr (le_max_left _ _)
    · exact .inr (le_max_left _ _)
    · exact hs

/-- What follows the removal of the frames of the scan. -/
theorem settled (grouped : Bool) (ranges : List (ℕ × ℕ)) :
    R (q.settle (q.scan B grouped ranges tick)) (q.ackScan B grouped ranges tick).2 := by
  have hscan : (q.scan B grouped ranges tick).latency.2 = q.rto ∨ _ := scan_latency q grouped ranges
  unfold SendQ.ackScan
  simp only
  generalize q.scan B grouped ranges tick = s at hscan
  have hprogress := h.progress (q.settle s) (s.releasedBytes != 0) s.sampledRtt tick
  have hrto : ((q.settle s).progress B (s.releasedBytes != 0) s.sampledRtt tick).rto = q.rto := by
    unfold SendQ.progress SendQ.acknowledgeProgress
    split_ifs
    · split
      · rfl
      · simp only
        split_ifs <;> rfl
    · rfl
  generalize (q.settle s).progress B (s.releasedBytes != 0) s.sampledRtt tick = q' at hprogress hrto
  rw [← hrto] at hscan
  have hlatency : R (q.settle s) ((if grouped then q'.ungroup else q').setLatency s.latency) := by
    split_ifs
    · exact h.trans (h.trans hprogress (h.ungroup q')) (h.setLatency _ _ hscan)
    · exact h.trans hprogress (h.setLatency _ _ hscan)
  generalize (if grouped then q'.ungroup else q').setLatency s.latency = q'' at hlatency
  split_ifs
  · exact h.trans hlatency (h.expose _ _ _)
  · exact hlatency

variable (hremove : ∀ (q : SendQ) i, R q (q.remove i))
  (hsettle : ∀ (q : SendQ) grouped ranges, R q (q.settle (q.scan B grouped ranges tick)))

include hremove in
theorem ackSingle (sequence : ℕ) : R q (q.ackSingle B sequence tick).2 := by
  unfold SendQ.ackSingle
  split
  · exact h.refl q
  · split
    · exact h.refl q
    · exact h.trans (hremove q _) (h.removed q sequence _ _)

include hremove hsettle

theorem ackRangesInner (grouped : Bool) (ranges : List (ℕ × ℕ)) :
    R q (q.ackRangesInner B grouped ranges tick).2 := by
  have hscan : ∀ ranges, R q (q.ackScan B grouped ranges tick).2 := fun ranges =>
    h.trans (hsettle q grouped ranges) (h.settled q grouped ranges)
  unfold SendQ.ackRangesInner
  split
  · split_ifs
    · exact h.ackSingle q hremove _
    · exact hscan _
  · exact hscan _

theorem ack (sequence : ℕ) : R q (q.ack B sequence tick).2 := by
  unfold SendQ.ack
  split_ifs
  · exact h.ackRangesInner q hremove hsettle _ _
  · exact h.ackSingle q hremove sequence

end AckRule

end rules

end RustRaknet.Send
