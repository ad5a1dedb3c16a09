import RustRaknet.Lib.Forget
import RustRaknet.Send.Acknowledge

/-! # The caches of a retransmission

`SendQ` keeps three values that spare a flush its scans of the flight: `next_retry`, before which no
frame can have timed out; `retries_pending`, off when no frame waits to be sent again; and
`flight_order_dirty`, off when the flight is sorted. `Caches` says that they are right.

Here: the operations between two flushes keep them right and do not look at them (`Quiet`). -/

namespace RustRaknet.Send

open RustRaknet.Frame RustRaknet.Sequence RustRaknet.Lib.Forget RustRaknet.Lib.Result

/-- The queue with its three caches reset. -/
def SendQ.bare (q : SendQ) : SendQ :=
  { q with nextRetry := 0, retriesPending := false, flightOrderDirty := false }

/-- The queue that must look at its whole flight at the next flush. -/
def SendQ.force (q : SendQ) : SendQ :=
  { q with nextRetry := 0, retriesPending := true, flightOrderDirty := true }

@[simp] theorem bare_bare (q : SendQ) : q.bare.bare = q.bare := rfl

@[simp] theorem force_bare (q : SendQ) : q.force.bare = q.bare := rfl

/-- When a frame in flight times out. -/
def InFlight.deadline (rto : ℤ) (p : InFlight) : ℤ := p.time + retryTimeout rto p.retries

/-- The two flags are right, and the times they are compared with are in order. -/
structure Flags (q : SendQ) : Prop where
  pending : ∀ p ∈ q.sentPacket, p.sent = false → q.retriesPending = true
  sorted : q.flightOrderDirty = false →
    q.sentPacket.Pairwise fun a b => a.sequence ≤ b.sequence
  rto : rtoLbound ≤ q.rto
  clock : ∀ p ∈ q.sentPacket, p.sent = true → 0 ≤ p.time

/-- **The caches are right.** -/
structure Caches (q : SendQ) : Prop extends Flags q where
  retry : ∀ p ∈ q.sentPacket, p.sent = true → q.nextRetry ≤ p.deadline q.rto

theorem caches_new (mtu : Fin 65536) : Caches (SendQ.new mtu) where
  pending p hp := by cases hp
  sorted _ := .nil
  rto := le_refl _
  clock p hp := by cases hp
  retry p hp := by cases hp

/-! ### Timeouts -/

theorem backOff_ge {t : ℤ} (h : rtoLbound ≤ t) : rtoLbound ≤ backOff t := by
  unfold backOff rtoUbound
  unfold rtoLbound at h ⊢
  omega

theorem retryTimeout_ge {rto : ℤ} (h : rtoLbound ≤ rto) (retries : ℕ) :
    rtoLbound ≤ retryTimeout rto retries := by
  unfold retryTimeout
  generalize min retries 32 = n
  induction n with
  | zero => exact h
  | succ n ih =>
    rw [Function.iterate_succ_apply']
    exact backOff_ge ih

theorem deadline_nonneg {q : SendQ} (h : Flags q) {p : InFlight} (hp : p ∈ q.sentPacket)
    (hsent : p.sent = true) {rto : ℤ} (hrto : rtoLbound ≤ rto) : 0 ≤ p.deadline rto := by
  have htime := h.clock p hp hsent
  have htimeout := retryTimeout_ge hrto p.retries
  unfold InFlight.deadline
  unfold rtoLbound at htimeout
  omega

theorem saturatingAdd_le {a b : ℤ} (h : 0 ≤ a + b) : saturatingAdd a b ≤ a + b := by
  unfold saturatingAdd
  omega

theorem Caches.force {q : SendQ} (h : Caches q) : Caches q.force where
  pending _ _ _ := rfl
  sorted hd := nomatch hd
  rto := h.rto
  clock := h.clock
  retry _ hp hsent := deadline_nonneg h.toFlags hp hsent h.rto

/-- The caches, the timeout and the flight are the same, but for frames that left the flight. -/
structure Steady (q q' : SendQ) : Prop where
  flight : q'.sentPacket.Sublist q.sentPacket
  rto : q'.rto = q.rto
  nextRetry : q'.nextRetry = q.nextRetry
  retriesPending : q'.retriesPending = q.retriesPending
  flightOrderDirty : q'.flightOrderDirty = q.flightOrderDirty

theorem Caches.of_steady {q q' : SendQ} (h : Caches q) (hf : Steady q q') : Caches q' where
  pending p hp := by
    rw [hf.retriesPending]
    exact h.pending p (hf.flight.subset hp)
  sorted hd := by
    rw [hf.flightOrderDirty] at hd
    exact (h.sorted hd).sublist hf.flight
  rto := by
    rw [hf.rto]
    exact h.rto
  clock p hp := h.clock p (hf.flight.subset hp)
  retry p hp := by
    rw [hf.nextRetry, hf.rto]
    exact h.retry p (hf.flight.subset hp)

/-- Two queues that differ in their caches only, both with right ones. -/
structure Alike (q q' : SendQ) : Prop where
  bare : q.bare = q'.bare
  left : Caches q
  right : Caches q'

theorem Alike.read {α : Type*} {a : SendQ → α} (ha : ∀ q, a q.bare = a q) {q q' : SendQ}
    (h : Alike q q') : a q = a q' := by
  rw [← ha q, ← ha q', h.bare]

theorem Alike.flight {q q' : SendQ} (h : Alike q q') : q.sentPacket = q'.sentPacket :=
  h.read (a := SendQ.sentPacket) fun _ => rfl

/-! ### The operations between two flushes -/

/-- An operation does not look at the caches. -/
abbrev Quiet (f : SendQ → SendQ) : Prop := Blind SendQ.bare SendQ.bare f

theorem quiet_id : Quiet fun q => q := Blind.id _ bare_bare

theorem Alike.map {f : SendQ → SendQ} {q q' : SendQ} (h : Alike q q') (hf : Quiet f)
    (hcaches : ∀ {q}, Caches q → Caches (f q)) : Alike (f q) (f q') :=
  ⟨hf.congr h.bare, hcaches h.left, hcaches h.right⟩

theorem Caches.setRto {q : SendQ} (h : Caches q) (srtt : ℤ) {rto : ℤ} (hrto : rtoLbound ≤ rto) :
    Caches { q with srtt, rto, nextRetry := if rto ≠ q.rto then 0 else q.nextRetry } where
  pending := h.pending
  sorted := h.sorted
  rto := hrto
  clock := h.clock
  retry p hp hsent := by
    show (if rto ≠ q.rto then 0 else q.nextRetry) ≤ p.deadline rto
    by_cases hne : rto = q.rto
    · rw [if_neg (not_not.mpr hne), hne]
      exact h.retry p hp hsent
    · rw [if_pos hne]
      exact deadline_nonneg h.toFlags hp hsent hrto

theorem mem_reissue {q : SendQ} {i : ℕ} {item p : InFlight} {time : ℤ}
    (hp : p ∈ (q.reissue i item time).sentPacket) (hsent : p.sent = true) : p ∈ q.sentPacket := by
  rcases List.mem_or_eq_of_mem_set hp with h | h
  · exact h
  · rw [h] at hsent
    exact absurd hsent Bool.false_ne_true

/-- A backoff that is reset makes the next flush look at the whole flight. -/
theorem Caches.acknowledgeProgress {q : SendQ} (h : Caches q) (now : ℤ) (sampledRtt : Bool) :
    Caches (q.acknowledgeProgress now sampledRtt) := by
  unfold SendQ.acknowledgeProgress
  split
  · exact h
  · simp only
    split_ifs
    · have hmem : ∀ p ∈ q.sentPacket.map fun p => { p with retries := min p.retries 1 },
          ∃ p' ∈ q.sentPacket, { p' with retries := min p'.retries 1 } = p := fun p hp =>
        List.mem_map.mp hp
      have hflags : Flags { q with
          sentPacket := q.sentPacket.map fun p => { p with retries := min p.retries 1 } } := by
        refine ⟨fun p hp hs => ?_, fun hd => ?_, h.rto, fun p hp hs => ?_⟩
        · obtain ⟨p', hp', rfl⟩ := hmem p hp
          exact h.pending p' hp' hs
        · exact List.pairwise_map.mpr (h.sorted hd)
        · obtain ⟨p', hp', rfl⟩ := hmem p hp
          exact h.clock p' hp' hs
      exact ⟨{ hflags with }, fun p hp hs => deadline_nonneg hflags hp hs hflags.rto⟩
    · exact h.of_steady ⟨.refl _, rfl, rfl, rfl, rfl⟩

/-- An acknowledgement leaves the caches right. -/
theorem ackRule_caches {B : Build} : AckRule B fun q q' => Caches q → Caches q' where
  refl _ := id
  trans h h' := h' ∘ h
  reissue _ _ _ h := {
    pending := fun _ _ _ => rfl
    sorted := fun hd => nomatch hd
    rto := h.rto
    clock := fun p hp hsent => h.clock p (mem_reissue hp hsent) hsent
    retry := fun p hp hsent => h.retry p (mem_reissue hp hsent) hsent }
  advanceAck _ _ h := h.of_steady ⟨.refl _, rfl, rfl, rfl, rfl⟩
  progress q retired sampledRtt tick h := by
    unfold SendQ.progress
    split_ifs
    · exact h.acknowledgeProgress tick sampledRtt
    · exact h
  ungroup _ h := h.of_steady ⟨.refl _, rfl, rfl, rfl, rfl⟩
  release _ _ h := h.of_steady ⟨.refl _, rfl, rfl, rfl, rfl⟩
  updateRto _ _ h := h.setRto _ (le_max_left _ _)
  setLatency q latency hlatency h := by
    have hset := h.setRto latency.1 (hlatency.elim (fun he => he ▸ h.rto) id)
    simp only [ne_comm (a := latency.2)] at hset
    exact hset

section caches

variable {B : Build} {q : SendQ}

theorem remove_caches (q : SendQ) (i : ℕ) (h : Caches q) : Caches (q.remove i) :=
  h.of_steady ⟨List.eraseIdx_sublist _ _, rfl, rfl, rfl, rfl⟩

theorem settle_caches (tick : ℤ) (q : SendQ) (grouped : Bool) (ranges : List (ℕ × ℕ)) (h : Caches q) :
    Caches (q.settle (q.scan B grouped ranges tick)) := by
  refine h.of_steady ⟨?_, rfl, rfl, rfl, rfl⟩
  show (q.scan B grouped ranges tick).kept.Sublist q.sentPacket
  rw [scan_kept]
  exact List.filter_sublist

theorem ackRangesInner_caches (grouped : Bool) (ranges : List (ℕ × ℕ)) (tick : ℤ) :
    Caches q → Caches (q.ackRangesInner B grouped ranges tick).2 :=
  ackRule_caches.ackRangesInner q remove_caches (settle_caches tick) grouped ranges

theorem ack_caches (sequence : ℕ) (tick : ℤ) : Caches q → Caches (q.ack B sequence tick).2 :=
  ackRule_caches.ack q remove_caches (settle_caches tick) sequence

end caches

/-! ### What feedback does not look at -/

theorem Quiet.at {f : InFlight → SendQ → SendQ} (hf : ∀ p, Quiet (f p)) (i : ℕ) :
    Quiet fun q => (q.sentPacket[i]?).elim q fun p => f p q :=
  Blind.read (a := fun q : SendQ => q.sentPacket[i]?) (f := fun o q => o.elim q fun p => f p q)
    (fun _ => rfl) fun o => by cases o with
    | none => exact quiet_id
    | some p => exact hf p

theorem Quiet.ite {f : SendQ → SendQ} (hf : Quiet f) (c : Prop) [Decidable c] :
    Quiet fun q => if c then f q else q := by
  split_ifs
  · exact hf
  · exact quiet_id

theorem nack_quiet (sequence : ℕ) (tick : ℤ) : Quiet fun q => q.nack sequence tick := by
  refine Blind.read (a := fun q : SendQ => List.range q.sentPacket.length)
    (f := fun l q => l.foldl (SendQ.nackAt sequence tick) q) (fun _ => rfl) fun l => ?_
  refine Blind.foldl bare_bare (fun i => ?_) l
  have hreissue : ∀ item, Quiet fun q => q.reissue i item tick := fun _ _ => rfl
  have hat := Quiet.at (fun item => (hreissue item).ite (item.sent && item.sequence == sequence)) i
  refine cast (congrArg Quiet (funext fun q => ?_)) hat
  unfold SendQ.nackAt
  cases q.sentPacket[i]? with
  | none => rfl
  | some item => rfl

theorem nackAll_quiet (ids : List ℕ) (tick : ℤ) : Quiet fun q => q.nackAll ids tick :=
  Blind.foldl bare_bare (fun id => nack_quiet id tick) ids

theorem nackRanges_quiet (ranges : List (ℕ × ℕ)) (tick : ℤ) :
    Quiet fun q => q.nackRanges ranges tick := by
  have hcollect : Quiet fun q => q.nackAll
      ((q.sentPacket.map InFlight.sequence).filter (SendQ.inRanges ranges)) tick :=
    Blind.read
      (a := fun q : SendQ => (q.sentPacket.map InFlight.sequence).filter (SendQ.inRanges ranges))
      (f := fun ids q => q.nackAll ids tick) (fun _ => rfl) fun ids => nackAll_quiet ids tick
  unfold SendQ.nackRanges
  split
  · split_ifs
    · exact nack_quiet _ tick
    · exact hcollect
  · exact hcollect

theorem expose_quiet (previous newest : ℕ) (tick : ℤ) :
    Quiet fun q => q.expose previous newest tick := by
  have hadvance : Quiet fun q => q.advanceAck newest := fun _ => rfl
  exact hadvance.comp (Blind.read (a := fun q : SendQ => q.missing previous newest)
    (f := fun ids q => q.nackAll ids tick) (fun _ => rfl) fun ids => nackAll_quiet ids tick)

section default

variable {B : Build} (hB : B.recoveryPolicy = false)
include hB

theorem acknowledge_quiet (sequence : ℕ) (tick : ℤ) (index : ℕ) (item : InFlight) :
    Quiet fun q => q.acknowledge B sequence tick index item := by
  have hremove : Quiet fun q => (q.remove index).ungroup.release item.packet := fun _ => rfl
  have hexpose : Quiet fun q => if newer sequence q.ackSequenceNumber then
      q.expose q.ackSequenceNumber sequence tick else q :=
    Blind.read (a := SendQ.ackSequenceNumber)
      (f := fun ack q => if newer sequence ack then q.expose ack sequence tick else q)
      (fun _ => rfl) fun ack => (expose_quiet ack sequence tick).ite _
  have hsample : Quiet fun q => q.sampleRtt B tick item := by
    have hupdate : ∀ rtt, Quiet fun q => q.updateRto rtt := fun _ _ => rfl
    exact (hupdate _).ite _
  unfold SendQ.acknowledge
  simp only [progress_default B _ hB]
  exact hsample.comp (hexpose.comp hremove)

theorem ackSingle_quiet (sequence : ℕ) (tick : ℤ) :
    Quiet fun q => (q.ackSingle B sequence tick).2 := by
  intro q
  show (q.ackSingle B sequence tick).2.bare = (q.bare.ackSingle B sequence tick).2.bare
  have hflight : q.bare.sentPacket = q.sentPacket := rfl
  unfold SendQ.ackSingle
  rw [hflight]
  cases q.sentPacket.findIdx? fun item => item.ids.contains sequence with
  | none => rfl
  | some index =>
    simp only
    cases q.sentPacket[index]? with
    | none => rfl
    | some item => exact acknowledge_quiet hB sequence tick index item q

theorem ackScan_quiet (grouped : Bool) (ranges : List (ℕ × ℕ)) (tick : ℤ) :
    Quiet fun q => (q.ackScan B grouped ranges tick).2 := by
  have hungroup : Quiet fun q => if grouped then q.ungroup else q := by
    have hungroup : Quiet SendQ.ungroup := fun _ => rfl
    exact hungroup.ite _
  unfold SendQ.ackScan
  simp only [progress_default B _ hB]
  refine Blind.read
    (a := fun q : SendQ => (q.ackSequenceNumber, q.scan B grouped ranges tick))
    (f := fun x (q : SendQ) => if x.2.newest ≠ x.1 then
      ((if grouped then (q.settle x.2).ungroup else q.settle x.2).setLatency
        x.2.latency).expose x.1 x.2.newest tick
      else (if grouped then (q.settle x.2).ungroup else q.settle x.2).setLatency x.2.latency)
    (fun _ => rfl) fun x => ?_
  have hlatency : Quiet fun q => q.setLatency x.2.latency := fun _ => rfl
  have hsettle : Quiet fun q => q.settle x.2 := fun _ => rfl
  exact ((expose_quiet x.1 x.2.newest tick).ite _).comp (hlatency.comp (hungroup.comp hsettle))

theorem ackRangesInner_quiet (grouped : Bool) (ranges : List (ℕ × ℕ)) (tick : ℤ) :
    Quiet fun q => (q.ackRangesInner B grouped ranges tick).2 := by
  have hscan := ackScan_quiet hB grouped ranges tick
  unfold SendQ.ackRangesInner
  split
  · next a b =>
    have hpath : ∀ c : Bool, Quiet fun q => if c then (q.ackSingle B a tick).2
        else (q.ackScan B grouped [(a, b)] tick).2 := fun c => by
      cases c with
      | true => exact ackSingle_quiet hB a tick
      | false => exact hscan
    have hread : Quiet _ := Blind.read
      (a := fun q : SendQ => decide (a = b ∧ (¬ grouped ∨ q.sentPacket.length ≤ 1)))
      (fun _ => rfl) hpath
    simpa only [decide_eq_true_eq, apply_ite Prod.snd] using hread
  · exact hscan

theorem ackRanges_quiet (ranges : List (ℕ × ℕ)) (tick : ℤ) :
    Quiet fun q => (q.ackRanges B ranges tick).2 :=
  Blind.read (a := SendQ.groupedAcks)
    (f := fun grouped q => (q.ackRangesInner B grouped ranges tick).2) (fun _ => rfl)
    fun grouped => ackRangesInner_quiet hB grouped ranges tick

theorem ack_quiet (sequence : ℕ) (tick : ℤ) : Quiet fun q => (q.ack B sequence tick).2 := by
  have hpath : ∀ c : Bool, Quiet fun q => if c then (q.ackRanges B [(sequence, sequence)] tick).2
      else (q.ackSingle B sequence tick).2 := fun c => by
    cases c with
    | true => exact ackRanges_quiet hB _ tick
    | false => exact ackSingle_quiet hB sequence tick
  have hread : Quiet _ := Blind.read
    (a := fun q : SendQ => q.groupedAcks && decide (1 < q.sentPacket.length)) (fun _ => rfl) hpath
  unfold SendQ.ack
  simpa only [apply_ite Prod.snd] using hread

end default

/-! ### Insertion -/

section insertion

variable {B : Build} {m : Message} {n : ℕ}

/-- What an insertion does to the rest of the queue does not depend on what `forget` resets. -/
structure Unseen (B : Build) (forget : SendQ → SendQ) : Prop where
  twice : ∀ q, forget (forget q) = forget q
  requiredBytes : ∀ q r n, (forget q).requiredBytes r n = q.requiredBytes r n
  bufferedBytes : ∀ q, (forget q).bufferedBytes = q.bufferedBytes
  maxPayload : ∀ q, (forget q).maxPayload = q.maxPayload
  ordered : ∀ q, (forget q).orderedFrameIndexes = q.orderedFrameIndexes
  sequenced : ∀ q, (forget q).sequencedFrameIndexes = q.sequencedFrameIndexes
  fragmentFrame : ∀ q, (forget q).fragmentFrame = q.fragmentFrame
  share : ∀ n, Blind forget forget fun q : SendQ => q.share n
  nextCompound : Blind forget forget SendQ.nextCompound
  advanceOrdered : ∀ c, Blind forget forget fun q : SendQ => q.advanceOrdered c
  advanceSequenced : ∀ c, Blind forget forget fun q : SendQ => q.advanceSequenced c
  pushReliable : ∀ f, Blind forget forget fun q : SendQ => q.pushReliable f
  pushUnreliable : ∀ f, Blind forget forget fun q : SendQ => q.pushUnreliable B f
  book : ∀ m n, Blind forget forget fun q : SendQ => q.book B m n

namespace Unseen

variable {forget : SendQ → SendQ} (h : Unseen B forget)
include h

theorem pushFragments : Blind forget forget fun q => q.pushFragments m n := by
  intro q
  show forget (q.pushFragments m n) = forget ((forget q).pushFragments m n)
  unfold SendQ.pushFragments
  rw [h.fragmentFrame]
  exact (h.nextCompound.comp ((Blind.foldl h.twice h.pushReliable _).comp (h.share _))) q

theorem pushMessage (q : SendQ) :
    (q.pushMessage B m n).map forget = ((forget q).pushMessage B m n).map forget := by
  unfold SendQ.pushMessage
  simp only [h.ordered, h.sequenced]
  cases m.reliability <;> simp only <;> split_ifs <;> first | rfl | refine congrArg Except.ok ?_
  · exact h.pushUnreliable _ q
  · exact ((h.pushUnreliable _).comp (h.advanceSequenced _)) q
  · exact h.pushReliable _ q
  · exact ((h.advanceOrdered _).comp (h.pushReliable _)) q
  · exact ((h.advanceOrdered _).comp h.pushFragments) q
  · exact ((h.pushReliable _).comp (h.advanceSequenced _)) q

theorem insertPayload (q : SendQ) :
    (q.insertPayload B m).map forget = ((forget q).insertPayload B m).map forget := by
  unfold SendQ.insertPayload
  rw [h.requiredBytes, h.bufferedBytes, h.maxPayload]
  cases q.requiredBytes m.reliability m.payload.length with
  | error e => rfl
  | ok reserved =>
    simp only [ok_bind]
    split_ifs
    · rfl
    cases q.maxPayload with
    | error e => rfl
    | ok n =>
      simp only [ok_bind]
      have hpush := h.pushMessage (m := m) (n := n) q
      cases hq : q.pushMessage B m n <;> cases hq' : (forget q).pushMessage B m n <;>
        rw [hq, hq'] at hpush
      · exact hpush
      · cases hpush
      · cases hpush
      · exact congrArg Except.ok ((h.book m reserved).congr (Except.ok.inj hpush))

end Unseen

theorem bare_unseen : Unseen B SendQ.bare := by
  refine ⟨fun _ => rfl, fun _ _ _ => rfl, fun _ => rfl, fun _ => rfl, fun _ => rfl, fun _ => rfl,
    fun _ => rfl, fun _ _ => rfl, fun _ => rfl, fun _ _ => rfl, fun _ _ => rfl,
    fun _ _ => rfl, fun f q => ?_, fun _ _ _ => rfl⟩
  have hs : q.bare.scheduler = q.scheduler := rfl
  show (q.pushUnreliable B f).bare = (q.bare.pushUnreliable B f).bare
  unfold SendQ.pushUnreliable
  rw [hs]
  cases B.sendPolicy <;> cases q.scheduler <;> rfl

theorem Steady.trans {q q' q'' : SendQ} (h : Steady q q') (h' : Steady q' q'') : Steady q q'' :=
  ⟨h'.flight.trans h.flight, h'.rto.trans h.rto, h'.nextRetry.trans h.nextRetry,
    h'.retriesPending.trans h.retriesPending, h'.flightOrderDirty.trans h.flightOrderDirty⟩

theorem insertPayload_steady {q q' : SendQ} (h : q.insertPayload B m = .ok q') : Steady q q' := by
  have hrule : PushRule B Steady := ⟨.trans, fun q frame => by
      obtain ⟨_, _, _, _, _, he⟩ := pushUnreliable_eq B q frame
      rw [he]
      exact ⟨.refl _, rfl, rfl, rfl, rfl⟩,
    fun _ _ => ⟨.refl _, rfl, rfl, rfl, rfl⟩, fun _ _ => ⟨.refl _, rfl, rfl, rfl, rfl⟩,
    fun _ _ => ⟨.refl _, rfl, rfl, rfl, rfl⟩, fun _ _ => ⟨.refl _, rfl, rfl, rfl, rfl⟩,
    fun _ => ⟨.refl _, rfl, rfl, rfl, rfl⟩⟩
  exact hrule.insert (fun _ _ => ⟨.refl _, rfl, rfl, rfl, rfl⟩) h

/-- An insertion is accepted or refused without a look at the caches. -/
theorem Alike.insert {r r' : Run} (h : Alike r.queue r'.queue) (m : Message) :
    Alike (r.step B (.insert m)).queue (r'.step B (.insert m)).queue := by
  have he : (r.queue.insertPayload B m).map SendQ.bare =
      (r'.queue.insertPayload B m).map SendQ.bare := by
    rw [bare_unseen.insertPayload, h.bare, ← bare_unseen.insertPayload]
  unfold Run.step
  simp only
  cases hq : r.queue.insertPayload B m with
  | error e =>
    cases hq' : r'.queue.insertPayload B m with
    | error e' => exact h
    | ok q' => rw [hq, hq'] at he; exact nomatch he
  | ok q =>
    cases hq' : r'.queue.insertPayload B m with
    | error e' => rw [hq, hq'] at he; exact nomatch he
    | ok q' =>
      rw [hq, hq'] at he
      exact ⟨Except.ok.inj he, h.left.of_steady (insertPayload_steady hq),
        h.right.of_steady (insertPayload_steady hq')⟩

end insertion

end RustRaknet.Send
