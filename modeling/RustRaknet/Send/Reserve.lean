import RustRaknet.Send.Budget
import RustRaknet.Send.Calls
import RustRaknet.Send.Given

/-! # The unreliable reserve

`send_options.rs`: the constructors of `SendOptions`; `arq.rs`: what `has_reserved_capacity` is for.
Options set aside `unreliable_queue_bytes` of the 64 MiB of a queue. When every message is inserted
after `has_capacity`, or every ordered batch after `has_batch_capacity`, said that there is room
(`Guarded`), the reliable frames leave the reserve free, and the capacity for an unreliable message
is a matter of the unreliable bytes alone (`reserve_isolated`). -/

namespace RustRaknet.Send

open RustRaknet.Frame RustRaknet.Lib.Result Ledger

/-! ### Options -/

/-- `SendOptionsError`. -/
structure SendOptionsError where
  message : String
  deriving DecidableEq, Repr

namespace SendOptions

/-- `SendOptions::with_in_flight_limits`. -/
def withInFlightLimits (o : SendOptions) (frames bytes : ℕ) : Except SendOptionsError SendOptions :=
  if frames < 1 ∨ 4096 < frames ∨ bytes < 2048 ∨ maxBufferedBytes < bytes then
    .error ⟨"flight limits require 1..=4096 frames and 2048..=67108864 bytes"⟩
  else .ok { o with inFlightFrames := frames, inFlightBytes := bytes }

/-- `SendOptions::with_queue_budgets`. -/
def withQueueBudgets (o : SendOptions) (reliable unreliable : ℕ) :
    Except SendOptionsError SendOptions :=
  if reliable < 2048 ∨ unreliable < 2048 ∨ maxBufferedBytes < reliable + unreliable then
    .error ⟨"queue budgets must each be at least 2048 bytes and sum to at most 67108864 bytes"⟩
  else .ok { o with reliableQueueBytes := reliable, unreliableQueueBytes := unreliable }

/-- `SendOptions::with_flush_budget`. -/
def withFlushBudget (o : SendOptions) (bytes : ℕ) : Except SendOptionsError SendOptions :=
  if bytes < 2048 ∨ maxBufferedBytes < bytes then
    .error ⟨"flush budget must be between 2048 and 67108864 bytes"⟩
  else .ok { o with flushBytes := bytes }

/-- The options that the constructors build. -/
inductive Valid : SendOptions → Prop
  | default : Valid .default
  | inFlight {o o' : SendOptions} {frames bytes : ℕ} (h : Valid o)
      (ho : o.withInFlightLimits frames bytes = .ok o') : Valid o'
  | queue {o o' : SendOptions} {reliable unreliable : ℕ} (h : Valid o)
      (ho : o.withQueueBudgets reliable unreliable = .ok o') : Valid o'
  | flush {o o' : SendOptions} {bytes : ℕ} (h : Valid o) (ho : o.withFlushBudget bytes = .ok o') :
      Valid o'

theorem Valid.budgets {o : SendOptions} (h : o.Valid) :
    o.reliableQueueBytes + o.unreliableQueueBytes ≤ maxBufferedBytes ∧
      2048 ≤ o.unreliableQueueBytes := by
  induction h with
  | default => decide
  | inFlight _ ho ih | flush _ ho ih =>
    obtain ⟨-, ho⟩ := guard_eq_ok.mp ho
    exact Except.ok.inj ho ▸ ih
  | queue _ ho ih =>
    obtain ⟨hbudgets, ho⟩ := guard_eq_ok.mp ho
    rw [← Except.ok.inj ho]
    simp only
    omega

end SendOptions

/-! ### The reliable bytes -/

theorem Ledger.Step.log {L L' : Ledger} (hstep : Step L L') (hlanes : L.Lanes) :
    L'.log = L.log ∨ ∃ m, L'.log = L.log ++ [m] := by
  cases hstep.effect hlanes with
  | stay _ _ hlog | emit f _ _ _ hlog | retire f _ _ hlog => exact .inl hlog
  | accept m _ _ _ hlog => exact .inr ⟨m, hlog⟩

/-- What the reliable frames of a queue with a scheduler cost. -/
def Ledger.reliableBytes (L : Ledger) : ℤ := (L.bufferedBytes : ℤ) - L.unreliableBytes

/-- A move that accepts no message does not add to the reliable bytes. -/
theorem Ledger.Step.reliableBytes_le {L L' : Ledger} (hstep : Step L L') (h' : L'.fault = false)
    (hs : L.scheduled = true) (hlog : L'.log = L.log) :
    L'.reliableBytes ≤ L.reliableBytes ∧ L'.scheduled = true := by
  have hgrow : ∀ m, L.log ++ [m] ≠ L.log := fun m he => by simpa using congrArg List.length he
  unfold Ledger.reliableBytes
  cases hstep with
  | acceptReliable | acceptUnreliable | acceptNumbered | acceptScheduled =>
    exact absurd hlog (hgrow _)
  | migrate hun => exact absurd (hun.symm.trans hs) Bool.false_ne_true
  | emit =>
    refine ⟨?_, hs⟩
    simp only [refund]
    omega
  | emitScheduled =>
    refine ⟨?_, hs⟩
    simp only [refund, Bool.or_eq_false_iff, decide_eq_false_iff_not] at h' ⊢
    omega
  | retire =>
    refine ⟨?_, hs⟩
    simp only [retireAt, release]
    omega
  | _ => exact ⟨le_refl _, hs⟩

theorem Ledger.Steps.reliableBytes_le {L L' : Ledger} (hsteps : Steps L L') (hL : L.Balanced)
    (hs : L.scheduled = true) (hlog : L'.log.length ≤ L.log.length) :
    L'.reliableBytes ≤ L.reliableBytes ∧ L'.scheduled = true := by
  suffices h : L'.Balanced ∧ L.log.length ≤ L'.log.length ∧ (L'.log.length ≤ L.log.length →
      L'.reliableBytes ≤ L.reliableBytes ∧ L'.scheduled = true) from h.2.2 hlog
  clear hlog
  induction hsteps with
  | refl => exact ⟨hL, le_refl _, fun _ => ⟨le_refl _, hs⟩⟩
  | tail _ hstep ih =>
    obtain ⟨hbalanced, hgrown, hkept⟩ := ih
    have hbalanced' := hbalanced.step hstep
    refine ⟨hbalanced', ?_, fun hlength => ?_⟩
    · rcases hstep.log hbalanced.lanes with he | ⟨m, he⟩
      · rw [he]
        exact hgrown
      · rw [he, List.length_append]
        omega
    · rcases hstep.log hbalanced.lanes with he | ⟨m, he⟩
      · obtain ⟨hle, hs'⟩ := hkept (by rw [← he]; exact hlength)
        obtain ⟨hle', hs''⟩ := hstep.reliableBytes_le hbalanced'.fault hs' he
        exact ⟨hle'.trans hle, hs''⟩
      · rw [he, List.length_append, List.length_singleton] at hlength
        omega

/-! ### What an insertion is charged -/

section insertion

variable {B : Build} {m : Message} {n : ℕ} {q q' : SendQ}

theorem pushFragments_charge (q : SendQ) :
    (q.pushFragments m n).bufferedBytes = q.bufferedBytes ∧
      (q.pushFragments m n).scheduler = q.scheduler := by
  have hfold : ∀ (l : List FrameSetPacket) (x : SendQ),
      (l.foldl SendQ.pushReliable x).bufferedBytes = x.bufferedBytes ∧
        (l.foldl SendQ.pushReliable x).scheduler = x.scheduler := by
    intro l
    induction l with
    | nil => exact fun _ => ⟨rfl, rfl⟩
    | cons f l ih => exact fun x => ih (x.pushReliable f)
  exact hfold _ (q.share ((m.payload.length + n - 1) / n))

/-- A reliable message leaves the scheduler alone. -/
theorem pushMessage_reliable_charge (hm : m.reliability.isReliable = true)
    (h : q.pushMessage B m n = .ok q') :
    q'.bufferedBytes = q.bufferedBytes ∧ q'.scheduler = q.scheduler := by
  unfold SendQ.pushMessage at h
  cases hr : m.reliability with
  | unreliable | unreliableSequenced => simp [hr, Reliability.isReliable] at hm
  | reliable | reliableSequenced =>
    simp only [hr, guard_eq_ok] at h
    rw [← Except.ok.inj h.2]
    exact ⟨rfl, rfl⟩
  | reliableOrdered =>
    simp only [hr] at h
    by_cases hn : m.payload.length ≤ n
    · rw [if_pos hn] at h
      rw [← Except.ok.inj h]
      exact ⟨rfl, rfl⟩
    · rw [if_neg hn] at h
      rw [← Except.ok.inj h]
      exact pushFragments_charge q

theorem pushUnreliable_charge {s : SendScheduler} (hB : B.sendPolicy = true)
    (hs : q.scheduler = some s) (frame : FrameSetPacket) :
    (q.pushUnreliable B frame).bufferedBytes = q.bufferedBytes ∧
      ∃ s', (q.pushUnreliable B frame).scheduler = some s' ∧ s'.options = s.options ∧
        s'.unreliableBytes = s.unreliableBytes + (frame.data.len + frameBudget) := by
  simp [SendQ.pushUnreliable, hB, hs, charge]

theorem unreliablePayload_len (m : Message) :
    (SendQ.unreliablePayload m).len = m.payload.length := by
  unfold SendQ.unreliablePayload
  split_ifs <;> rfl

/-- An unreliable message is added to the scheduler's counter. -/
theorem pushMessage_unreliable_charge {s : SendScheduler} (hB : B.sendPolicy = true)
    (hs : q.scheduler = some s) (hm : m.reliability.isReliable = false)
    (h : q.pushMessage B m n = .ok q') :
    q'.bufferedBytes = q.bufferedBytes ∧ ∃ s', q'.scheduler = some s' ∧ s'.options = s.options ∧
      s'.unreliableBytes = s.unreliableBytes + (m.payload.length + frameBudget) := by
  have hlen := unreliablePayload_len m
  unfold SendQ.pushMessage at h
  cases hr : m.reliability with
  | unreliable =>
    simp only [hr, guard_eq_ok] at h
    rw [← Except.ok.inj h.2, ← hlen]
    exact pushUnreliable_charge hB hs _
  | unreliableSequenced =>
    simp only [hr, guard_eq_ok] at h
    rw [← Except.ok.inj h.2, ← hlen]
    exact pushUnreliable_charge (q := q.advanceSequenced m.channel) hB hs _
  | reliable | reliableOrdered | reliableSequenced => simp [hr, Reliability.isReliable] at hm

theorem requiredBytes_unreliable {reliability : Reliability} {len r : ℕ}
    (hm : reliability.isReliable = false) (h : q.requiredBytes reliability len = .ok r) :
    r = len + frameBudget := by
  have hcount : ∀ payload, SendQ.frameCount reliability len payload = 1 := fun payload => by
    unfold SendQ.frameCount
    refine if_neg fun hc => ?_
    rw [hc.1] at hm
    exact absurd hm (by decide)
  unfold SendQ.requiredBytes at h
  simp only [bind_eq_ok, guard_eq_ok, hcount] at h
  obtain ⟨payload, -, -, -, he⟩ := h
  rw [← Except.ok.inj he]
  omega

/-- **An insertion is charged what `required_bytes` says**, and an unreliable message to the
scheduler's counter as well. -/
theorem insertPayload_charge {s : SendScheduler} (hB : B.sendPolicy = true)
    (hs : q.scheduler = some s) (h : q.insertPayload B m = .ok q') :
    ∃ r s', q.requiredBytes m.reliability m.payload.length = .ok r ∧
      q'.bufferedBytes = q.bufferedBytes + r ∧ q'.scheduler = some s' ∧ s'.options = s.options ∧
      s'.unreliableBytes = s.unreliableBytes + if m.reliability.isReliable then 0 else r := by
  obtain ⟨r, limit, pushed, hr, -, -, hpush, rfl⟩ := insertPayload_ok h
  cases hm : m.reliability.isReliable with
  | true =>
    obtain ⟨hbytes, hscheduler⟩ := pushMessage_reliable_charge hm hpush
    exact ⟨r, s, hr, by rw [← hbytes]; rfl, hscheduler.trans hs, rfl, rfl⟩
  | false =>
    obtain ⟨hbytes, s', hs', hoptions, hadd⟩ := pushMessage_unreliable_charge hB hs hm hpush
    refine ⟨r, s', hr, by rw [← hbytes]; rfl, hs', hoptions, ?_⟩
    rw [hadd, requiredBytes_unreliable hm hr]
    rfl

end insertion

/-! ### Capacity -/

/-- `SendQ::has_reserved_capacity` with options and without its early return. -/
def SendQ.fullReservedCapacity (q : SendQ) (s : SendScheduler) (reliability : Reliability)
    (required : ℕ) : Except RaknetError Bool :=
  if unreliableMode reliability then
    if s.options.unreliableQueueBytes < required then .error .packetSizeExceedMTU
    else .ok (decide (s.unreliableBytes + required ≤ s.options.unreliableQueueBytes) &&
      decide (q.bufferedBytes + required ≤ maxBufferedBytes))
  else
    let hardLimit := maxBufferedBytes - s.options.unreliableQueueBytes
    if hardLimit < required then .error .packetSizeExceedMTU
    else
      let limit := min (max s.options.reliableQueueBytes required) hardLimit
      .ok (decide (q.bufferedBytes - s.unreliableBytes + required ≤ limit) &&
        decide (q.bufferedBytes + required ≤ maxBufferedBytes))

/-- The bytes that reliable frames may take. -/
def SendOptions.reliableLimit (o : SendOptions) : ℕ := maxBufferedBytes - o.unreliableQueueBytes

/-- The reliable frames of a queue leave the reserve free. -/
def Reserved (options : SendOptions) (q : SendQ) : Prop :=
  ∃ s, q.scheduler = some s ∧ s.options = options ∧
    q.bufferedBytes ≤ s.unreliableBytes + options.reliableLimit

section capacity

variable {q : SendQ} {s : SendScheduler} {reliability : Reliability} {required : ℕ}

/-- **The early return gives the answer of the full computation.** -/
theorem hasReservedCapacity_full (hs : q.scheduler = some s) (hvalid : s.options.Valid) :
    q.hasReservedCapacity reliability required = q.fullReservedCapacity s reliability required := by
  have hbudgets := hvalid.budgets
  unfold SendQ.hasReservedCapacity SendQ.fullReservedCapacity
  simp only [hs]
  by_cases hshort : ¬ SendQ.unreliableMode reliability ∧ s.unreliableBytes = 0 ∧
      required ≤ s.options.reliableQueueBytes
  · obtain ⟨hmode, hnone, hle⟩ := hshort
    have hmode : SendQ.unreliableMode reliability = false := by simpa using hmode
    have hhard : ¬ maxBufferedBytes - s.options.unreliableQueueBytes < required := by omega
    have hlimit : min (max s.options.reliableQueueBytes required)
        (maxBufferedBytes - s.options.unreliableQueueBytes) = s.options.reliableQueueBytes := by
      omega
    simp only [hmode, hnone, hle, hhard, hlimit, Nat.sub_zero]
    simp
    omega
  · rw [if_neg hshort]

theorem room_reliable (hs : q.scheduler = some s) (hvalid : s.options.Valid)
    (hmode : reliability.isReliable = true)
    (h : q.hasReservedCapacity reliability required = .ok true) :
    q.bufferedBytes + required ≤ s.unreliableBytes + s.options.reliableLimit := by
  rw [hasReservedCapacity_full hs hvalid] at h
  unfold SendQ.fullReservedCapacity at h
  simp only [SendQ.unreliableMode, hmode, Bool.not_true] at h
  rw [if_neg Bool.false_ne_true, guard_eq_ok] at h
  have hroom := Except.ok.inj h.2
  simp only [Bool.and_eq_true, decide_eq_true_eq] at hroom
  unfold SendOptions.reliableLimit
  omega

/-- The capacity for an unreliable message depends on the unreliable bytes alone. -/
theorem room_unreliable (hs : q.scheduler = some s)
    (hreserved : q.bufferedBytes ≤ s.unreliableBytes + s.options.reliableLimit)
    (hvalid : s.options.Valid) (hmode : reliability.isReliable = false) :
    q.hasReservedCapacity reliability required =
      if s.options.unreliableQueueBytes < required then .error .packetSizeExceedMTU
      else .ok (decide (s.unreliableBytes + required ≤ s.options.unreliableQueueBytes)) := by
  have hbudgets := hvalid.budgets
  unfold SendOptions.reliableLimit at hreserved
  rw [hasReservedCapacity_full hs hvalid]
  unfold SendQ.fullReservedCapacity
  simp only [SendQ.unreliableMode, hmode, Bool.not_false, if_true]
  by_cases hbig : s.options.unreliableQueueBytes < required
  · rw [if_pos hbig, if_pos hbig]
  · rw [if_neg hbig, if_neg hbig]
    by_cases hroom : s.unreliableBytes + required ≤ s.options.unreliableQueueBytes
    · have hmax : q.bufferedBytes + required ≤ maxBufferedBytes := by omega
      simp [hroom, hmax]
    · simp [hroom]

theorem hasCapacity_unreliable {B : Build} {len : ℕ} (hB : B.sendPolicy = true)
    (hs : q.scheduler = some s)
    (hreserved : q.bufferedBytes ≤ s.unreliableBytes + s.options.reliableLimit)
    (hvalid : s.options.Valid) (hmode : reliability.isReliable = false)
    (hrequired : q.requiredBytes reliability len = .ok required) :
    q.hasCapacity B reliability len =
      if s.options.unreliableQueueBytes < required then .error .packetSizeExceedMTU
      else .ok (decide (s.unreliableBytes + required ≤ s.options.unreliableQueueBytes)) := by
  unfold SendQ.hasCapacity
  rw [hrequired, ok_bind, if_pos hB, room_unreliable hs hreserved hvalid hmode]

end capacity

/-! ### Guarded runs -/

/-- Every message is inserted after `has_capacity`, or every ordered batch after
`has_batch_capacity`, returned `Ok(true)`, and the options stay as they are. Of a batch the first
messages may be in the queue and the `later` ones not, so that a run may also end inside one. -/
inductive Guarded (B : Build) : Run → List Op → Prop
  | nil {r : Run} : Guarded B r []
  | message {r : Run} {m : Message} {ops : List Op}
      (room : r.queue.hasCapacity B m.reliability m.payload.length = .ok true)
      (rest : Guarded B (r.step B (.insert m)) ops) : Guarded B r (.insert m :: ops)
  | batch {r : Run} {l later : List Message} {ops : List Op}
      (ordered : ∀ m ∈ l, m.reliability = .reliableOrdered)
      (room : r.queue.hasBatchCapacity B .reliableOrdered
        ((l ++ later).map fun m => m.payload.length) = .ok true)
      (rest : Guarded B ((l.map Op.insert).foldl (Run.step B) r) ops) :
      Guarded B r (l.map Op.insert ++ ops)
  | other {r : Run} {op : Op} {ops : List Op} (silent : op.Silent)
      (rest : Guarded B (r.step B op) ops) : Guarded B r (op :: ops)

/-- What every operation keeps, whether it is guarded or not. -/
structure Sane (B : Build) (r : Run) : Prop where
  wf : Wf B r.queue
  balanced : r.ledger.Balanced

section guarded

variable {B : Build} {options : SendOptions} {r : Run}

theorem Sane.step (h : Sane B r) (op : Op) : Sane B (r.step B op) := by
  obtain ⟨hwf, hsteps⟩ := step_steps r op h.wf
  exact ⟨hwf, Steps.preserves (fun hstep hb => hb.step hstep) hsteps h.balanced⟩

theorem Sane.foldl (h : Sane B r) (ops : List Op) : Sane B (ops.foldl (Run.step B) r) :=
  List.foldlRecOn ops _ h fun _ hr op _ => hr.step op

theorem sane_run (B : Build) (mtu : Fin 65536) (ops : List Op) : Sane B (run B mtu ops) :=
  ⟨(run_steps B mtu ops).1, balanced_run B mtu ops⟩

theorem setSendOptions_charge {q q' : SendQ} (h : q.setSendOptions options = .ok q') :
    q'.bufferedBytes = q.bufferedBytes ∧ ∃ s, q'.scheduler = some s ∧ s.options = options := by
  unfold SendQ.setSendOptions at h
  rw [guard_eq_ok] at h
  rw [← Except.ok.inj h.2]
  unfold SendQ.ensureScheduler
  cases hs : q.scheduler with
  | none => exact ⟨rfl, _, rfl, rfl⟩
  | some s =>
    have hmap : (q.configure options).scheduler = _ := congrArg (Option.map _) hs
    exact ⟨rfl, _, hmap, rfl⟩

/-- Options that are set on an empty queue leave their reserve free. -/
theorem reserved_of_empty {mtu : Fin 65536} {before : List Op} (hB : B.sendPolicy = true)
    (hempty : (run B mtu before).queue.isEmpty = true)
    (hset : ((run B mtu before).queue.setSendOptions options).isOk = true) :
    Reserved options (run B mtu (before ++ [.setSendOptions options])).queue := by
  have hbytes : (run B mtu before).queue.bufferedBytes = 0 := by
    rw [bytes_held, isEmpty_held hempty]
    rfl
  rw [run_append]
  unfold Run.step
  simp only
  rw [if_pos hB]
  cases hq : (run B mtu before).queue.setSendOptions options with
  | error e =>
    rw [hq] at hset
    cases hset
  | ok q' =>
    obtain ⟨hkept, s, hs, hoptions⟩ := setSendOptions_charge hq
    exact ⟨s, hs, hoptions, show q'.bufferedBytes ≤ _ by omega⟩

theorem Reserved.silent (h : Reserved options r.queue) (hsane : Sane B r) {op : Op}
    (hop : op.Silent) : Reserved options (r.step B op).queue := by
  obtain ⟨s, hs, hoptions, hbytes⟩ := h
  have hgiven := step_given hsane.wf hop
  have hlog : (r.step B op).ledger.log = r.ledger.log := congrArg Given.log hgiven
  have hscheduled : r.ledger.scheduled = true := by simp [Run.ledger, hs]
  obtain ⟨hle, -⟩ := Ledger.Steps.reliableBytes_le (step_steps r op hsane.wf).2 hsane.balanced
    hscheduled (by rw [hlog])
  have hgiven' := congrArg Given.options hgiven
  simp only [SendQ.given, hs, Option.map_some, Option.map_eq_some_iff, Prod.mk.injEq] at hgiven'
  obtain ⟨s', hs', hoptions', -⟩ := hgiven'
  refine ⟨s', hs', hoptions'.trans hoptions, ?_⟩
  simp only [Ledger.reliableBytes, Run.ledger, hs, hs', Option.elim_some] at hle
  omega

theorem step_insert_charge {s : SendScheduler} (hB : B.sendPolicy = true)
    (hs : r.queue.scheduler = some s) (m : Message) :
    (r.step B (.insert m)).queue.mtu = r.queue.mtu ∧
    ∃ charge s', (charge = 0 ∨
        r.queue.requiredBytes m.reliability m.payload.length = .ok charge) ∧
      (r.step B (.insert m)).queue.bufferedBytes = r.queue.bufferedBytes + charge ∧
      (r.step B (.insert m)).queue.scheduler = some s' ∧ s'.options = s.options ∧
      s'.unreliableBytes =
        s.unreliableBytes + if m.reliability.isReliable then 0 else charge := by
  refine Run.insert_cases (fun q' hq' => ?_) ⟨rfl, 0, s, .inl rfl, rfl, hs, rfl, by simp⟩
  obtain ⟨required, s', hrequired, hcharge⟩ := insertPayload_charge hB hs hq'
  have hmtu := congrArg Given.mtu (insertPayload_given hq')
  exact ⟨hmtu, required, s', .inr hrequired, hcharge⟩

/-- A message for which there is capacity leaves the reserve free. -/
theorem Reserved.message (h : Reserved options r.queue) (hB : B.sendPolicy = true)
    (hvalid : options.Valid) {m : Message}
    (hroom : r.queue.hasCapacity B m.reliability m.payload.length = .ok true) :
    Reserved options (r.step B (.insert m)).queue := by
  obtain ⟨s, hs, rfl, hbytes⟩ := h
  obtain ⟨-, charge, s', hcharge, hbuffered, hs', hoptions, hunreliable⟩ :=
    step_insert_charge hB hs m
  refine ⟨s', hs', hoptions, ?_⟩
  unfold SendQ.hasCapacity at hroom
  obtain ⟨required, hrequired, hroom⟩ := bind_eq_ok.mp hroom
  rw [if_pos hB] at hroom
  have hle : charge ≤ required := by
    rcases hcharge with rfl | hcharge
    · exact Nat.zero_le _
    · exact le_of_eq (Except.ok.inj (hcharge.symm.trans hrequired))
  cases hm : m.reliability.isReliable with
  | true =>
    have hlimit := room_reliable hs hvalid hm hroom
    rw [hm, if_pos rfl] at hunreliable
    omega
  | false =>
    rw [hm, if_neg Bool.false_ne_true] at hunreliable
    omega

theorem requiredBytes_congr {q q' : SendQ} (hmtu : q'.mtu = q.mtu) (reliability : Reliability)
    (len : ℕ) : q'.requiredBytes reliability len = q.requiredBytes reliability len := by
  unfold SendQ.requiredBytes SendQ.maxPayload
  rw [hmtu]

theorem batchBytes_congr {q q' : SendQ} (hmtu : q'.mtu = q.mtu) (reliability : Reliability) :
    ∀ (lengths : List ℕ) (total : ℕ),
      q'.batchBytes reliability total lengths = q.batchBytes reliability total lengths
  | [], _ => rfl
  | len :: lengths, total => by
    unfold SendQ.batchBytes
    rw [requiredBytes_congr hmtu]
    simp only [batchBytes_congr hmtu reliability lengths]

theorem batchBytes_cons {q : SendQ} {reliability : Reliability} {len total sum : ℕ}
    {lengths : List ℕ} (h : q.batchBytes reliability total (len :: lengths) = .ok sum) :
    ∃ required, q.requiredBytes reliability len = .ok required ∧
      q.batchBytes reliability (total + required) lengths = .ok sum := by
  unfold SendQ.batchBytes at h
  obtain ⟨required, hrequired, h⟩ := bind_eq_ok.mp h
  exact ⟨required, hrequired, (guard_eq_ok.mp h).2⟩

theorem le_batchBytes {q : SendQ} {reliability : Reliability} {sum : ℕ} :
    ∀ {lengths : List ℕ} {total : ℕ}, q.batchBytes reliability total lengths = .ok sum → total ≤ sum
  | [], _, h => le_of_eq (Except.ok.inj h)
  | _ :: _, _, h => by
    obtain ⟨required, -, h⟩ := batchBytes_cons h
    have := le_batchBytes h
    omega

/-- The first messages of a batch whose bytes are together within the limit; `total` of them are
already charged. -/
theorem Reserved.batch (hB : B.sendPolicy = true) (later : List Message) (sum : ℕ) :
    ∀ (l : List Message) {r : Run} {total : ℕ}, (∀ m ∈ l, m.reliability = .reliableOrdered) →
    r.queue.batchBytes .reliableOrdered total ((l ++ later).map fun m => m.payload.length) =
      .ok sum →
    (∃ s, r.queue.scheduler = some s ∧ s.options = options ∧
      r.queue.bufferedBytes + sum ≤ s.unreliableBytes + options.reliableLimit + total) →
    Reserved options ((l.map Op.insert).foldl (Run.step B) r).queue
  | [], r, total, _, hsum, ⟨s, hs, hoptions, hroom⟩ => by
    have hle := le_batchBytes hsum
    exact ⟨s, hs, hoptions, show r.queue.bufferedBytes ≤ _ by omega⟩
  | m :: l, r, total, hl, hsum, ⟨s, hs, hoptions, hroom⟩ => by
    obtain ⟨hm, hl⟩ := List.forall_mem_cons.mp hl
    obtain ⟨required, hrequired, hsum⟩ := batchBytes_cons hsum
    obtain ⟨hmtu, charge, s', hcharge, hbuffered, hs', hoptions', hunreliable⟩ :=
      step_insert_charge hB hs m
    rw [hm] at hcharge hunreliable
    have hle : charge ≤ required := by
      rcases hcharge with rfl | hcharge
      · exact Nat.zero_le _
      · exact le_of_eq (Except.ok.inj (hcharge.symm.trans hrequired))
    refine Reserved.batch hB later sum l hl ((batchBytes_congr hmtu _ _ _).trans hsum)
      ⟨s', hs', hoptions'.trans hoptions, ?_⟩
    have hsame : s'.unreliableBytes = s.unreliableBytes := hunreliable
    omega

/-- **The reliable frames leave the reserve free in every guarded run.** -/
theorem Guarded.reserved (hB : B.sendPolicy = true) (hvalid : options.Valid) {ops : List Op}
    (h : Guarded B r ops) (hsane : Sane B r) (hr : Reserved options r.queue) :
    Reserved options (ops.foldl (Run.step B) r).queue := by
  induction h with
  | nil => exact hr
  | message room _ ih => exact ih (hsane.step _) (hr.message hB hvalid room)
  | batch ordered room _ ih =>
    rw [List.foldl_append]
    refine ih (hsane.foldl _) ?_
    obtain ⟨s, hs, rfl, -⟩ := hr
    unfold SendQ.hasBatchCapacity SendQ.hasBatchRequiredCapacity at room
    obtain ⟨sum, hsum, room⟩ := bind_eq_ok.mp room
    rw [if_pos hB, if_neg (by simp [SendQ.unreliableMode, Reliability.isReliable])] at room
    exact Reserved.batch hB _ sum _ ordered hsum
      ⟨s, hs, rfl, room_reliable hs hvalid rfl room⟩
  | other silent _ ih => exact ih (hsane.step _) (hr.silent hsane silent)

end guarded

/-- **Reliable data never takes the unreliable reserve.** Under options that were set on an empty
queue and in a run that asks for capacity before each insertion, the reliable frames fit in what the
reserve leaves, the capacity for an unreliable message is a matter of the unreliable bytes alone,
and the early return of `has_reserved_capacity` changes no answer. -/
theorem reserve_isolated (B : Build) (hB : B.sendPolicy = true) (mtu : Fin 65536)
    (before ops : List Op) (options : SendOptions)
    (hempty : (run B mtu before).queue.isEmpty = true) (hvalid : options.Valid)
    (hset : ((run B mtu before).queue.setSendOptions options).isOk = true)
    (hguarded : Guarded B (run B mtu (before ++ [.setSendOptions options])) ops) :
    let q := (run B mtu (before ++ [.setSendOptions options] ++ ops)).queue
    ∃ s, q.scheduler = some s ∧ s.options = options ∧
      budget q.log (q.packets ++ q.sentPacket.map InFlight.packet : List QueuedFrame) ≤
        maxBufferedBytes - options.unreliableQueueBytes ∧
      (∀ reliability len required, reliability.isReliable = false →
        q.requiredBytes reliability len = .ok required →
        (q.hasCapacity B reliability len =
          if options.unreliableQueueBytes < required then .error .packetSizeExceedMTU
          else .ok (decide (budget q.log s.unreliable + required ≤
            options.unreliableQueueBytes))) ∧
        (q.hasCapacity B reliability len = .ok true ↔
          budget q.log s.unreliable + required ≤ options.unreliableQueueBytes)) ∧
      ∀ reliability required, q.hasReservedCapacity reliability required =
        q.fullReservedCapacity s reliability required := by
  have hreserved := hguarded.reserved hB hvalid (sane_run B mtu _)
    (reserved_of_empty hB hempty hset)
  have hrun : ops.foldl (Run.step B) (run B mtu (before ++ [.setSendOptions options])) =
      run B mtu (before ++ [.setSendOptions options] ++ ops) := List.foldl_append.symm
  rw [hrun] at hreserved
  obtain ⟨s, hs, rfl, hbytes⟩ := hreserved
  obtain ⟨hexact, hsplit⟩ := bytes_split B mtu _ hs
  refine ⟨s, hs, rfl, ?_, fun reliability len required hmode hrequired => ?_,
    fun reliability required => hasReservedCapacity_full hs hvalid⟩
  · unfold SendOptions.reliableLimit at hbytes
    omega
  · have hcapacity := hasCapacity_unreliable hB hs hbytes hvalid hmode hrequired
    rw [hexact] at hcapacity
    refine ⟨hcapacity, ?_⟩
    rw [hcapacity, guard_eq_ok]
    simp only [Except.ok.injEq, decide_eq_true_eq]
    omega

/-- A queue that asks before it sends, with the capacity of the default reserve. -/
theorem reserve_isolated_default :
    ∃ s, (run (Build.insertion true false) 1492 [.setSendOptions .default,
        .insert ⟨.reliable, primaryChannel, [0xfe], false⟩, .flush 0]).queue.scheduler = some s ∧
      s.options = .default :=
  have h := reserve_isolated (Build.insertion true false) rfl 1492 []
    [.insert ⟨.reliable, primaryChannel, [0xfe], false⟩, .flush 0] .default (by decide +kernel)
    .default (by decide +kernel)
    (.message (by decide +kernel) (.other trivial .nil))
  ⟨h.choose, h.choose_spec.1, h.choose_spec.2.1⟩

end RustRaknet.Send
