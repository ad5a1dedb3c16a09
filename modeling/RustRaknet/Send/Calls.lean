import RustRaknet.Lib.Machine
import RustRaknet.Send.Refinement

/-! # The send queue as its callers see it

`arq.rs`: `has_batch_capacity`, and the calls of a socket on its send queue with their answers: an
insertion is accepted or refused, there is capacity or not, and a flush returns its burst.

The crate compiles these functions twice. `README.md` says that a build with `send-policy` keeps the
original behaviour as long as no options are set, and it does as long as every accepted message is
of a reliable mode (`answers_withSendPolicy`): the two builds then go through the same states. An
unreliable message breaks it. `push_unreliable` numbers the frame when it is queued, the flush
numbers it again, and the first number is never sent (`unreliable_renumbered`). -/

namespace RustRaknet.Send

open RustRaknet.Frame RustRaknet.Lib.Result RustRaknet.Lib

namespace SendQ

variable (B : Build) (q : SendQ)

/-! ### Capacity of a batch -/

/-- The `try_fold` of `has_batch_capacity`, from the given total on. -/
def batchBytes (reliability : Reliability) : ℕ → List ℕ → Except RaknetError ℕ
  | total, [] => .ok total
  | total, len :: lengths => do
    let required ← q.requiredBytes reliability len
    if maxBufferedBytes < total + required then .error .packetSizeExceedMTU else
    batchBytes reliability (total + required) lengths

/-- `SendQ::has_batch_required_capacity`. -/
def hasBatchRequiredCapacity (reliability : Reliability) (required : ℕ) : Except RaknetError Bool :=
  if unreliableMode reliability &&
      q.scheduler.any fun s => decide (s.options.unreliableQueueBytes < required) then .ok false
  else q.hasReservedCapacity reliability required

/-- `SendQ::has_batch_capacity`. -/
def hasBatchCapacity (reliability : Reliability) (lengths : List ℕ) : Except RaknetError Bool := do
  let required ← q.batchBytes reliability 0 lengths
  if B.sendPolicy then q.hasBatchRequiredCapacity reliability required
  else .ok (decide (q.bufferedBytes + required ≤ max sendHighWater required))

end SendQ

/-! ### Calls and answers -/

/-- The calls on a send queue: its operations and the two capacity tests. -/
inductive Call
  | op (op : Op)
  | hasCapacity (reliability : Reliability) (len : ℕ)
  | hasBatchCapacity (reliability : Reliability) (lengths : List ℕ)

/-- What a call answers. -/
inductive Answer
  | inserted (result : Except RaknetError Unit)
  | capacity (result : Except RaknetError Bool)
  | burst (output : OutgoingFrames)
  | nothing

/-- The run after a call. The capacity tests only read. -/
def Run.call (B : Build) (r : Run) : Call → Run
  | .op op => r.step B op
  | _ => r

/-- The answer of a call. -/
def Run.answer (B : Build) (r : Run) : Call → Answer
  | .op (.insert m) => .inserted ((r.queue.insertPayload B m).map fun _ => ())
  | .op (.flush tick) => .burst (r.queue.flush B tick).1
  | .op _ => .nothing
  | .hasCapacity reliability len => .capacity (r.queue.hasCapacity B reliability len)
  | .hasBatchCapacity reliability lengths =>
    .capacity (r.queue.hasBatchCapacity B reliability lengths)

/-- The answers of a list of calls. -/
def answers (B : Build) : Run → List Call → List Answer
  | _, [] => []
  | r, c :: calls => r.answer B c :: answers B (r.call B c) calls

/-- The sequence numbers of the frames of a burst. -/
def Answer.numbers : Answer → List ℕ
  | .burst output => output.frames.map fun f => f.frame.sequenceNumber
  | _ => []

/-! ### The two builds -/

/-- The same build with `send-policy` on or off. -/
def Build.withSendPolicy (B : Build) (on : Bool) : Build := { B with sendPolicy := on }

/-- A call of a connection without send options. -/
def Call.Unconfigured : Call → Prop
  | .op (.setSendOptions _) => False
  | _ => True

/-- A call does not queue an unreliable message: the message is of a reliable mode, or the queue
refuses it. -/
def Call.ReliableOnly (B : Build) (r : Run) : Call → Prop
  | .op (.insert m) => m.reliability.isReliable = true ∨ (r.queue.insertPayload B m).isOk = false
  | _ => True

section builds

variable {B : Build} {q q' : SendQ} {r : Run} {m : Message} {n : ℕ}

theorem pushMessage_withSendPolicy (on : Bool) (hm : m.reliability.isReliable = true) :
    q.pushMessage (B.withSendPolicy on) m n = q.pushMessage B m n := by
  unfold SendQ.pushMessage
  cases hr : m.reliability with
  | unreliable | unreliableSequenced => simp [hr, Reliability.isReliable] at hm
  | reliable | reliableOrdered | reliableSequenced => rfl

theorem pushMessage_oversized (B : Build) (q : SendQ) (n : ℕ)
    (hm : m.reliability.isReliable = false) :
    ∃ q', q.pushMessage B m n =
      if n < m.payload.length then .error .packetSizeExceedMTU else .ok q' := by
  unfold SendQ.pushMessage
  cases hr : m.reliability with
  | unreliable | unreliableSequenced => exact ⟨_, rfl⟩
  | reliable | reliableOrdered | reliableSequenced => simp [hr, Reliability.isReliable] at hm

theorem pushMessage_error (on : Bool) {e : RaknetError} (h : q.pushMessage B m n = .error e) :
    q.pushMessage (B.withSendPolicy on) m n = .error e := by
  cases hm : m.reliability.isReliable with
  | true => rw [pushMessage_withSendPolicy on hm, h]
  | false =>
    obtain ⟨q₁, h₁⟩ := pushMessage_oversized B q n hm
    obtain ⟨q₂, h₂⟩ := pushMessage_oversized (B.withSendPolicy on) q n hm
    by_cases hn : n < m.payload.length
    · rw [h₂, if_pos hn, ← h, h₁, if_pos hn]
    · rw [h₁, if_neg hn] at h
      exact nomatch h

theorem book_withSendPolicy (on : Bool) (hm : m.reliability.isReliable = true) :
    q.book (B.withSendPolicy on) m n = q.book B m n := by
  simp [SendQ.book, SendQ.unreliableMode, hm]

/-- Both builds insert a message the same way when it is of a reliable mode or refused. -/
theorem insertPayload_withSendPolicy (on : Bool)
    (h : m.reliability.isReliable = true ∨ (q.insertPayload B m).isOk = false) :
    q.insertPayload (B.withSendPolicy on) m = q.insertPayload B m := by
  unfold SendQ.insertPayload at h ⊢
  cases hreserved : q.requiredBytes m.reliability m.payload.length with
  | error e => rfl
  | ok reserved =>
    simp only [hreserved, ok_bind] at h ⊢
    split_ifs at h ⊢ with hfull
    · rfl
    cases hmax : q.maxPayload with
    | error e => rfl
    | ok n =>
      simp only [hmax, ok_bind] at h ⊢
      cases hpush : q.pushMessage B m n with
      | error e => rw [pushMessage_error on hpush]; rfl
      | ok pushed =>
        rcases h with hm | hrefused
        · rw [pushMessage_withSendPolicy on hm, hpush, ok_bind, ok_bind, book_withSendPolicy on hm]
        · simp [hpush, Except.isOk, Except.toBool] at hrefused

theorem insert_withSendPolicy (h : Call.ReliableOnly (B.withSendPolicy false) r (.op (.insert m))) :
    r.queue.insertPayload (B.withSendPolicy true) m =
      r.queue.insertPayload (B.withSendPolicy false) m :=
  insertPayload_withSendPolicy (B := B.withSendPolicy false) true h

theorem hasCapacity_withSendPolicy (hs : q.scheduler = none) (on : Bool) (reliability : Reliability)
    (len : ℕ) : q.hasCapacity (B.withSendPolicy on) reliability len =
      (q.requiredBytes reliability len).map fun required =>
        decide (q.bufferedBytes + required ≤ max sendHighWater required) := by
  unfold SendQ.hasCapacity SendQ.hasReservedCapacity
  simp only [hs, Build.withSendPolicy]
  cases q.requiredBytes reliability len with
  | error e => rfl
  | ok required => cases on <;> rfl

theorem hasBatchCapacity_withSendPolicy (hs : q.scheduler = none) (on : Bool)
    (reliability : Reliability) (lengths : List ℕ) :
    q.hasBatchCapacity (B.withSendPolicy on) reliability lengths =
      (q.batchBytes reliability 0 lengths).map fun required =>
        decide (q.bufferedBytes + required ≤ max sendHighWater required) := by
  unfold SendQ.hasBatchCapacity SendQ.hasBatchRequiredCapacity SendQ.hasReservedCapacity
  simp only [hs, Build.withSendPolicy, Option.any_none, Bool.and_false]
  cases q.batchBytes reliability 0 lengths with
  | error e => rfl
  | ok required => cases on <;> rfl

/-- A call of an unconfigured connection that queues no unreliable message does the same in both
builds. -/
theorem call_withSendPolicy (r : Run) {c : Call} (hconf : c.Unconfigured)
    (hrel : c.ReliableOnly (B.withSendPolicy false) r) :
    r.call (B.withSendPolicy true) c = r.call (B.withSendPolicy false) c := by
  rcases c with op | _ | _
  · cases op with
    | insert m =>
      unfold Run.call Run.step
      simp only
      rw [insert_withSendPolicy hrel]
    | setSendOptions options => exact hconf.elim
    | _ => rfl
  · rfl
  · rfl

/-- It answers the same, too: a build without `send-policy` never has a scheduler. -/
theorem answer_withSendPolicy (hw : Wf (B.withSendPolicy false) r.queue) {c : Call}
    (hrel : c.ReliableOnly (B.withSendPolicy false) r) :
    r.answer (B.withSendPolicy true) c = r.answer (B.withSendPolicy false) c := by
  have hs : r.queue.scheduler = none := by
    cases h : r.queue.scheduler with
    | none => rfl
    | some s => exact absurd (hw.scheduled s h).1 Bool.false_ne_true
  rcases c with op | ⟨reliability, len⟩ | ⟨reliability, lengths⟩
  · cases op with
    | insert m => simp only [Run.answer, insert_withSendPolicy hrel]
    | _ => rfl
  · simp only [Run.answer, hasCapacity_withSendPolicy hs]
  · simp only [Run.answer, hasBatchCapacity_withSendPolicy hs]

/-- The calls of a connection without options, from a queue without a scheduler. -/
theorem answers_same : ∀ (calls : List Call) {r : Run}, Wf (B.withSendPolicy false) r.queue →
    (∀ c ∈ calls, c.Unconfigured) →
    Machine.Always (Run.call (B.withSendPolicy false)) r
      (Call.ReliableOnly (B.withSendPolicy false)) calls →
    answers (B.withSendPolicy true) r calls = answers (B.withSendPolicy false) r calls
  | [], _, _, _, _ => rfl
  | c :: calls, r, hw, hconf, hrel => by
    obtain ⟨hc, hrest⟩ := hrel.tail
    have hcall : r.call (B.withSendPolicy true) c = r.call (B.withSendPolicy false) c :=
      call_withSendPolicy r (hconf c (by simp)) hc
    have hanswer : r.answer (B.withSendPolicy true) c = r.answer (B.withSendPolicy false) c :=
      answer_withSendPolicy hw hc
    have hw' : Wf (B.withSendPolicy false) (r.call (B.withSendPolicy false) c).queue := by
      cases c with
      | op op => exact (step_steps r op hw).1
      | hasCapacity reliability len | hasBatchCapacity reliability lengths => exact hw
    rw [answers, answers, hanswer, hcall,
      answers_same calls hw' (fun c' hc' => hconf c' (by simp [hc'])) hrest]

end builds

/-- **An unconfigured build with `send-policy` behaves as one without it** as long as no unreliable
message is queued: every call has the same answer, the bursts with their sequence numbers
included. -/
theorem answers_withSendPolicy (B : Build) (mtu : Fin 65536) (calls : List Call)
    (hconf : ∀ c ∈ calls, c.Unconfigured)
    (hrel : Machine.Always (Run.call (B.withSendPolicy false)) (Run.new mtu)
      (Call.ReliableOnly (B.withSendPolicy false)) calls) :
    answers (B.withSendPolicy true) (Run.new mtu) calls =
      answers (B.withSendPolicy false) (Run.new mtu) calls :=
  answers_same calls (wf_new _ mtu) hconf hrel

/-- A reliable message, a capacity test and a flush. -/
def reliableCalls : List Call :=
  [.op (.insert ⟨.reliable, primaryChannel, [0xfe], false⟩), .hasCapacity .unreliable 40,
    .op (.flush 0)]

theorem answers_withSendPolicy_reliable :
    answers ((Build.insertion false false).withSendPolicy true) (Run.new 1400) reliableCalls =
      answers ((Build.insertion false false).withSendPolicy false) (Run.new 1400) reliableCalls :=
  answers_withSendPolicy _ _ _ (by simp [reliableCalls, Call.Unconfigured])
    (.of_forall (by simp [reliableCalls, Call.ReliableOnly, Reliability.isReliable]))

/-- An unreliable message and a flush. -/
def unreliableCalls : List Call :=
  [.op (.insert ⟨.unreliable, primaryChannel, [0xfe], false⟩), .op (.flush 0)]

/-- An unreliable message takes two numbers in an unconfigured build with `send-policy`: the first
is spent when the message is queued, so the first datagram of the connection is number 1. -/
theorem unreliable_renumbered :
    (∀ c ∈ unreliableCalls, c.Unconfigured) ∧
    (answers ((Build.insertion false false).withSendPolicy true) (Run.new 1400)
      unreliableCalls).map Answer.numbers = [[], [1]] ∧
    (answers ((Build.insertion false false).withSendPolicy false) (Run.new 1400)
      unreliableCalls).map Answer.numbers = [[], [0]] := by
  refine ⟨by simp [unreliableCalls, Call.Unconfigured], ?_, ?_⟩
  · decide +kernel
  · decide +kernel

end RustRaknet.Send
