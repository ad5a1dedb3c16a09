import RustRaknet.Send.Flush

/-! # Runs of the send queue

The operations of `SendQ` as one step function. A `Run` is a queue with what has come out of it: the
frames of the last flush, all unreliable frames emitted so far, and all frames retired by an
acknowledgement. -/

namespace RustRaknet.Send

/-- The operations of the send queue. -/
inductive Op
  | insert (m : Message)
  | flush (tick : ℤ)
  | ack (sequence : ℕ) (tick : ℤ)
  | ackRanges (ranges : List (ℕ × ℕ)) (tick : ℤ)
  | nack (sequence : ℕ) (tick : ℤ)
  | nackRanges (ranges : List (ℕ × ℕ)) (tick : ℤ)
  | enableCoalescing
  | setSendOptions (options : SendOptions)
  | setRecoveryOptions (options : RecoveryOptions) (now : ℤ)

/-- A send queue and what has come out of it. -/
structure Run where
  queue : SendQ
  output : OutgoingFrames
  emitted : List QueuedFrame
  retired : List Retired

/-- A new queue. -/
def Run.new (mtu : Fin 65536) : Run := ⟨SendQ.new mtu, .empty, [], []⟩

/-- The queue after frames were retired. -/
def Run.retire (r : Run) (result : List Retired × SendQ) : Run :=
  { r with queue := result.2, retired := r.retired ++ result.1 }

/-- One operation. A rejected one leaves the queue as it is; a function that a build does not have
does nothing. -/
def Run.step (B : Build) (r : Run) : Op → Run
  | .insert m =>
    match r.queue.insertPayload B m with
    | .ok queue => { r with queue }
    | .error _ => r
  | .flush tick =>
    let result := r.queue.flush B tick
    { r with
      queue := result.2
      output := result.1
      emitted := r.emitted ++ result.1.frames.filter fun f => !f.isReliable }
  | .ack sequence tick => r.retire (r.queue.ack B sequence tick)
  | .ackRanges ranges tick => r.retire (r.queue.ackRanges B ranges tick)
  | .nack sequence tick => { r with queue := r.queue.nack sequence tick }
  | .nackRanges ranges tick => { r with queue := r.queue.nackRanges ranges tick }
  | .enableCoalescing => { r with queue := r.queue.enableCoalescing }
  | .setSendOptions options =>
    if B.sendPolicy then
      match r.queue.setSendOptions options with
      | .ok queue => { r with queue }
      | .error _ => r
    else r
  | .setRecoveryOptions options now =>
    if B.recoveryPolicy then { r with queue := r.queue.setRecoveryOptions options now } else r

/-- The run of a list of operations from a new queue. -/
def run (B : Build) (mtu : Fin 65536) (ops : List Op) : Run := ops.foldl (Run.step B) (Run.new mtu)

section cases

variable {B : Build} {r : Run} {M : Run → Prop}

theorem Run.insert_ok {m : Message} {q : SendQ} (h : r.queue.insertPayload B m = .ok q) :
    r.step B (.insert m) = { r with queue := q } := by
  unfold Run.step
  simp only [h]

@[elab_as_elim]
theorem Run.insert_cases {m : Message}
    (ok : ∀ q, r.queue.insertPayload B m = .ok q → M { r with queue := q }) (error : M r) :
    M (r.step B (.insert m)) := by
  unfold Run.step
  simp only
  split
  · next q hq => exact ok q hq
  · exact error

@[elab_as_elim]
theorem Run.setSendOptions_cases {options : SendOptions}
    (ok : ∀ q, B.sendPolicy = true → r.queue.setSendOptions options = .ok q →
      M { r with queue := q }) (error : M r) : M (r.step B (.setSendOptions options)) := by
  unfold Run.step
  simp only
  split_ifs with hB
  · split
    · next q hq => exact ok q hB hq
    · exact error
  · exact error

@[elab_as_elim]
theorem Run.setRecoveryOptions_cases {options : RecoveryOptions} {now : ℤ}
    (on : B.recoveryPolicy = true → M { r with queue := r.queue.setRecoveryOptions options now })
    (off : M r) : M (r.step B (.setRecoveryOptions options now)) := by
  unfold Run.step
  simp only
  split_ifs with hB
  · exact on hB
  · exact off

/-- What an operation makes of a queue does not depend on what has come out of it. -/
theorem Run.step_queue {r' : Run} (h : r.queue = r'.queue) (op : Op) :
    (r.step B op).queue = (r'.step B op).queue := by
  obtain ⟨q, o, e, t⟩ := r
  obtain ⟨q', o', e', t'⟩ := r'
  obtain rfl : q = q' := h
  cases op with
  | insert m =>
    unfold Run.step
    simp only
    split <;> rfl
  | setSendOptions options =>
    unfold Run.step
    simp only
    split_ifs
    · split <;> rfl
    · rfl
  | setRecoveryOptions options now =>
    unfold Run.step
    simp only
    split_ifs <;> rfl
  | flush | ack | ackRanges | nack | nackRanges | enableCoalescing => rfl

theorem Run.foldl_queue (ops : List Op) {r' : Run} (h : r.queue = r'.queue) :
    (ops.foldl (Run.step B) r).queue = (ops.foldl (Run.step B) r').queue := by
  induction ops generalizing r r' with
  | nil => exact h
  | cons op ops ih => exact ih (Run.step_queue h op)

end cases

theorem run_append (B : Build) (mtu : Fin 65536) (ops : List Op) (op : Op) :
    run B mtu (ops ++ [op]) = (run B mtu ops).step B op := by
  simp [run]

end RustRaknet.Send
