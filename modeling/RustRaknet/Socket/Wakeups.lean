import RustRaknet.Socket.Reached

/-! # Wake-ups

Everyone who gives the maintenance task something to do also sees to its waking up, some steps later.
`alarmed` says that the task is woken, or that someone is bound to wake it; `attended` that someone
will look at its flag, and wake the task if the flag is set. Whatever the others do, a connection
that is alarmed stays so; and one that is attended stays so unless someone has found the flag
cleared, which is done by whoever is bound to wake the task (`Keeps`).

* `Aside`: what an action leaves of the task, of the lock and of the deadlines, for all actions but
  those of the task and of the owner of the lock. -/

namespace RustRaknet.Maintenance

open RustRaknet.Frame RustRaknet.Send RustRaknet.Reply RustRaknet.Lib
open RustRaknet.Lib.Notification (notifyOne enable registered ready pending)

/-! ### Who will wake the task -/

/-- The caller is bound to notify the task, or to close the connection. -/
def Access.notifies : Access → Bool
  | .load => false
  | .swap => false
  | .clear => true
  | .notify => true
  | .close => true

/-- The worker is bound to notify the task. -/
def Worker.notifies : Worker → Bool
  | .receiving notify _ => notify
  | .replied notify => notify
  | _ => false

/-- The worker will look at the flag, if it has not done so. -/
def Worker.checks : Worker → Bool
  | .receiving _ _ => true
  | .replied _ => true
  | _ => false

/-- The owner of the lock is bound to notify the task. -/
def Section.notifies (x : Section) : Bool := x.owner == .options || x.next == .notify

/-- The owner of the lock will look at the flag after it has left. -/
def Section.checks (x : Section) : Bool :=
  match x.owner with
  | .caller _ => true
  | .reply sent => sent
  | _ => false

/-- The receive worker. -/
def Owner.ofWorker : Owner → Bool
  | .feedback => true
  | .reply _ => true
  | _ => false

/-- How far the task has come on its way to sleep: it has found the connection quiet (1), set the
flag (2), found nothing to do in the receive queue (3), and the send queue empty (4). -/
def Phase.drowsy : Phase → ℕ
  | .woken => 0
  | .mark quiet => if quiet then 1 else 0
  | .receive quiet => if quiet then 2 else 0
  | .flush quiet receiveIdle => if quiet then (if receiveIdle then 3 else 2) else 0
  | .ended => 0
  | .top idle | .created idle _ | .enable idle _ | .clock idle _ | .load idle _ _
  | .store idle _ _ | .reload idle _ _ | .restore idle _ _ | .select idle _ _
  | .waiting idle _ _ _ | .publishing idle | .decide idle | .finish idle => if idle then 4 else 0

@[simp] theorem Phase.drowsy_published (task : Phase) : task.published.drowsy = task.drowsy := by
  cases task <;> rfl

variable {ν : Type} [Notification ν]

namespace State

variable (B : Build) (s : State ν)

/-- The task is woken, or someone is bound to wake it. -/
def alarmed : Bool :=
  !s.connected || pending s.wakeup || s.callers.any Access.notifies || s.worker.notifies ||
    s.lock.any Section.notifies

/-- The task is woken, or someone will wake it who finds the flag set. -/
def attended : Bool :=
  s.alarmed || !s.callers.isEmpty || s.worker.checks || s.lock.any Section.checks

/-- A task that waits for notifications is registered. -/
def Listens : Prop :=
  ∀ idle delay timer armed, s.task = .waiting idle delay timer armed →
    (B.recoveryPolicy || idle) = true → registered s.wakeup = true

end State

/-- What a step leaves of the wake-ups. -/
structure Keeps (B : Build) (s s' : State ν) : Prop where
  drowsy : s'.task.drowsy ≤ s.task.drowsy
  listens : s.Listens B → s'.Listens B
  alarmed : s.alarmed = true → s'.alarmed = true
  idle : s.idle = true → s'.idle = true ∨ s'.alarmed = true
  attended : s.idle = true ∨ s.alarmed = true → s.attended = true → s'.attended = true

section keeps

variable {B : Build} {s s' : State ν}

theorem Keeps.refl (s : State ν) : Keeps B s s := ⟨le_refl _, id, id, .inl, fun _ => id⟩

theorem Keeps.trans {s'' : State ν} (h : Keeps B s s') (h' : Keeps B s' s'') : Keeps B s s'' where
  drowsy := h'.drowsy.trans h.drowsy
  listens := h'.listens ∘ h.listens
  alarmed := h'.alarmed ∘ h.alarmed
  idle hidle := (h.idle hidle).elim h'.idle fun ha => .inr (h'.alarmed ha)
  attended hw ha := h'.attended (hw.elim h.idle fun ha => .inr (h.alarmed ha)) (h.attended hw ha)

theorem Keeps.data (s : State ν) (send : Run) (recv : Recv.RecvQ) (clock lastHeartbeat : ℤ)
    (connecting enabled : Bool) (deadline : ℤ) (deadlineDriven : Bool) (wakeAt : ℤ) :
    Keeps B s
      { s with
        send
        recv
        clock
        lastHeartbeat
        connecting
        enabled
        deadline
        deadlineDriven
        wakeAt } :=
  ⟨le_refl _, id, id, .inl, fun _ => id⟩

theorem attended_of_alarmed (h : s.alarmed = true) : s.attended = true := by
  simp [State.attended, h]

theorem alarmed_of_pending (h : pending s.wakeup = true) : s.alarmed = true := by
  simp [State.alarmed, h]

theorem alarmed_of_closed (h : s.connected = false) : s.alarmed = true := by
  simp [State.alarmed, h]

theorem State.Listens.of_task (htask : s'.task = s.task ∨ s'.task = s.task.published)
    (hregistered : registered s.wakeup = true → registered s'.wakeup = true)
    (h : s.Listens B) : s'.Listens B := by
  intro idle delay timer armed hwaiting hlistens
  refine hregistered (h idle delay timer armed ?_ hlistens)
  rcases htask with htask | htask
  · exact htask ▸ hwaiting
  · rw [hwaiting] at htask
    cases ht : s.task <;> simp_all [Phase.published]

theorem Keeps.of_alarmed (htask : s'.task = s.task ∨ s'.task = s.task.published)
    (hregistered : registered s.wakeup = true → registered s'.wakeup = true)
    (h : s'.alarmed = true) : Keeps B s s' where
  drowsy := by rcases htask with htask | htask <;> simp [htask]
  listens := .of_task htask hregistered
  alarmed _ := h
  idle _ := .inr h
  attended _ _ := attended_of_alarmed h

/-! ### The owner of the lock -/

theorem Keeps.goto {owner : Owner} {next : Publish} (hlock : s.lock = some ⟨owner, next⟩)
    (hnext : next ≠ .notify) (next' : Publish) : Keeps B s (s.goto owner next') := by
  have halarmed : s.alarmed = true → (s.goto owner next').alarmed = true := by
    simp only [State.alarmed, State.goto, hlock, Option.any_some, Section.notifies, Bool.or_eq_true,
      beq_iff_eq, hnext, or_false]
    tauto
  refine ⟨le_refl _, id, halarmed, .inl, fun _ => ?_⟩
  simp only [State.attended, Bool.or_eq_true, hlock] at halarmed ⊢
  rintro (((h | h) | h) | h)
  · exact .inl (.inl (.inl (halarmed h)))
  · exact .inl (.inl (.inr h))
  · exact .inl (.inr h)
  · exact .inr h

theorem Keeps.release {owner : Owner} {next : Publish}
    (howned : owner.ofWorker = true → s.worker = .busy) (hlock : s.lock = some ⟨owner, next⟩)
    (howner : owner ≠ .options) (hnext : next ≠ .notify) : Keeps B s (s.release owner) := by
  have hnone : (⟨owner, next⟩ : Section).notifies = false := by
    simp [Section.notifies, howner, hnext]
  have hsection : s.lock.any Section.notifies = false := by simp [hlock, hnone]
  cases owner with
  | task =>
    refine ⟨by simp [State.release], .of_task (.inr rfl) id, ?_, .inl, fun _ => ?_⟩
    · simp [State.release, State.alarmed, hsection]
    · simp [State.release, State.attended, State.alarmed, hlock, hnone, Section.checks]
  | connect =>
    refine ⟨le_refl _, .of_task (.inl rfl) id, ?_, .inl, fun _ => ?_⟩
    · simp [State.release, State.alarmed, hsection]
    · simp [State.release, State.attended, State.alarmed, hlock, hnone, Section.checks]
  | feedback =>
    refine ⟨le_refl _, .of_task (.inl rfl) id, ?_, .inl, fun _ => ?_⟩
    · simp [State.release, State.alarmed, hsection, howned rfl, Worker.notifies]
    · simp [State.release, State.attended, State.alarmed, hlock, hnone, Section.checks, howned rfl,
        Worker.notifies, Worker.checks]
  | reply sent =>
    refine ⟨le_refl _, .of_task (.inl rfl) id, ?_, .inl, fun _ => ?_⟩
    · simp only [State.release, State.alarmed, hsection, howned rfl, Worker.notifies]
      grind
    · cases sent <;> simp [State.release, State.attended, State.alarmed, hlock, hnone,
        Section.checks, howned rfl, Worker.notifies, Worker.checks]
  | caller next =>
    refine ⟨le_refl _, .of_task (.inl rfl) id, ?_, .inl, fun _ => ?_⟩
    · simp only [State.release, State.alarmed, hsection, List.any_append]
      grind
    · simp [State.release, State.attended]
  | options => exact absurd rfl howner

theorem Keeps.published {owner : Owner} {next : Publish}
    (howned : owner.ofWorker = true → s.worker = .busy) (hlock : s.lock = some ⟨owner, next⟩)
    (hnext : next ≠ .notify) : Keeps B s (s.published owner) := by
  unfold State.published
  split_ifs with howner
  · exact .goto hlock hnext _
  · exact .release howned hlock howner hnext

theorem Keeps.begin (hlock : s.lock = none) (owner : Owner) (next : Publish) :
    Keeps B s (s.goto owner next) := by
  refine ⟨le_refl _, id, ?_, .inl, fun _ => ?_⟩
  · simp only [State.goto, State.alarmed, hlock, Option.any_none]
    grind
  · simp only [State.goto, State.attended, State.alarmed, hlock, Option.any_none]
    grind

theorem Keeps.enter {owner : Owner} (hlock : s.lock = none) (howner : owner ≠ .options)
    (howned : owner.ofWorker = true → s.worker = .busy) : Keeps B s (s.enter B owner) := by
  unfold State.enter
  have hbegin : Keeps B s (s.goto owner .driven) := .begin hlock owner .driven
  split_ifs
  · exact hbegin
  · have hrelease : Keeps B (s.goto owner .driven) ((s.goto owner .driven).release owner) :=
      .release howned rfl howner (by decide)
    have heq : (s.goto owner .driven).release owner = s.release owner := by cases owner <;> rfl
    exact hbegin.trans (heq ▸ hrelease)

theorem task_release (owner : Owner) :
    (s.release owner).task = s.task ∨ (s.release owner).task = s.task.published := by
  cases owner
  · exact .inr rfl
  all_goals exact .inl rfl

theorem wakeup_release (owner : Owner) : (s.release owner).wakeup = s.wakeup := by
  cases owner <;> rfl

theorem Keeps.notified (owner : Owner) :
    Keeps B s ({ s with wakeup := notifyOne s.wakeup }.release owner) := by
  refine .of_alarmed (task_release (s := { s with wakeup := notifyOne s.wakeup }) owner) ?_ ?_
  · rw [wakeup_release]
    simp
  · refine alarmed_of_pending ?_
    rw [wakeup_release]
    simp

theorem Keeps.publish
    (howned : ∀ x, s.lock = some x → x.owner.ofWorker = true → s.worker = .busy) :
    Keeps B s s.publish := by
  unfold State.publish
  split
  · exact .refl s
  · next owner deadlines hlock =>
    exact .trans (.goto hlock (by simp) (if deadlines then .driven else .reset))
      (.data _ _ _ _ _ _ _ _ _ _)
  · next owner hlock =>
    exact .trans (.goto hlock (by simp) .driven) (.data _ _ _ _ _ _ _ _ _ _)
  · next owner hlock =>
    split_ifs
    · exact .goto hlock (by simp) _
    · exact .published (howned _ hlock) hlock (by simp)
  · next owner hlock =>
    exact .trans (.goto hlock (by simp) (.compare s.send.queue.recoveryDeadline))
      (.data _ _ _ _ _ _ _ _ _ _)
  · next owner deadline hlock =>
    split_ifs
    · exact .goto hlock (by simp) _
    · exact .published (howned _ hlock) hlock (by simp)
  · next owner hlock =>
    unfold State.published
    split_ifs
    · refine .of_alarmed (.inl rfl) ?_ ?_
      · simp [State.goto]
      · exact alarmed_of_pending (by simp [State.goto])
    · exact .notified owner
  · next owner hlock => exact .notified owner

/-! ### The worker -/

theorem Keeps.worker (hnotifies : s.worker.notifies = false) (hchecks : s.worker.checks = false)
    (worker : Worker) : Keeps B s { s with worker } := by
  refine ⟨le_refl _, id, ?_, .inl, fun _ => ?_⟩
  · simp only [State.alarmed, hnotifies]
    grind
  · simp only [State.attended, State.alarmed, hnotifies, hchecks]
    grind

theorem Keeps.looked (hnotifies : s.worker.notifies = false) (hidle : s.idle = false)
    (worker : Worker) : Keeps B s { s with worker } := by
  have halarmed : s.alarmed = true → { s with worker }.alarmed = true := by
    simp only [State.alarmed, hnotifies]
    grind
  refine ⟨le_refl _, id, halarmed, .inl, fun hwatched _ => ?_⟩
  rcases hwatched with h | h
  · exact absurd h (by simp [hidle])
  · exact attended_of_alarmed (halarmed h)

theorem Keeps.received (hnotifies : s.worker.notifies = false)
    (h : s.worker.checks = true → s.idle = false) (invalid : Bool) :
    Keeps B s (s.received invalid) := by
  unfold State.received
  split_ifs
  · exact .of_alarmed (.inl rfl) id (alarmed_of_closed rfl)
  · cases hchecks : s.worker.checks
    · exact .worker hnotifies hchecks .free
    · exact .looked hnotifies (h hchecks) .free

theorem Keeps.work : Keeps B s (s.work B) := by
  unfold State.work
  split
  · next invalid hworker =>
    split_ifs with hidle
    · exact .of_alarmed (.inl rfl) id (by simp [State.alarmed, Worker.notifies])
    · exact .received (by simp [hworker, Worker.notifies]) (fun _ => by simpa using hidle) invalid
  · next invalid hworker =>
    unfold State.received
    split_ifs
    all_goals exact .of_alarmed (.inl rfl) (by simp) (alarmed_of_pending (by simp))
  · next hworker =>
    split_ifs with hlock
    · have hflush : Keeps B s { s with send := s.send.step B (.flush s.clock), worker := .busy } :=
        .trans (.data s (s.send.step B (.flush s.clock)) _ _ _ _ _ _ _ _)
          (.worker (by simp [hworker, Worker.notifies]) (by simp [hworker, Worker.checks]) .busy)
      refine hflush.trans (.enter ?_ (by simp) fun _ => rfl)
      simpa using hlock
    · exact .refl s
  · next hworker =>
    split_ifs with hidle
    · exact .of_alarmed (.inl rfl) id (by simp [State.alarmed, Worker.notifies])
    · exact .looked (by simp [hworker, Worker.notifies]) (by simpa using hidle) .free
  · exact .of_alarmed (.inl rfl) (by simp) (alarmed_of_pending (by simp))
  · exact .refl s

/-! ### The callers -/

theorem any_set_of_any {α : Type} {l : List α} {p : α → Bool} {i : ℕ} {a : α}
    (hi : l[i]? = some a) (ha : p a = false) (h : l.any p = true) (b : α) :
    (l.set i b).any p = true := by
  obtain ⟨x, hx, hp⟩ := List.any_eq_true.mp h
  obtain ⟨j, hj⟩ := List.mem_iff_getElem?.mp hx
  refine List.any_eq_true.mpr ⟨x, List.mem_iff_getElem?.mpr ⟨j, ?_⟩, hp⟩
  rw [List.getElem?_set_ne ?_, hj]
  rintro rfl
  rw [Option.some.inj (hi.symm.trans hj)] at ha
  exact Bool.false_ne_true (ha.symm.trans hp)

theorem any_eraseIdx_of_any {α : Type} {l : List α} {p : α → Bool} {i : ℕ} {a : α}
    (hi : l[i]? = some a) (ha : p a = false) (h : l.any p = true) :
    (l.eraseIdx i).any p = true := by
  obtain ⟨x, hx, hp⟩ := List.any_eq_true.mp h
  obtain ⟨j, hj⟩ := List.mem_iff_getElem?.mp hx
  refine List.any_eq_true.mpr ⟨x, List.mem_eraseIdx_iff_getElem?.mpr ⟨j, ?_, hj⟩, hp⟩
  rintro rfl
  rw [Option.some.inj (hi.symm.trans hj)] at ha
  exact Bool.false_ne_true (ha.symm.trans hp)

theorem Keeps.callNext {i : ℕ} {a : Access} (hi : s.callers[i]? = some a)
    (ha : a.notifies = false) (next : Access) : Keeps B s (s.callNext i next) := by
  refine ⟨le_refl _, id, ?_, .inl, fun _ _ => ?_⟩
  · have := fun h => any_set_of_any hi ha h next
    simp only [State.callNext, State.alarmed]
    grind
  · have hne : s.callers.set i next ≠ [] := by
      rw [Ne, List.set_eq_nil_iff]
      rintro h
      simp [h] at hi
    simp [State.attended, State.callNext, hne]

theorem Keeps.callDone {i : ℕ} {a : Access} (hi : s.callers[i]? = some a)
    (ha : a.notifies = false) (hidle : s.idle = false) : Keeps B s (s.callDone i) := by
  have halarmed : s.alarmed = true → (s.callDone i).alarmed = true := by
    have := any_eraseIdx_of_any hi ha
    simp only [State.callDone, State.alarmed]
    grind
  refine ⟨le_refl _, id, halarmed, .inl, fun hwatched _ => ?_⟩
  rcases hwatched with h | h
  · exact absurd h (by simp [hidle])
  · exact attended_of_alarmed (halarmed h)

theorem alarmed_callNext_notify {i : ℕ} {a : Access} (hi : s.callers[i]? = some a) :
    (s.callNext i .notify).alarmed = true := by
  have hmem : Access.notify ∈ s.callers.set i .notify :=
    List.mem_set (List.getElem?_eq_some_iff.mp hi).1 _
  have hany : (s.callers.set i .notify).any Access.notifies = true :=
    List.any_eq_true.mpr ⟨_, hmem, rfl⟩
  simp [State.alarmed, State.callNext, hany]

theorem Keeps.call (i : ℕ) : Keeps B s (s.call i) := by
  unfold State.call
  split
  · exact .refl s
  · next hi =>
    split_ifs with hidle
    · exact .callNext hi rfl .swap
    · exact .callDone hi rfl (by simpa using hidle)
  · next hi =>
    split_ifs with hidle
    · exact .of_alarmed (.inl rfl) id (alarmed_callNext_notify (s := { s with idle := false }) hi)
    · exact .callDone hi rfl (by simpa using hidle)
  · next hi =>
    exact .of_alarmed (.inl rfl) id (alarmed_callNext_notify (s := { s with idle := false }) hi)
  · exact .of_alarmed (.inl rfl) (by simp [State.callDone])
      (alarmed_of_pending (by simp [State.callDone]))
  · exact .of_alarmed (.inl rfl) id (alarmed_of_closed rfl)

/-! ### What an access does -/

/-- The fields that a section does not touch any more. -/
structure Frame (s s' : State ν) : Prop where
  send : s'.send = s.send
  recv : s'.recv = s.recv
  connecting : s'.connecting = s.connecting
  enabled : s'.enabled = s.enabled

theorem frame_release (owner : Owner) : Frame s (s.release owner) := by
  cases owner <;> exact ⟨rfl, rfl, rfl, rfl⟩

theorem frame_enter (owner : Owner) : Frame s (s.enter B owner) := by
  unfold State.enter
  split_ifs
  · exact ⟨rfl, rfl, rfl, rfl⟩
  · exact frame_release owner

theorem worker_release {owner : Owner} (h : owner.ofWorker = false) :
    (s.release owner).worker = s.worker := by
  cases owner <;> first | rfl | cases h

/-- An access of the owner: it goes on in its section, or leaves it. -/
theorem publish_cases (s : State ν) : s.publish = s ∨
    ∃ owner next, s.lock = some ⟨owner, next⟩ ∧ ∃ wakeup deadline deadlineDriven,
      (∃ next', s.publish = { s with wakeup, deadline, deadlineDriven }.goto owner next') ∨
        s.publish = { s with wakeup, deadline, deadlineDriven }.release owner := by
  have hpublished : ∀ (t : State ν) (owner : Owner),
      (∃ next', t.published owner = t.goto owner next') ∨ t.published owner = t.release owner := by
    intro t owner
    unfold State.published
    split_ifs
    · exact .inl ⟨_, rfl⟩
    · exact .inr rfl
  unfold State.publish
  split
  · exact .inl rfl
  · next owner deadlines hlock => exact .inr ⟨owner, _, hlock, _, _, _, .inl ⟨_, rfl⟩⟩
  · next owner hlock => exact .inr ⟨owner, _, hlock, _, _, _, .inl ⟨_, rfl⟩⟩
  · next owner hlock =>
    split_ifs
    · exact .inr ⟨owner, _, hlock, s.wakeup, s.deadline, s.deadlineDriven, .inl ⟨_, rfl⟩⟩
    · exact .inr ⟨owner, _, hlock, s.wakeup, s.deadline, s.deadlineDriven, hpublished s owner⟩
  · next owner hlock => exact .inr ⟨owner, _, hlock, _, _, _, .inl ⟨_, rfl⟩⟩
  · next owner deadline hlock =>
    split_ifs
    · exact .inr ⟨owner, _, hlock, s.wakeup, s.deadline, s.deadlineDriven, .inl ⟨_, rfl⟩⟩
    · exact .inr ⟨owner, _, hlock, s.wakeup, s.deadline, s.deadlineDriven, hpublished s owner⟩
  · next owner hlock => exact .inr ⟨owner, _, hlock, _, _, _, hpublished _ owner⟩
  · next owner hlock => exact .inr ⟨owner, _, hlock, _, _, _, .inr rfl⟩

theorem attended_enter {owner : Owner} (hchecks : (⟨owner, .driven⟩ : Section).checks = true) :
    (s.enter B owner).attended = true := by
  unfold State.enter
  split_ifs
  · simp [State.attended, State.goto, hchecks]
  · cases owner with
    | reply sent =>
      obtain rfl : sent = true := hchecks
      simp [State.attended, State.release, Worker.checks]
    | caller next => simp [State.attended, State.release]
    | _ => cases hchecks

theorem received_eq (s : State ν) (invalid : Bool) :
    ∃ connected worker, s.received invalid = { s with connected, worker } := by
  unfold State.received
  split_ifs <;> exact ⟨_, _, rfl⟩

/-- An access of the worker: it flushes its replies, or looks at the flag. -/
theorem work_cases (B : Build) (s : State ν) : s.work B = s ∨
    (s.worker = .replying ∧ s.lock = none ∧
      s.work B = { s with send := s.send.step B (.flush s.clock), worker := .busy }.enter B
        (.reply !(s.send.queue.flush B s.clock).1.frames.isEmpty)) ∨
    (s.worker ≠ .replying ∧ s.worker ≠ .busy ∧ ∃ connected wakeup idle worker,
      s.work B = { s with connected, wakeup, idle, worker }) := by
  unfold State.work
  split
  · next invalid hworker =>
    refine .inr (.inr ⟨by simp [hworker], by simp [hworker], ?_⟩)
    split_ifs
    · exact ⟨_, _, _, _, rfl⟩
    · obtain ⟨connected, worker, heq⟩ := received_eq s invalid
      exact ⟨connected, _, _, worker, heq⟩
  · next invalid hworker =>
    refine .inr (.inr ⟨by simp [hworker], by simp [hworker], ?_⟩)
    obtain ⟨connected, worker, heq⟩ := received_eq { s with wakeup := notifyOne s.wakeup } invalid
    exact ⟨connected, _, _, worker, heq⟩
  · next hworker =>
    split_ifs with hlock
    · exact .inr (.inl ⟨hworker, by simpa using hlock, rfl⟩)
    · exact .inl rfl
  · next hworker =>
    refine .inr (.inr ⟨by simp [hworker], by simp [hworker], ?_⟩)
    split_ifs <;> exact ⟨_, _, _, _, rfl⟩
  · next hworker => exact .inr (.inr ⟨by simp [hworker], by simp [hworker], _, _, _, _, rfl⟩)
  · exact .inl rfl

theorem call_eq (s : State ν) (i : ℕ) : ∃ connected wakeup idle callers,
    s.call i = { s with connected, wakeup, idle, callers } := by
  unfold State.call
  split
  · exact ⟨_, _, _, _, rfl⟩
  · split_ifs
    · exact ⟨s.connected, s.wakeup, s.idle, _, rfl⟩
    · exact ⟨s.connected, s.wakeup, s.idle, _, rfl⟩
  · split_ifs
    · exact ⟨s.connected, s.wakeup, false, _, rfl⟩
    · exact ⟨s.connected, s.wakeup, s.idle, _, rfl⟩
  · exact ⟨s.connected, s.wakeup, false, _, rfl⟩
  · exact ⟨s.connected, notifyOne s.wakeup, s.idle, _, rfl⟩
  · exact ⟨false, s.wakeup, s.idle, _, rfl⟩

/-! ### The lock -/

/-- The accesses that only `set_recovery_options` has. -/
def Publish.ofOptions : Publish → Bool
  | .setDriven _ => true
  | .reset => true
  | .last => true
  | _ => false

/-- Whoever owns the lock is in a section. -/
structure Locked (s : State ν) : Prop where
  worker : ∀ x, s.lock = some x → x.owner.ofWorker = true → s.worker = .busy
  task : ∀ x, s.lock = some x → x.owner = .task → ∃ idle, s.task = .publishing idle
  options : ∀ x, s.lock = some x → x.next.ofOptions = true → x.owner = .options

theorem Locked.of_none (h : s.lock = none) : Locked s := by
  constructor <;> simp [h]

theorem Locked.same (h : Locked s) (hlock : s'.lock = s.lock) (htask : s'.task = s.task)
    (hworker : s.worker = .busy → s'.worker = .busy) : Locked s' where
  worker x hx hof := hworker (h.worker x (hlock ▸ hx) hof)
  task x hx hof := htask ▸ h.task x (hlock ▸ hx) hof
  options x hx hof := h.options x (hlock ▸ hx) hof

theorem Locked.goto {owner : Owner} {next : Publish}
    (hworker : owner.ofWorker = true → s.worker = .busy)
    (htask : owner = .task → ∃ idle, s.task = .publishing idle)
    (hoptions : next.ofOptions = true → owner = .options) : Locked (s.goto owner next) where
  worker _ hx := Option.some.inj hx ▸ hworker
  task _ hx := Option.some.inj hx ▸ htask
  options _ hx := Option.some.inj hx ▸ hoptions

theorem Locked.release (owner : Owner) : Locked (s.release owner) :=
  .of_none (by cases owner <;> rfl)

theorem Locked.enter {owner : Owner} (hworker : owner.ofWorker = true → s.worker = .busy)
    (htask : owner = .task → ∃ idle, s.task = .publishing idle) : Locked (s.enter B owner) := by
  unfold State.enter
  split_ifs
  · exact .goto hworker htask fun h => by cases h
  · exact .release owner

theorem Locked.publish (h : Locked s) : Locked s.publish := by
  have hgoto : ∀ {owner next}, s.lock = some ⟨owner, next⟩ → ∀ {t : State ν} {next' : Publish},
      t.worker = s.worker → t.task = s.task → (next'.ofOptions = true → owner = .options) →
      Locked (t.goto owner next') := by
    intro owner next hlock t next' hworker htask hoptions
    refine .goto (fun hof => ?_) (fun hof => ?_) hoptions
    · exact hworker.trans (h.worker _ hlock hof)
    · rw [htask]
      exact h.task _ hlock hof
  have hpublished : ∀ {owner next}, s.lock = some ⟨owner, next⟩ → ∀ {t : State ν},
      t.worker = s.worker → t.task = s.task → Locked (t.published owner) := by
    intro owner next hlock t hworker htask
    unfold State.published
    split_ifs with howner
    · exact hgoto hlock hworker htask fun _ => howner
    · exact .release owner
  unfold State.publish
  split
  · exact h
  · next hlock => exact hgoto hlock rfl rfl fun _ => h.options _ hlock rfl
  · next hlock => exact hgoto hlock rfl rfl fun hof => by cases hof
  · next hlock =>
    split_ifs
    · exact hgoto hlock rfl rfl fun hof => by cases hof
    · exact hpublished hlock rfl rfl
  · next hlock => exact hgoto hlock rfl rfl fun hof => by cases hof
  · next hlock =>
    split_ifs
    · exact hgoto hlock rfl rfl fun hof => by cases hof
    · exact hpublished hlock rfl rfl
  · next hlock => exact hpublished hlock rfl rfl
  · exact .release _

/-! ### Actions of the others -/

/-- The first access of a section. -/
def Publish.begins : Publish → Bool
  | .setDriven _ => true
  | .driven => true
  | _ => false

/-- What an action leaves of the task, of the lock and of the deadlines. -/
structure Aside (B : Build) (s s' : State ν) : Prop extends Keeps B s s' where
  locked : Locked s → Locked s'
  clock : s.clock ≤ s'.clock
  task : s'.task = s.task
  deadline : s'.deadline = s.deadline
  deadlineDriven : s'.deadlineDriven = s.deadlineDriven
  wakeAt : s'.wakeAt = s.wakeAt
  lock : s'.lock = s.lock ∨ s.lock = none ∧ ∃ x, s'.lock = some x ∧ x.next.begins = true
  queue : B.recoveryPolicy = true →
    s.send.queue.recoveryDeadline ≤ s'.send.queue.recoveryDeadline ∨
      (∃ x, s'.lock = some x ∧ x.next.begins = true) ∨ s'.alarmed = true

theorem Aside.refl (s : State ν) : Aside B s s where
  toKeeps := .refl s
  locked := id
  clock := le_refl _
  task := rfl
  deadline := rfl
  deadlineDriven := rfl
  wakeAt := rfl
  lock := .inl rfl
  queue _ := .inl (le_refl _)

theorem Aside.outside (hkeeps : Keeps B s s') (hlock : s'.lock = s.lock) (htask : s'.task = s.task)
    (hworker : s.worker = .busy → s'.worker = .busy) (hclock : s.clock ≤ s'.clock)
    (hdeadline : s'.deadline = s.deadline ∧ s'.deadlineDriven = s.deadlineDriven ∧
      s'.wakeAt = s.wakeAt)
    (hqueue : s.send.queue.recoveryDeadline ≤ s'.send.queue.recoveryDeadline ∨ s'.alarmed = true) :
    Aside B s s' where
  toKeeps := hkeeps
  locked h := h.same hlock htask hworker
  clock := hclock
  task := htask
  deadline := hdeadline.1
  deadlineDriven := hdeadline.2.1
  wakeAt := hdeadline.2.2
  lock := .inl hlock
  queue _ := hqueue.imp_right .inr

/-- A section of the send queue: until it publishes, its deadline is not known. -/
theorem Aside.section (hlock : s.lock = none) {send : Run} {connecting : Bool} {worker : Worker}
    {owner : Owner} (howner : owner ≠ .options) (htask : owner ≠ .task)
    (howned : owner.ofWorker = true → worker = .busy)
    (hworker : Keeps B s { s with send, connecting, worker }) :
    Aside B s ({ s with send, connecting, worker }.enter B owner) := by
  have henter : Keeps B { s with send, connecting, worker }
      ({ s with send, connecting, worker }.enter B owner) := .enter hlock howner howned
  have hlocked : Locked ({ s with send, connecting, worker }.enter B owner) :=
    .enter howned fun he => absurd he htask
  have hsame : ∀ t : State ν, (t.enter B owner).clock = t.clock ∧ (t.enter B owner).task = t.task ∧
      (t.enter B owner).deadline = t.deadline ∧
      (t.enter B owner).deadlineDriven = t.deadlineDriven ∧
      (t.enter B owner).wakeAt = t.wakeAt := by
    intro t
    unfold State.enter
    split_ifs
    · exact ⟨rfl, rfl, rfl, rfl, rfl⟩
    · cases owner with
      | task => exact absurd rfl htask
      | _ => exact ⟨rfl, rfl, rfl, rfl, rfl⟩
  obtain ⟨hclock, htask', hdeadline, hdriven, hwakeAt⟩ := hsame { s with send, connecting, worker }
  have hbegins : B.recoveryPolicy = true → ∃ x,
      ({ s with send, connecting, worker }.enter B owner).lock = some x ∧ x.next.begins = true := by
    intro hB
    unfold State.enter
    rw [if_pos hB]
    exact ⟨⟨owner, .driven⟩, rfl, rfl⟩
  refine ⟨hworker.trans henter, fun _ => hlocked, hclock.ge, htask', hdeadline, hdriven, hwakeAt, ?_,
    fun hB => .inr (.inl (hbegins hB))⟩
  cases hB : B.recoveryPolicy with
  | true => exact .inr ⟨hlock, hbegins hB⟩
  | false =>
    refine .inl ?_
    unfold State.enter
    rw [if_neg (by simp [hB]), hlock]
    cases owner <;> rfl

theorem Aside.work : Aside B s (s.work B) := by
  have hkeeps : Keeps B s (s.work B) := .work
  rcases work_cases B s with heq | ⟨hworker, hlock, heq⟩ |
    ⟨-, hbusy, connected, wakeup, idle, worker, heq⟩
  · rw [heq]
    exact .refl s
  · rw [heq]
    refine .section hlock (by simp) (by simp) (fun _ => rfl) ?_
    exact .trans (.data s (s.send.step B (.flush s.clock)) _ _ _ _ _ _ _ _)
      (.worker (by simp [hworker, Worker.notifies]) (by simp [hworker, Worker.checks]) .busy)
  · rw [heq] at hkeeps ⊢
    exact .outside hkeeps rfl rfl (fun hb => absurd hb hbusy) (le_refl _) ⟨rfl, rfl, rfl⟩
      (.inl (le_refl _))

theorem Aside.call (i : ℕ) : Aside B s (s.call i) := by
  have hkeeps : Keeps B s (s.call i) := .call i
  obtain ⟨connected, wakeup, idle, callers, heq⟩ := call_eq s i
  rw [heq] at hkeeps ⊢
  exact .outside hkeeps rfl rfl id (le_refl _) ⟨rfl, rfl, rfl⟩ (.inl (le_refl _))

theorem Aside.feedback (op : Op) (now : ℤ) : Aside B s (s.feedback B op now) := by
  unfold State.feedback
  split
  · next hguard =>
    simp only [Bool.and_eq_true, Option.isNone_iff_eq_none, State.workerFree, beq_iff_eq] at hguard
    obtain ⟨⟨⟨hworker, hlock⟩, -⟩, -⟩ := hguard
    refine .section hlock (by simp) (by simp) (fun _ => rfl) ?_
    exact .trans (.data s _ _ _ _ _ _ _ _ _)
      (.worker (by simp [hworker, Worker.notifies]) (by simp [hworker, Worker.checks]) .busy)
  · exact .refl s

theorem Aside.frames (frames : List FrameSetPacket) (takeAck : Bool) :
    Aside B s (s.frames frames takeAck) := by
  have hout : ∀ {recv : Recv.RecvQ} {worker : Worker} {connected : Bool}, s.worker = .free →
      Keeps B s { s with recv, connected, worker } →
      Aside B s { s with recv, connected, worker } := fun hworker hkeeps =>
    .outside hkeeps rfl rfl (fun hb => by rw [hworker] at hb; cases hb) (le_refl _) ⟨rfl, rfl, rfl⟩
      (.inl (le_refl _))
  unfold State.frames
  split
  · next hguard =>
    have hworker : s.worker = .free := by simpa [State.workerFree] using hguard
    have hnotifies : s.worker.notifies = false := by simp [hworker, Worker.notifies]
    have hchecks : s.worker.checks = false := by simp [hworker, Worker.checks]
    simp only
    set recv := if takeAck then (Socket.insertAll s.recv [] frames).2.2.takeAckInto.2
      else (Socket.insertAll s.recv [] frames).2.2
    set invalid := (Socket.insertAll s.recv [] frames).2.1
    have hdata : Keeps B s { s with recv } := .data s _ recv _ _ _ _ _ _ _
    by_cases hneeds : recv.needsMaintenance = true
    · rw [if_pos hneeds]
      exact hout hworker (hdata.trans (.worker (s := { s with recv }) hnotifies hchecks _))
    · rw [if_neg hneeds]
      have hkeeps := hdata.trans (.received (s := { s with recv }) hnotifies
        (fun hc => by simp [hchecks] at hc) invalid)
      obtain ⟨connected, worker, heq⟩ := received_eq { s with recv } invalid
      rw [heq] at hkeeps ⊢
      exact hout hworker hkeeps
  · exact .refl s

theorem insertEach_behind (r : Run) (ms : List Message) :
    Behind r.queue (insertEach B r ms).2.queue := by
  induction ms generalizing r with
  | nil => exact .refl _
  | cons m ms ih =>
    cases hq : r.queue.insertPayload B m with
    | error e =>
      rw [insertEach_cons_error hq]
      exact .refl _
    | ok queue =>
      rw [insertEach_cons_ok hq]
      exact (insertPayload_behind hq).trans (ih { r with queue })

theorem handle_behind (e : Endpoint) (stamp stamp' : Int64) (receiverOpen : Bool) (data : Bytes)
    (r : Run) :
    Behind r.queue (Reply.handle B e stamp stamp' receiverOpen data r).2.queue := by
  unfold Reply.handle
  split
  · exact .refl _
  · next ms action _ =>
    have hinserted := insertEach_behind (B := B) r ms
    split
    · next hms => rwa [hms] at hinserted
    · next hms => rwa [hms] at hinserted

theorem Aside.handle (e : Endpoint) (stamp stamp' : Int64) (receiverOpen : Bool) (data : Bytes) :
    Aside B s (s.handle B e stamp stamp' receiverOpen data) := by
  have hbehind := (handle_behind (B := B) e stamp stamp' receiverOpen data s.send).recoveryDeadline
  unfold State.handle
  split
  · next hguard =>
    simp only [Bool.and_eq_true, State.workerFree, beq_iff_eq] at hguard
    have hworker := hguard.1
    have hfree : ∀ {P : Prop}, s.worker = .busy → P := fun hb => by
      rw [hworker] at hb
      cases hb
    have hreplying : ∀ send, Keeps B s { s with send, worker := .replying } := fun send =>
      .trans (.data s send _ _ _ _ _ _ _ _)
        (.worker (by simp [hworker, Worker.notifies]) (by simp [hworker, Worker.checks]) .replying)
    split
    · next hhandle =>
      rw [hhandle] at hbehind
      exact .outside (.data s _ _ _ _ _ _ _ _ _) rfl rfl id (le_refl _) ⟨rfl, rfl, rfl⟩
        (.inl hbehind)
    · next hhandle =>
      rw [hhandle] at hbehind
      exact .outside (.of_alarmed (.inl rfl) id (alarmed_of_closed rfl)) rfl rfl hfree (le_refl _)
        ⟨rfl, rfl, rfl⟩ (.inl hbehind)
    · next hhandle =>
      rw [hhandle] at hbehind
      exact .outside (hreplying _) rfl rfl hfree (le_refl _) ⟨rfl, rfl, rfl⟩ (.inl hbehind)
  · exact .refl s

theorem Aside.bound (send : Run) (enabled : Bool) {next : Access} (hnext : next.notifies = true) :
    Aside B s { s with send, enabled, callers := s.callers ++ [next] } := by
  have halarmed : { s with send, enabled, callers := s.callers ++ [next] }.alarmed = true := by
    simp [State.alarmed, hnext]
  exact .outside (.of_alarmed (.inl rfl) id halarmed) rfl rfl id (le_refl _) ⟨rfl, rfl, rfl⟩
    (.inr halarmed)

theorem Aside.caller (hlock : s.lock = none) (send : Run) (next : Access) :
    Aside B s ({ s with send }.enter B (.caller next)) :=
  .section hlock (by simp) (by simp) (fun hw => by cases hw) (.data s send _ _ _ _ _ _ _ _)

theorem Aside.payload (m : Message) : Aside B s (s.payload B m) := by
  unfold State.payload
  split_ifs with hguard
  · simp only [Bool.and_eq_true, State.callable, Option.isNone_iff_eq_none] at hguard
    split
    · split
      · exact .refl s
      · exact .caller hguard.1.1 _ .load
    · exact .refl s
  · exact .refl s

theorem Aside.batch (channel : Fin 256) (owned : Bool) (payloads : List Bytes) :
    Aside B s (s.batch B channel owned payloads) := by
  unfold State.batch
  split_ifs with hguard
  · simp only [Bool.and_eq_true, State.callable, Option.isNone_iff_eq_none] at hguard
    split
    · have hbehind := (insertEach_behind (B := B) (s.send.step B .enableCoalescing)
        (State.messages channel owned payloads)).recoveryDeadline
      split
      · next hinsert =>
        rw [hinsert] at hbehind
        exact .outside (.data s _ _ _ _ _ _ _ _ _) rfl rfl id (le_refl _) ⟨rfl, rfl, rfl⟩
          (.inl hbehind)
      · exact .caller hguard.1.1 _ .swap
    · exact .refl s
  · exact .refl s

theorem Aside.setSendOptions (options : SendOptions) : Aside B s (s.setSendOptions B options) := by
  unfold State.setSendOptions
  split_ifs
  · split
    · exact .refl s
    · exact .bound _ s.enabled rfl
  · exact .refl s

theorem Aside.setRecoveryOptions (options : RecoveryOptions) :
    Aside B s (s.setRecoveryOptions B options) := by
  unfold State.setRecoveryOptions
  split_ifs with hguard
  · simp only [Bool.and_eq_true, State.callable, Option.isNone_iff_eq_none] at hguard
    have halarmed : ∀ (t : State ν) (next : Publish), (t.goto .options next).alarmed = true := by
      simp [State.alarmed, State.goto, Section.notifies]
    exact ⟨.of_alarmed (.inl rfl) id (halarmed _ _),
      fun _ => .goto (fun hw => by cases hw) (fun ht => by cases ht) fun _ => rfl, le_refl _, rfl, rfl,
      rfl, rfl, .inr ⟨hguard.1.2.1, _, rfl, rfl⟩, fun _ => .inr (.inr (halarmed _ _))⟩
  · exact .refl s

theorem Aside.setIdleMaintenance (enabled : Bool) : Aside B s (s.setIdleMaintenance enabled) := by
  unfold State.setIdleMaintenance
  split_ifs
  · exact .refl s
  · exact .outside (.data s _ _ _ _ _ enabled _ _ _) rfl rfl id (le_refl _) ⟨rfl, rfl, rfl⟩
      (.inl (le_refl _))
  · exact .bound s.send enabled rfl

theorem Aside.close : Aside B s (s.close B) := by
  unfold State.close
  split_ifs
  · split
    · exact .refl s
    · exact .bound _ s.enabled rfl
  · exact .refl s

theorem Aside.connect : Aside B s (s.connect B) := by
  unfold State.connect
  split_ifs with hguard
  · simp only [Bool.and_eq_true, Option.isNone_iff_eq_none] at hguard
    exact .section hguard.1 (by simp) (by simp) (fun hw => by cases hw)
      (.data s _ _ _ _ false _ _ _ _)
  · exact .refl s

/-- The task and the owner of the lock. -/
def Action.ofTask : Action → Bool
  | .task => true
  | .timer => true
  | .notified => true
  | .closed => true
  | .expired => true
  | .publish => true
  | _ => false

/-- **The others leave the task, the lock and the deadlines alone**, and take no wake-up back. -/
theorem aside_step (e : Endpoint) {a : Action} (ha : a.ofTask = false) :
    Aside B s (s.step B e a) := by
  cases a with
  | elapse millis =>
    refine .outside (.data s _ _ (s.clock + millis) _ _ _ _ _ _) rfl rfl id ?_ ⟨rfl, rfl, rfl⟩
      (.inl (le_refl _))
    show s.clock ≤ s.clock + millis
    omega
  | worker => exact .work
  | caller i => exact .call i
  | heartbeat =>
    show Aside B s (if s.workerFree then { s with lastHeartbeat := s.clock } else s)
    split_ifs
    · exact .outside (.data s _ _ _ s.clock _ _ _ _ _) rfl rfl id (le_refl _) ⟨rfl, rfl, rfl⟩
        (.inl (le_refl _))
    · exact .refl s
  | ack ranges now | nack ranges now => exact .feedback _ now
  | frames frames takeAck => exact .frames frames takeAck
  | handle stamp stamp' receiverOpen data => exact .handle e stamp stamp' receiverOpen data
  | connect => exact .connect
  | payload m => exact .payload m
  | batch channel owned payloads => exact .batch channel owned payloads
  | setSendOptions options => exact .setSendOptions options
  | setRecoveryOptions options => exact .setRecoveryOptions options
  | setIdleMaintenance enabled => exact .setIdleMaintenance enabled
  | close => exact .close
  | shut =>
    exact .outside (.of_alarmed (.inl rfl) id (alarmed_of_closed rfl)) rfl rfl id (le_refl _)
      ⟨rfl, rfl, rfl⟩ (.inl (le_refl _))
  | task | timer | notified | closed | expired | publish => cases ha

/-! ### The task -/

theorem Locked.leave (h : Locked s) (hlock : s'.lock = s.lock) (hworker : s'.worker = s.worker)
    (htask : ∀ idle, s.task ≠ .publishing idle) : Locked s' where
  worker x hx hof := hworker.trans (h.worker x (hlock ▸ hx) hof)
  task x hx hof := by
    obtain ⟨idle, hidle⟩ := h.task x (hlock ▸ hx) hof
    exact absurd hidle (htask idle)
  options x hx hof := h.options x (hlock ▸ hx) hof

theorem task_cases (e : Endpoint) {a : Action} (ha : a.ofTask = true) :
    s.step B e a = s ∨ s.step B e a = s.tick B ∨ s.step B e a = s.publish ∨
    ((∃ idle delay timer armed, s.task = .waiting idle delay timer armed) ∧
      ∃ wakeup, s.step B e a = s.wake wakeup) ∨
    (∃ quiet, s.task = .receive quiet) ∧
      s.step B e a = { s with connected := false }.goOn .ended := by
  cases a with
  | task => exact .inr (.inl rfl)
  | timer =>
    rw [show s.step B e .timer = s.timer from rfl]
    unfold State.timer
    split
    · next htask =>
      split_ifs
      · exact .inr (.inr (.inr (.inl ⟨⟨_, _, _, _, htask⟩, _, rfl⟩)))
      · exact .inl rfl
    · exact .inl rfl
  | notified =>
    rw [show s.step B e .notified = s.notified from rfl]
    unfold State.notified
    split
    · next htask =>
      split_ifs
      · exact .inr (.inr (.inr (.inl ⟨⟨_, _, _, _, htask⟩, _, rfl⟩)))
      · exact .inl rfl
    · exact .inl rfl
  | closed =>
    rw [show s.step B e .closed = s.closed from rfl]
    unfold State.closed
    split
    · next htask =>
      split_ifs
      · exact .inl rfl
      · exact .inr (.inr (.inr (.inl ⟨⟨_, _, _, _, htask⟩, _, rfl⟩)))
    · exact .inl rfl
  | expired =>
    rw [show s.step B e .expired = s.expired from rfl]
    unfold State.expired
    split
    · next htask =>
      split_ifs
      · exact .inr (.inr (.inr (.inr ⟨⟨_, htask⟩, rfl⟩)))
      · exact .inl rfl
    · exact .inl rfl
  | publish => exact .inr (.inr (.inl rfl))
  | _ => cases ha

/-! ### Everyone is done -/

/-- Nobody is between a change of a queue and what comes after it. -/
def State.atRest (s : State ν) : Bool :=
  s.callers.isEmpty && s.lock.isNone && (s.worker == .free || s.worker == .ended)

theorem pending_of_attended (hrest : s.atRest = true) (hopen : s.connected = true)
    (h : s.attended = true) : pending s.wakeup = true := by
  simp only [State.atRest, Bool.and_eq_true, Bool.or_eq_true, List.isEmpty_iff,
    Option.isNone_iff_eq_none, beq_iff_eq] at hrest
  obtain ⟨⟨hcallers, hlock⟩, hworker | hworker⟩ := hrest
  all_goals simpa [State.attended, State.alarmed, hopen, hcallers, hlock, hworker, Worker.notifies,
    Worker.checks] using h

/-! ### The task and the clock -/

/-- A condition on the clock and the task that each access of the task keeps. The others let time
pass, let the task leave its section, wake it or end it. -/
structure Phase.Kept (ν : Type) [Notification ν] (B : Build) (P : ℤ → Phase → Prop) : Prop where
  mono : ∀ {clock clock' : ℤ} {task : Phase}, P clock task → clock ≤ clock' → P clock' task
  published : ∀ {clock : ℤ} {task : Phase}, P clock task → P clock task.published
  woken : ∀ clock, P clock .woken
  ended : ∀ clock, P clock .ended
  tick : ∀ {s : State ν}, P s.clock s.task → P (s.tick B).clock (s.tick B).task

theorem Phase.Kept.step {P : ℤ → Phase → Prop} (h : Phase.Kept ν B P) (e : Endpoint) (a : Action)
    (hs : P s.clock s.task) : P (s.step B e a).clock (s.step B e a).task := by
  cases ha : a.ofTask with
  | false =>
    have haside : Aside B s (s.step B e a) := aside_step e ha
    rw [haside.task]
    exact h.mono hs haside.clock
  | true =>
    rcases task_cases (s := s) (B := B) e ha with heq | heq | heq | ⟨-, _, heq⟩ | ⟨-, heq⟩
    · rwa [heq]
    · rw [heq]
      exact h.tick hs
    · rw [heq]
      rcases publish_cases s with heq |
        ⟨owner, next, hlock, wakeup, deadline, driven, ⟨_, heq⟩ | heq⟩
      · rwa [heq]
      · rw [heq]
        exact hs
      · rw [heq]
        cases owner
        · exact h.published hs
        all_goals exact hs
    · rw [heq]
      exact h.woken _
    · rw [heq]
      exact h.ended _

theorem Phase.Kept.run {P : ℤ → Phase → Prop} (h : Phase.Kept ν B P) (hstart : P 0 (.top false))
    (e : Endpoint) (mtu : Fin 65536) (request : Option Bytes) (actions : List Action) :
    P (runConnection ν B e mtu request actions).clock
      (runConnection ν B e mtu request actions).task :=
  Machine.run_invariant (I := fun s : State ν => P s.clock s.task) hstart
    (fun _ a hs => h.step e a hs) actions

end keeps

end RustRaknet.Maintenance
