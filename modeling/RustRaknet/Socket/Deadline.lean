import RustRaknet.Socket.Wakeups

/-! # Deadlines

Under `recovery-policy` a connection may have its task wake up for the deadline of the send queue.
Whoever has flushed the queue stores its deadline, and then compares it with the time for which the
task has set its timer; the task announces that time, and then reads the deadline once more. So one
of the two sees what the other has written: either the timer is set to the deadline, or the task is
notified (`Timely`).

Messages that only wait bring no deadline forward, so `handle` and `close` do not publish; options
may, and their caller notifies the task. -/

namespace RustRaknet.Maintenance

open RustRaknet.Send RustRaknet.Reply RustRaknet.Lib
open RustRaknet.Lib.Notification (notifyOne enable registered ready pending)

/-- The task will flush the queue before it waits. -/
def Phase.refreshes : Phase → Bool
  | .woken => true
  | .mark _ => true
  | .receive _ => true
  | .flush _ _ => true
  | _ => false

/-- The owner has stored the deadline. -/
def Publish.stored : Publish → Bool
  | .compare _ => true
  | .notify => true
  | .last => true
  | _ => false

variable {ν : Type} [Notification ν]

/-- The task is notified of the deadline, or will be. -/
def State.Excused (s : State ν) : Prop :=
  s.alarmed = true ∨ ∃ owner deadline, s.lock = some ⟨owner, .compare deadline⟩ ∧ owner.wake = true

/-- The timer ends by the deadline, or in a millisecond. -/
def State.InTime (s : State ν) (delay now : ℤ) : Prop :=
  min i64Max (now + delay) ≤ max s.deadline (now + 1) ∨ s.Excused

/-- What the task has announced, and what it has found. -/
def State.Armed (s : State ν) : Phase → Prop
  | .reload _ delay now => min i64Max (now + delay) ≤ s.wakeAt
  | .restore _ delay now => min i64Max (now + delay) ≤ s.wakeAt ∧ s.InTime delay now
  | .select _ delay (some now) => min i64Max (now + delay) ≤ s.wakeAt ∧ s.InTime delay now
  | .waiting _ delay _ (some now) => min i64Max (now + delay) ≤ s.wakeAt ∧ s.InTime delay now
  | .select _ _ none => s.deadlineDriven = true → s.alarmed = true
  | .waiting _ _ _ none => s.deadlineDriven = true → s.alarmed = true
  | _ => True

/-- The deadline that is published and the timer that is set. -/
structure Timely (B : Build) (s : State ν) : Prop extends Locked s where
  listens : s.Listens B
  fresh : s.deadlineDriven = true → (∀ x, s.lock = some x → x.next.stored = true) →
    s.deadline ≤ s.send.queue.recoveryDeadline ∨ s.alarmed = true ∨ s.task.refreshes = true
  compared : ∀ owner deadline, s.lock = some ⟨owner, .compare deadline⟩ → s.deadline = deadline
  armed : s.Armed s.task

section timely

variable {B : Build} {s s' : State ν}

theorem State.Excused.of_aside (haside : Aside B s s') (h : s.Excused) : s'.Excused := by
  rcases h with h | ⟨owner, deadline, hlock, hwake⟩
  · exact .inl (haside.alarmed h)
  · rcases haside.lock with heq | hnone
    · exact .inr ⟨owner, deadline, heq.trans hlock, hwake⟩
    · rw [hnone.1] at hlock
      cases hlock

theorem State.Armed.of_inTime {task : Phase} (h : s.Armed task) (hwakeAt : s'.wakeAt = s.wakeAt)
    (htime : ∀ delay now, min i64Max (now + delay) ≤ s.wakeAt → s.InTime delay now →
      s'.InTime delay now)
    (hnone : (s.deadlineDriven = true → s.alarmed = true) →
      s'.deadlineDriven = true → s'.alarmed = true) : s'.Armed task := by
  have hsome : ∀ {delay now : ℤ}, min i64Max (now + delay) ≤ s.wakeAt ∧ s.InTime delay now →
      min i64Max (now + delay) ≤ s'.wakeAt ∧ s'.InTime delay now := fun h =>
    ⟨hwakeAt ▸ h.1, htime _ _ h.1 h.2⟩
  cases task with
  | reload idle delay now => exact le_of_le_of_eq h hwakeAt.symm
  | restore idle delay now => exact hsome h
  | select idle delay armed | waiting idle delay timer armed =>
    cases armed with
    | none => exact hnone h
    | some now => exact hsome h
  | _ => trivial

theorem State.Armed.published {task : Phase} (h : s.Armed task) : s.Armed task.published := by
  cases task <;> exact h

theorem State.Armed.alarm {task : Phase} (h : s.Armed task) (hwakeAt : s'.wakeAt = s.wakeAt)
    (halarmed : s'.alarmed = true) : s'.Armed task :=
  h.of_inTime hwakeAt (fun _ _ _ _ => .inr (.inl halarmed)) fun _ _ => halarmed

theorem begins_not_stored {next : Publish} (h : next.begins = true) : next.stored ≠ true := by
  cases next <;> simp_all [Publish.begins, Publish.stored]

theorem Timely.aside (hB : B.recoveryPolicy = true) (h : Timely B s) (haside : Aside B s s') :
    Timely B s' where
  toLocked := haside.locked h.toLocked
  listens := haside.listens h.listens
  fresh hdriven hstored := by
    rw [haside.deadlineDriven] at hdriven
    rcases haside.lock with hlock | ⟨-, x, hx, hbegins⟩
    · rcases haside.queue hB with hqueue | ⟨x, hx, hbegins⟩ | halarmed
      · rw [haside.deadline, haside.task]
        rcases h.fresh hdriven fun x hx => hstored x (hlock.trans hx) with hle | halarmed | hrefreshes
        · exact .inl (hle.trans hqueue)
        · exact .inr (.inl (haside.alarmed halarmed))
        · exact .inr (.inr hrefreshes)
      · exact absurd (hstored x hx) (begins_not_stored hbegins)
      · exact .inr (.inl halarmed)
    · exact absurd (hstored x hx) (begins_not_stored hbegins)
  compared owner deadline hcompare := by
    rcases haside.lock with hlock | ⟨-, x, hx, hbegins⟩
    · rw [haside.deadline]
      exact h.compared owner deadline (hlock ▸ hcompare)
    · rw [hcompare] at hx
      rw [← Option.some.inj hx] at hbegins
      cases hbegins
  armed := by
    rw [haside.task]
    refine h.armed.of_inTime haside.wakeAt (fun _ _ _ => ?_) fun hnone hd => ?_
    · unfold State.InTime
      rw [haside.deadline]
      exact .imp_right (.of_aside haside)
    · exact haside.alarmed (hnone (haside.deadlineDriven ▸ hd))

/-! ### The owner of the lock -/

theorem publish_frame (s : State ν) : s.publish.send = s.send ∧ s.publish.wakeAt = s.wakeAt ∧
    (s.publish.task = s.task ∨ s.publish.task = s.task.published) := by
  rcases publish_cases s with heq | ⟨owner, next, -, wakeup, deadline, driven, ⟨next', heq⟩ | heq⟩
  · rw [heq]
    exact ⟨rfl, rfl, .inl rfl⟩
  · rw [heq]
    exact ⟨rfl, rfl, .inl rfl⟩
  · rw [heq]
    cases owner
    · exact ⟨rfl, rfl, .inr rfl⟩
    all_goals exact ⟨rfl, rfl, .inl rfl⟩

/-- After `publish` the lock is free, or `set_recovery_options` notifies. -/
theorem lock_published (owner : Owner) :
    (s.published owner).lock = none ∨ (s.published owner).lock = some ⟨.options, .last⟩ := by
  unfold State.published
  split_ifs with h
  · exact .inr (by rw [h]; rfl)
  · exact .inl (by cases owner <;> rfl)

theorem deadline_published (owner : Owner) : (s.published owner).deadline = s.deadline ∧
    (s.published owner).deadlineDriven = s.deadlineDriven := by
  unfold State.published
  split_ifs
  · exact ⟨rfl, rfl⟩
  · cases owner <;> exact ⟨rfl, rfl⟩

theorem not_compare_published {owner owner' : Owner} {deadline : ℤ} :
    (s.published owner).lock ≠ some ⟨owner', .compare deadline⟩ := by
  intro hl
  rcases lock_published (s := s) owner with hn | hn
  · cases hn.symm.trans hl
  · cases hn.symm.trans hl

theorem wake_or_task (owner : Owner) : owner.wake = true ∨ owner = .task := by
  cases owner <;> first | exact .inr rfl | exact .inl rfl

/-- What an access of the owner leaves of the deadline. -/
structure Refreshed (s s' : State ν) : Prop where
  fresh : s'.deadlineDriven = true → (∀ x, s'.lock = some x → x.next.stored = true) →
    s'.deadline ≤ s.send.queue.recoveryDeadline ∨ s'.alarmed = true ∨ s.task.refreshes = true
  compared : ∀ owner deadline, s'.lock = some ⟨owner, .compare deadline⟩ → s'.deadline = deadline
  armed : s'.Armed s.task

theorem Timely.alarm (h : Timely B s) (hwakeAt : s'.wakeAt = s.wakeAt) (ha : s'.alarmed = true)
    (hcompare : ∀ owner deadline, s'.lock ≠ some ⟨owner, .compare deadline⟩) : Refreshed s s' where
  fresh _ _ := .inr (.inl ha)
  compared owner deadline hl := absurd hl (hcompare owner deadline)
  armed := h.armed.alarm hwakeAt ha

/-- The owner looks whether there are deadlines. -/
theorem Timely.driven (h : Timely B s) {owner : Owner} (hlock : s.lock = some ⟨owner, .driven⟩)
    (halarmed : s.alarmed = true → s.publish.alarmed = true)
    (hwakeAt : s.publish.wakeAt = s.wakeAt) : Refreshed s s.publish := by
  have heq : s.publish = if s.deadlineDriven then s.goto owner .store else s.published owner := by
    unfold State.publish
    rw [hlock]
  have hsame : s.publish.deadline = s.deadline ∧ s.publish.deadlineDriven = s.deadlineDriven := by
    rw [heq]
    split_ifs
    · exact ⟨rfl, rfl⟩
    · exact deadline_published owner
  refine ⟨fun hd hstored => ?_, fun owner' deadline hl => ?_,
    h.armed.of_inTime hwakeAt (fun _ _ _ => ?_) fun hn hd => halarmed (hn (hsame.2 ▸ hd))⟩
  · rw [hsame.2] at hd
    rw [heq, if_pos hd] at hstored
    cases hstored _ rfl
  · rw [heq] at hl
    split_ifs at hl
    · cases hl
    · exact absurd hl not_compare_published
  · unfold State.InTime
    rw [hsame.1]
    refine .imp_right ?_
    rintro (ha | ⟨owner', deadline, hl, -⟩)
    · exact .inl (halarmed ha)
    · cases hlock.symm.trans hl

/-- The owner stores the deadline: from here on it will compare it with the timer. -/
theorem Timely.store (h : Timely B s) {owner : Owner} (hlock : s.lock = some ⟨owner, .store⟩)
    (halarmed : s.alarmed = true → s.publish.alarmed = true)
    (hwakeAt : s.publish.wakeAt = s.wakeAt) : Refreshed s s.publish := by
  have heq : s.publish = { s with deadline := s.send.queue.recoveryDeadline }.goto owner
      (.compare s.send.queue.recoveryDeadline) := by
    unfold State.publish
    rw [hlock]
  refine ⟨fun _ _ => .inl (by rw [heq]; exact le_refl _), fun owner' deadline hl => ?_, ?_⟩
  · rw [heq] at hl ⊢
    cases hl
    rfl
  · rcases wake_or_task owner with hwake | howner
    · have hcompare : s.publish.lock = some ⟨owner, .compare s.send.queue.recoveryDeadline⟩ := by
        rw [heq]
        rfl
      refine h.armed.of_inTime hwakeAt (fun _ _ _ _ => .inr (.inr ⟨owner, _, hcompare, hwake⟩))
        fun hn hd => ?_
      rw [heq] at hd
      exact halarmed (hn hd)
    · obtain ⟨idle, hidle⟩ := h.task _ hlock howner
      rw [hidle]
      trivial

/-- The owner compares the deadline with the timer: it has found a timer that is too late, and will
notify the task, or one that is not. -/
theorem Timely.compare (h : Timely B s) {owner : Owner} {deadline : ℤ}
    (hlock : s.lock = some ⟨owner, .compare deadline⟩)
    (halarmed : s.alarmed = true → s.publish.alarmed = true)
    (hwakeAt : s.publish.wakeAt = s.wakeAt) : Refreshed s s.publish := by
  have heq : s.publish = if owner.wake && decide (deadline < s.wakeAt) then s.goto owner .notify
      else s.published owner := by
    unfold State.publish
    rw [hlock]
  by_cases hnotify : (owner.wake && decide (deadline < s.wakeAt)) = true
  · rw [if_pos hnotify] at heq
    refine h.alarm hwakeAt ?_ fun owner' deadline' hl => ?_
    · rw [heq]
      simp [State.alarmed, State.goto, Section.notifies]
    · rw [heq] at hl
      cases hl
  rw [if_neg hnotify] at heq
  have hsame : s.publish.deadline = s.deadline ∧ s.publish.deadlineDriven = s.deadlineDriven :=
    heq ▸ deadline_published owner
  refine ⟨fun hd _ => ?_, fun owner' deadline' hl => ?_, ?_⟩
  · rw [hsame.1]
    rcases h.fresh (hsame.2 ▸ hd) (by simp [hlock, Publish.stored]) with hle | ha | hr
    · exact .inl hle
    · exact .inr (.inl (halarmed ha))
    · exact .inr (.inr hr)
  · rw [heq] at hl
    exact absurd hl not_compare_published
  · rcases wake_or_task owner with hwake | howner
    · have hle : s.wakeAt ≤ s.publish.deadline := by
        rw [hsame.1, h.compared owner deadline hlock]
        simpa [hwake] using hnotify
      exact h.armed.of_inTime hwakeAt (fun _ _ hw _ => .inl (le_max_of_le_left (hw.trans hle)))
        fun hn hd => halarmed (hn (hsame.2 ▸ hd))
    · obtain ⟨idle, hidle⟩ := h.task _ hlock howner
      rw [hidle]
      trivial

theorem Timely.refreshed (h : Timely B s) : Refreshed s s.publish := by
  have halarmed : s.alarmed = true → s.publish.alarmed = true :=
    (Keeps.publish (B := B) h.worker).alarmed
  have hwakeAt := (publish_frame s).2.1
  have hoptions : ∀ {owner next}, s.lock = some ⟨owner, next⟩ → next.ofOptions = true →
      s.publish.alarmed = true := by
    intro owner next hlock hof
    obtain rfl : owner = .options := h.options _ hlock hof
    exact halarmed (by simp [State.alarmed, hlock, Section.notifies])
  rcases hlock : s.lock with _ | ⟨owner, next⟩
  · rw [show s.publish = s by unfold State.publish; rw [hlock]]
    exact { h with }
  cases next with
  | setDriven deadlines =>
    refine h.alarm hwakeAt (hoptions hlock rfl) fun owner' deadline hl => ?_
    unfold State.publish at hl
    rw [hlock] at hl
    cases deadlines <;> simp [State.goto] at hl
  | reset =>
    refine h.alarm hwakeAt (hoptions hlock rfl) fun owner' deadline hl => ?_
    unfold State.publish at hl
    rw [hlock] at hl
    cases hl
  | driven => exact h.driven hlock halarmed hwakeAt
  | store => exact h.store hlock halarmed hwakeAt
  | compare deadline => exact h.compare hlock halarmed hwakeAt
  | notify =>
    refine h.alarm hwakeAt (halarmed (by simp [State.alarmed, hlock, Section.notifies])) ?_
    rw [show s.publish = { s with wakeup := notifyOne s.wakeup }.published owner by
      unfold State.publish; rw [hlock]]
    exact fun _ _ => not_compare_published
  | last =>
    refine h.alarm hwakeAt (hoptions hlock rfl) fun owner' deadline hl => ?_
    unfold State.publish at hl
    rw [hlock] at hl
    cases owner <;> cases hl

theorem Timely.publish (h : Timely B s) : Timely B s.publish := by
  have hrefreshed := h.refreshed
  obtain ⟨hsend, -, htask⟩ := publish_frame s
  refine ⟨h.toLocked.publish, (Keeps.publish h.worker).listens h.listens, ?_, hrefreshed.compared, ?_⟩
  · have hsame : s.publish.task.refreshes = s.task.refreshes := by
      rcases htask with htask | htask
      · rw [htask]
      · rw [htask]
        cases s.task <;> rfl
    rw [hsend, hsame]
    exact hrefreshed.fresh
  · rcases htask with htask | htask
    · rw [htask]
      exact hrefreshed.armed
    · rw [htask]
      exact hrefreshed.armed.published

/-! ### The task -/

/-- The task goes on, and its future stays as ready. -/
theorem Timely.goOn (h : Timely B s) {wakeup : ν} {idle : Bool} {wakeAt : ℤ} {task : Phase}
    (htask : ∀ idle, s.task ≠ .publishing idle) (hpending : pending wakeup = pending s.wakeup)
    (hrefreshes : s.task.refreshes = true → task.refreshes = true)
    (hlistens : { s with wakeup, idle, wakeAt, task }.Listens B)
    (harmed : { s with wakeup, idle, wakeAt, task }.Armed task) :
    Timely B { s with wakeup, idle, wakeAt, task } where
  toLocked := h.toLocked.leave rfl rfl htask
  listens := hlistens
  fresh hd hstored := by
    rcases h.fresh hd hstored with hle | ha | hr
    · exact .inl hle
    · refine .inr (.inl ?_)
      simp only [State.alarmed, hpending] at ha ⊢
      exact ha
    · exact .inr (.inr (hrefreshes hr))
  compared := h.compared
  armed := harmed

/-- It goes on to something else than to wait, and the notification is as it was. -/
theorem Timely.onward (h : Timely B s) {idle : Bool} {wakeAt : ℤ} {task task' : Phase}
    (htask : s.task = task) (hmove : (∀ idle, task ≠ .publishing idle) ∧
      (task.refreshes = true → task'.refreshes = true) ∧ ∀ idle delay timer armed,
        task' ≠ .waiting idle delay timer armed)
    (harmed : { s with idle, wakeAt, task := task' }.Armed task') :
    Timely B { s with idle, wakeAt, task := task' } :=
  h.goOn (htask ▸ hmove.1) rfl (htask ▸ hmove.2.1) (fun _ _ _ _ hw _ => absurd hw (hmove.2.2 _ _ _ _))
    harmed

theorem Timely.ended (h : Timely B s) (htask : ∀ idle, s.task ≠ .publishing idle) {connected : Bool}
    (hclosed : connected = false) : Timely B ({ s with connected }.goOn .ended) :=
  ⟨h.toLocked.leave rfl rfl htask, fun _ _ _ _ hw => (by cases hw),
    fun _ _ => .inr (.inl (alarmed_of_closed hclosed)), h.compared, trivial⟩

theorem le_saturatingAdd (now delay : ℤ) : min i64Max (now + delay) ≤ saturatingAdd now delay :=
  le_max_right _ _

theorem inTime_remaining (delay now : ℤ) : s.InTime (min delay (s.remaining now)) now := by
  refine .inl ?_
  unfold State.remaining saturatingSub
  have hmax : (-9223372036854775808 : ℤ) < 1 := by decide
  omega

theorem State.Armed.of_pending {task : Phase} {wakeup : ν} (h : s.Armed task)
    (hpending : pending wakeup = pending s.wakeup) (task' : Phase) :
    { s with wakeup, task := task' }.Armed task := by
  have halarmed : s.alarmed = true → { s with wakeup, task := task' }.alarmed = true := by
    simp only [State.alarmed, hpending]
    exact id
  exact h.of_inTime rfl (fun _ _ _ => .imp_right (.imp_left halarmed)) fun hn hd => halarmed (hn hd)

theorem Timely.tick (hB : B.recoveryPolicy = true) (h : Timely B s) : Timely B (s.tick B) := by
  have harmed := h.armed
  unfold State.tick
  split
  · next htask =>
    simp only [if_pos hB]
    exact h.onward htask (by simp [Phase.refreshes]) trivial
  · next htask =>
    split_ifs with hdriven
    · exact h.onward htask (by simp [Phase.refreshes]) trivial
    · exact h.onward htask (by simp [Phase.refreshes]) fun hd => absurd hd hdriven
  · next htask =>
    exact h.goOn (by simp [htask]) (by simp) (by simp [htask, Phase.refreshes])
      (fun _ _ _ _ hw => by cases hw) trivial
  · next htask =>
    exact h.onward htask (by simp [Phase.refreshes]) trivial
  · next htask =>
    exact h.onward htask (by simp [Phase.refreshes]) trivial
  · next idle delay now htask =>
    exact h.onward htask (by simp [Phase.refreshes]) (le_saturatingAdd now delay)
  · next idle delay now htask =>
    rw [htask] at harmed
    refine h.onward htask (by simp [Phase.refreshes]) ⟨?_, inTime_remaining delay now⟩
    exact (min_le_min_left _ (add_le_add_right (min_le_left _ _) now)).trans harmed
  · next idle delay now htask =>
    rw [htask] at harmed
    exact h.onward htask (by simp [Phase.refreshes]) ⟨le_saturatingAdd now delay, harmed.2⟩
  · next idle delay armed htask =>
    rw [htask] at harmed
    have hpending : pending (if B.recoveryPolicy || idle then enable s.wakeup else s.wakeup) =
        pending s.wakeup := by
      split_ifs <;> simp
    refine h.goOn (by simp [htask]) hpending (by simp [htask, Phase.refreshes]) ?_ ?_
    · intro idle' delay' timer armed' _ _
      show registered (if _ then _ else _ : ν) = true
      rw [if_pos (by simp [hB])]
      exact Notification.registered_enable _
    · refine State.Armed.of_pending ?_ hpending _
      cases armed <;> exact harmed
  · exact h
  · next htask =>
    exact h.onward htask (by simp [Phase.refreshes]) trivial
  · next htask =>
    exact h.onward htask (by simp [Phase.refreshes]) trivial
  · next htask =>
    split_ifs
    · exact ⟨h.toLocked.leave rfl rfl (by simp [htask]), fun _ _ _ _ hw => (by cases hw),
        fun _ _ => .inr (.inr rfl), h.compared, trivial⟩
    · exact h
  · split_ifs
    · unfold State.enter
      rw [if_pos hB]
      refine ⟨.goto (fun hw => by cases hw) (fun _ => ⟨_, rfl⟩) (fun hof => by cases hof),
        fun _ _ _ _ hw => (by cases hw), fun _ hstored => ?_, fun _ _ hl => (by cases hl), trivial⟩
      cases hstored _ rfl
    · exact h
  · exact h
  · next htask =>
    exact h.onward htask (by simp [Phase.refreshes]) trivial
  · next htask =>
    split_ifs with _ hconnected
    · exact h.ended (by simp [htask]) rfl
    · exact h.onward htask (by simp [Phase.refreshes]) trivial
    · exact h.ended (by simp [htask]) (by simpa using hconnected)
  · exact h

theorem Timely.step (hB : B.recoveryPolicy = true) (h : Timely B s) (e : Endpoint) (a : Action) :
    Timely B (s.step B e a) := by
  cases ha : a.ofTask with
  | false => exact h.aside hB (aside_step e ha)
  | true =>
    rcases task_cases (s := s) (B := B) e ha with heq | heq | heq |
      ⟨⟨_, _, _, _, htask⟩, _, heq⟩ | ⟨⟨_, htask⟩, heq⟩
    · rwa [heq]
    · rw [heq]
      exact h.tick hB
    · rw [heq]
      exact h.publish
    · rw [heq]
      refine ⟨h.toLocked.leave rfl rfl (by simp [htask]), fun _ _ _ _ hw => (by cases hw),
        fun _ _ => .inr (.inr rfl), h.compared, trivial⟩
    · rw [heq]
      exact ⟨h.toLocked.leave rfl rfl (by simp [htask]), fun _ _ _ _ hw => (by cases hw),
        fun _ _ => .inr (.inl (alarmed_of_closed rfl)), h.compared, trivial⟩

end timely

theorem timely_run {B : Build} (hB : B.recoveryPolicy = true) (e : Endpoint) (mtu : Fin 65536)
    (request : Option Bytes) (actions : List Action) :
    Timely B (runConnection ν B e mtu request actions) := by
  refine Machine.run_invariant ?_ (fun _ a h => h.step hB e a) actions
  exact ⟨.of_none rfl, fun _ _ _ _ hw => (by cases hw), fun hd => (by cases hd),
    fun _ _ hl => (by cases hl), trivial⟩

/-! ### The timer -/

/-- The time the task has read for its delay, and the timer it has set: `sleep` reads the clock
again, some time later. -/
def Phase.Started (clock : ℤ) : Phase → Prop
  | .load _ _ now => now ≤ clock
  | .store _ _ now => now ≤ clock
  | .reload _ _ now => now ≤ clock
  | .restore _ _ now => now ≤ clock
  | .select _ _ (some now) => now ≤ clock
  | .waiting _ delay timer (some now) => now + delay ≤ timer ∧ timer ≤ clock + delay
  | _ => True

theorem Phase.Started.mono {task : Phase} {clock clock' : ℤ} (h : task.Started clock)
    (hclock : clock ≤ clock') : task.Started clock' := by
  unfold Phase.Started at h ⊢
  split at h
  all_goals first | exact h.trans hclock | exact trivial | exact ⟨h.1, by omega⟩

theorem started_tick {B : Build} {s : State ν} (h : s.task.Started s.clock) :
    (s.tick B).task.Started (s.tick B).clock := by
  unfold State.tick
  split
  · split_ifs <;> trivial
  · split_ifs <;> trivial
  · trivial
  · exact le_refl _
  · next htask =>
    rw [htask] at h
    exact h
  · next htask =>
    rw [htask] at h
    exact h
  · next htask =>
    rw [htask] at h
    exact h
  · next htask =>
    rw [htask] at h
    exact h
  · next idle delay armed htask =>
    rw [htask] at h
    cases armed with
    | none => trivial
    | some now => exact ⟨add_le_add_left h delay, le_refl _⟩
  · exact h
  · trivial
  · trivial
  · split_ifs
    · trivial
    · exact h
  · split_ifs
    · unfold State.enter
      split_ifs <;> trivial
    · exact h
  · exact h
  · trivial
  · split_ifs <;> trivial
  · exact h

theorem started_kept {B : Build} : Phase.Kept ν B Phase.Started where
  mono := .mono
  published {_ task} h := by cases task <;> exact h
  woken _ := trivial
  ended _ := trivial
  tick := started_tick

/-- A connection that follows deadlines sends a message; its task is woken by the options, 30 ms
later, and waits again. -/
def deadlineActions : List Action :=
  List.flatten [[.setRecoveryOptions { RecoveryOptions.default with deadlineDriven := true }],
    .replicate 6 .publish, [.payload ⟨.reliableOrdered, primaryChannel, [0xfe, 1], false⟩],
    .replicate 4 .publish, [.caller 0], .replicate 9 .task, [.elapse 30, .notified],
    .replicate 4 .task, .replicate 3 .publish, .replicate 11 .task]

end RustRaknet.Maintenance
