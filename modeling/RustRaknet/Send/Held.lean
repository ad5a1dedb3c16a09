import RustRaknet.Send.Refinement

/-! # The frames a send queue holds

The frames of the queue as they were inserted, as multisets: those it holds (`Ledger.held`) and
those that have left it (`Ledger.gone`). `Effect` sums a move of the ledger up: it accepts the
frames of a message, moves frames about, emits an unreliable frame or retires a frame in flight. The
conservation of frames and the accounting of the budget are proved from it. -/

namespace RustRaknet.Send

open RustRaknet.Frame

/-- Frames as they were inserted. -/
def bodies (l : List QueuedFrame) : Multiset QueuedFrame := (l.map QueuedFrame.body : List _)

@[simp] theorem bodies_nil : bodies [] = 0 := rfl

@[simp] theorem bodies_cons (f : QueuedFrame) (l : List QueuedFrame) :
    bodies (f :: l) = {f.body} + bodies l := rfl

@[simp] theorem bodies_append (l l' : List QueuedFrame) :
    bodies (l ++ l') = bodies l + bodies l' := by simp [bodies]

theorem bodies_perm {l l' : List QueuedFrame} (h : l.Perm l') : bodies l = bodies l' :=
  Multiset.coe_eq_coe.mpr (h.map _)

theorem bodies_congr {α : Type*} {l : List α} {f g : α → QueuedFrame}
    (h : ∀ a, (f a).body = (g a).body) : bodies (l.map f) = bodies (l.map g) := by
  simp [bodies, Function.comp_def, h]

theorem mem_bodies {l : List QueuedFrame} {b : QueuedFrame} :
    b ∈ bodies l ↔ ∃ f ∈ l, f.body = b := by
  simp [bodies]

namespace Ledger

/-- The frames that wait or are in flight. -/
def held (L : Ledger) : Multiset QueuedFrame :=
  bodies L.packets + bodies (L.flight.map InFlight.packet) + bodies L.unreliable

/-- The frames that were acknowledged or, if unreliable, emitted. -/
def gone (L : Ledger) : Multiset QueuedFrame :=
  bodies (L.retired.map Retired.packet) + bodies L.emitted

theorem bodies_framesOf (L : Ledger) (m : Message) :
    bodies (L.framesOf m) = (L.framesOf m : Multiset QueuedFrame) := by
  unfold bodies framesOf Message.frames
  split_ifs
  · rw [List.map_map]
    rfl
  · rfl

/-- A counter of the unreliable frames is below a frame it should count. -/
def Miscounted (L : Ledger) : Prop :=
  (L.queuedUnreliable = 0 ∧ ∃ f ∈ L.packets, f.isReliable = false) ∨
    ∃ f ∈ L.unreliable, L.unreliableBytes < charge f

/-- What a move does to the frames and to the budget. -/
inductive Effect (L L' : Ledger) : Prop
  | stay (held : L'.held = L.held) (gone : L'.gone = L.gone) (log : L'.log = L.log)
      (bytes : L'.bufferedBytes = L.bufferedBytes) (remaining : L'.remaining = L.remaining)
      (fault : L'.fault = L.fault)
  | accept (m : Message) (admits : L.Admits m) (held : L'.held = L.held + bodies (L.framesOf m))
      (gone : L'.gone = L.gone) (log : L'.log = L.log ++ [m])
      (bytes : L'.bufferedBytes = L.bufferedBytes + m.cost L.limit)
      (remaining : L'.remaining = if m.Fragmented L.limit then
        Function.update L.remaining L.log.length (m.count L.limit) else L.remaining)
      (fault : L'.fault = L.fault)
  | emit (f : QueuedFrame) (unreliable : f.isReliable = false) (held : L.held = {f.body} + L'.held)
      (gone : L'.gone = {f.body} + L.gone) (log : L'.log = L.log)
      (bytes : L'.bufferedBytes = L.bufferedBytes - charge f)
      (remaining : L'.remaining = L.remaining)
      (fault : L'.fault = true → L.fault = true ∨ L.bufferedBytes < charge f ∨ L.Miscounted)
  | retire (f : QueuedFrame) (held : L.held = {f.body} + L'.held)
      (gone : L'.gone = {f.body} + L.gone) (log : L'.log = L.log)
      (bytes : L'.bufferedBytes =
        L.bufferedBytes - (SendQ.releasedPayload L.remaining f + frameBudget))
      (remaining : L'.remaining = SendQ.countDown L.remaining f)
      (fault : L'.fault = (L.fault || SendQ.exhausted L.remaining f ||
        decide (L.bufferedBytes < SendQ.releasedPayload L.remaining f + frameBudget)))

/-- The scheduler holds unreliable frames only, and holds none before it is made. -/
structure Lanes (L : Ledger) : Prop where
  unreliable : ∀ f ∈ L.unreliable, f.isReliable = false
  unscheduled : L.scheduled = false → L.unreliable = []

theorem Lanes.step {L L' : Ledger} (hstep : Step L L') (h : L.Lanes) : L'.Lanes := by
  cases hstep with
  | acceptScheduled _ hr hs =>
    refine ⟨fun f hf => ?_, fun hs' => absurd (hs.symm.trans hs') (by simp)⟩
    rcases List.mem_append.mp hf with hf | hf
    · exact h.unreliable f hf
    · exact (frames_isReliable hf).trans hr
  | migrate => exact ⟨fun f hf => by simpa using (List.mem_filter.mp hf).2, fun hs => by cases hs⟩
  | emitScheduled hp =>
    exact ⟨fun f hf => h.unreliable f (hp ▸ List.mem_cons_of_mem _ hf), fun hs => by
      rw [h.unscheduled hs] at hp
      cases hp⟩
  | _ => exact ⟨h.unreliable, h.unscheduled⟩

theorem bodies_set {flight : List InFlight} {i : ℕ} {p : InFlight} (p' : InFlight)
    (h : flight[i]? = some p) (hbody : p'.packet.body = p.packet.body) :
    bodies ((flight.set i p').map InFlight.packet) = bodies (flight.map InFlight.packet) := by
  obtain ⟨l₁, l₂, hl, hset, -⟩ := split_at h
  rw [hset, hl]
  simp [hbody]

theorem not_fragmented {m : Message} {limit : ℕ} (h : m.reliability.isReliable = false) :
    ¬ m.Fragmented limit := by
  rintro ⟨hm, -⟩
  rw [hm] at h
  cases h

/-- **Every move has one of the effects.** -/
theorem Step.effect {L L' : Ledger} (hstep : Step L L') (hlanes : L.Lanes) : Effect L L' := by
  cases hstep with
  | acceptReliable hadm hr =>
    refine .accept _ hadm ?_ rfl rfl rfl rfl rfl
    simp only [held, book, bodies_append]
    abel
  | acceptUnreliable hadm hr | acceptScheduled hadm hr =>
    refine .accept _ hadm ?_ rfl rfl rfl (if_neg (not_fragmented hr)).symm rfl
    simp only [held, book, bodies_append]
    abel
  | acceptNumbered hadm hr =>
    refine .accept _ hadm ?_ rfl rfl rfl (if_neg (not_fragmented hr)).symm rfl
    have hfresh : ∀ l : List QueuedFrame, bodies (l.map L.fresh) = bodies l := fun l => by
      simp [bodies, Function.comp_def, fresh]
    simp only [held, book, bodies_append, hfresh]
    abel
  | migrate hs =>
    refine .stay ?_ rfl rfl rfl rfl rfl
    have hsplit := bodies_perm (List.filter_append_perm QueuedFrame.isReliable L.packets)
    rw [bodies_append] at hsplit
    simp only [held, hlanes.unscheduled hs, bodies_nil, ← hsplit]
    abel
  | renumber hp hsent =>
    refine .stay ?_ rfl rfl rfl rfl rfl
    simp only [held]
    rw [bodies_set (L.renumbered _) hp rfl]
  | burst | ungroup => exact .stay rfl rfl rfl rfl rfl rfl
  | resend hp hsent =>
    refine .stay ?_ rfl rfl rfl rfl rfl
    simp only [held]
    rw [bodies_set _ hp (by rfl)]
  | launch hp | join hp =>
    refine .stay ?_ rfl rfl rfl rfl rfl
    simp only [held, hp, List.map_append, List.map_cons, List.map_nil, bodies_append, bodies_cons,
      bodies_nil, entry, fresh, body_numbered]
    abel
  | @emit f rest hp hf =>
    refine .emit f hf ?_ ?_ rfl rfl rfl fun hfault => ?_
    · simp only [held, hp, bodies_cons, refund]
      abel
    · simp only [gone, bodies_append, bodies_cons, bodies_nil, fresh, body_numbered, refund]
      abel
    · simp only [refund, Bool.or_eq_true, decide_eq_true_eq] at hfault
      rcases hfault with (hfault | hfault) | hfault
      · exact .inl hfault
      · exact .inr (.inl hfault)
      · exact .inr (.inr (.inl ⟨hfault, f, by simp [hp], hf⟩))
  | @emitScheduled f rest hp =>
    refine .emit f (hlanes.unreliable f (by simp [hp])) ?_ ?_ rfl rfl rfl fun hfault => ?_
    · simp only [held, hp, bodies_cons, refund]
      abel
    · simp only [gone, bodies_append, bodies_cons, bodies_nil, fresh, body_numbered, refund]
      abel
    · simp only [refund, Bool.or_eq_true, decide_eq_true_eq] at hfault
      rcases hfault with (hfault | hfault) | hfault
      · exact .inl hfault
      · exact .inr (.inl hfault)
      · exact .inr (.inr (.inr ⟨f, by simp [hp], hfault⟩))
  | rotate hp =>
    refine .stay ?_ rfl rfl rfl rfl rfl
    simp only [held, hp, bodies_append, bodies_cons, bodies_nil]
    abel
  | @retire i p id hp hid =>
    obtain ⟨l₁, l₂, hl, -, herase⟩ := split_at hp
    refine .retire p.packet ?_ ?_ rfl rfl rfl rfl
    · simp only [held, retireAt, release, herase]
      rw [hl]
      simp only [List.map_append, List.map_cons, bodies_append, bodies_cons]
      abel
    · simp only [gone, retireAt, release, List.map_append, List.map_cons, List.map_nil,
        bodies_append, bodies_cons, bodies_nil]
      abel
  | sort hperm =>
    refine .stay ?_ rfl rfl rfl rfl rfl
    simp only [held, bodies_perm (hperm.map InFlight.packet)]
  | probe hout hflight hperm =>
    refine .stay ?_ rfl rfl rfl rfl rfl
    have hpackets := bodies_perm (hperm.map InFlight.packet)
    rw [List.map_map] at hpackets
    have hflight' := hpackets.trans
      (bodies_congr (l := L.flight) (g := InFlight.packet) fun p => by rfl)
    simp only [held, hflight']

theorem Step.limit_eq {L L' : Ledger} (hstep : Step L L') : L'.limit = L.limit := by
  cases hstep <;> rfl

end Ledger

end RustRaknet.Send
