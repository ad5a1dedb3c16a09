import RustRaknet.Send.RefineFeedback
import RustRaknet.Send.Turns

/-! # The send queue follows its ledger: flush

A burst is filled by moves of the ledger, one for every turn of the loops. `Burst.ledger` is the
ledger half way through a flush, and `BurstWf` adds to `Wf` that the group that new frames may join
is the datagram of the last frame of the burst.

A tail probe gives the whole flight one new number before any of its frames is sent again, so a
flush with a probe is not a sequence of single moves. It is the one move `probe`; the module after
this one shows it. -/

namespace RustRaknet.Send

open RustRaknet.Frame RustRaknet.Sequence Ledger

variable {B : Build}

/-! ### Timeouts -/

theorem tickRule_moves : TickRule (Moves B) where
  toNackRule := nackRule_moves
  clock _ _ := .silent (fun hw => { hw with }) fun _ _ _ => rfl
  dropProbe q := by
    refine .silent (fun hw => { hw with probePacked := ?_ }) fun _ _ _ => rfl
    intro r hr
    obtain ⟨r', hr', rfl⟩ := Option.map_eq_some_iff.mp hr
    exact hw.probePacked r' hr'

theorem resetRecovery_moves (q : SendQ) (tick : ℤ) : Moves B q (q.resetRecovery tick) := by
  unfold SendQ.resetRecovery
  split_ifs
  · refine .silent (fun hw => { hw with probePacked := ?_ }) fun _ _ _ => rfl
    intro r hr
    cases hq : q.recovery with
    | none => simp [hq] at hr
    | some r' =>
      simp only [hq] at hr
      split_ifs at hr
      cases hr
      exact hw.probePacked r' hq
  · exact .refl q

theorem sortFlight_moves (q : SendQ) : Moves B q (q.sortFlight B) := by
  unfold SendQ.sortFlight
  split_ifs
  · intro hw
    have hperm := B.sort_perm q.sentPacket
    refine ⟨{ hw with reliable := fun p hp => hw.reliable p (hperm.mem_iff.mp hp), room := ?_ },
      fun o e t => ?_⟩
    · rintro (h | h)
      · exact hw.room (.inl h)
      · exact hw.room (.inr fun h0 => h (List.perm_nil.mp (h0 ▸ hperm)))
    · exact steps_of_eq (Step.sort (L := q.ledger o e t) (hperm.map InFlight.timeless)) rfl
  · exact .refl q

theorem takeProbe_moves (q : SendQ) : Moves B q q.takeProbe := by
  refine .silent (fun hw => { hw with probePacked := ?_ }) fun _ _ _ => rfl
  intro r hr
  obtain ⟨r', -, rfl⟩ := Option.map_eq_some_iff.mp hr
  rfl

/-! ### Bursts -/

/-- The ledger half way through a burst. -/
def Burst.ledger (s : Burst) (e : List QueuedFrame) (t : List Retired) : Ledger :=
  s.queue.ledger s.output (e ++ s.output.frames.filter fun f => !f.isReliable) t

/-- What the loops of a flush keep. -/
structure BurstWf (B : Build) (s : Burst) : Prop where
  wf : Wf B s.queue
  grouped : s.queue.coalesce = true → ∀ x, s.group.sequence = some x →
    ∃ g, s.output.frames.getLast? = some g ∧ g.frame.sequenceNumber = x ∧
      g.datagram = s.group.datagram

/-- Going from `s` to `s'` is a sequence of moves of the ledger. -/
def BurstMoves (B : Build) (s s' : Burst) : Prop :=
  BurstWf B s → BurstWf B s' ∧ ∀ e t, Steps (s.ledger e t) (s'.ledger e t)

theorem BurstMoves.refl (s : Burst) : BurstMoves B s s := fun h => ⟨h, fun _ _ => .refl⟩

theorem BurstMoves.trans {s s' s'' : Burst} (h : BurstMoves B s s') (h' : BurstMoves B s' s'') :
    BurstMoves B s s'' := by
  intro hw
  obtain ⟨hw', hs⟩ := h hw
  obtain ⟨hw'', hs'⟩ := h' hw'
  exact ⟨hw'', fun e t => (hs e t).trans (hs' e t)⟩

theorem resend_ledger {s : Burst} {p : InFlight} (probeSequence : Option ℕ) (tick : ℤ) (i : ℕ)
    (hp : p.packet.isReliable = true) (e : List QueuedFrame) (t : List Retired) :
    (s.resend probeSequence tick i p).closeGroup.ledger e t = { s.ledger e t with
      flight := (s.ledger e t).flight.set i { p.timeless with sent := true }
      outbox := (s.ledger e t).outbox ++ [p.packet] } := by
  simp [Burst.ledger, Run.ledger, Burst.closeGroup, Burst.resend, OutgoingFrames.push,
    List.map_set, InFlight.timeless, List.filter_append, hp]

/-- A frame that waits is sent again. The next frame does not join it. -/
theorem resend_moves {s : Burst} {i : ℕ} {p : InFlight} (probeSequence : Option ℕ) (tick : ℤ)
    (h : s.queue.sentPacket[i]? = some p) (hp : p.sent = false) :
    BurstMoves B s (s.resend probeSequence tick i p).closeGroup := by
  rintro ⟨hw, -⟩
  have hrel : p.packet.isReliable = true := hw.reliable p (List.mem_of_getElem? h)
  refine ⟨⟨{ hw with reliable := fun p' hp' => ?_, room := ?_ },
    fun _ x hx => by cases hx⟩, fun e t => ?_⟩
  · rcases List.mem_or_eq_of_mem_set hp' with hp' | rfl
    · exact hw.reliable p' hp'
    · exact hrel
  · rintro (h' | h')
    · exact hw.room (.inl h')
    · exact hw.room (.inr (List.ne_nil_of_mem (List.mem_of_getElem? h)))
  · refine steps_of_eq (Step.resend (i := i) (p := p.timeless) ?_ hp) ?_
    · simp [Burst.ledger, Run.ledger, h]
    · rw [resend_ledger probeSequence tick i hrel]
      simp

theorem Wf.pop {q : SendQ} (hw : Wf B q) {f : QueuedFrame} {rest : List QueuedFrame}
    (h : q.packets = f :: rest) : 60 < (q.mtu : ℕ) ∧ ∀ s, q.scheduler = some s →
      B.sendPolicy = true ∧ s.persistent = true ∧ s.nextLane < 3 ∧
        (∀ f ∈ s.unreliable, f.isReliable = false) ∧ ∀ f ∈ rest, f.isReliable = true := by
  refine ⟨hw.room (.inl (by simp [h])), fun s hs => ?_⟩
  obtain ⟨hB, hpersistent, hlane, hunreliable, hpackets⟩ := hw.scheduled s hs
  exact ⟨hB, hpersistent, hlane, hunreliable, fun f hf => hpackets f (by simp [h, hf])⟩

/-- A reliable frame is sent in a datagram of its own. -/
theorem start_moves {s : Burst} {f : QueuedFrame} {rest : List QueuedFrame} (packable : Bool)
    (tick : ℤ) (h : s.queue.packets = f :: rest) (hf : f.isReliable = true) :
    BurstMoves B s
      (((s.pop rest).start packable f).2.launch tick ((s.pop rest).start packable f).1) := by
  rintro ⟨hw, -⟩
  obtain ⟨hmtu, hsched⟩ := hw.pop h
  refine ⟨⟨⟨hw.indexed, ?_, ?_, hsched, fun _ => hmtu, hw.probePacked⟩, fun _ x hx => ?_⟩,
    fun e t => ?_⟩
  · simp [Burst.launch, Burst.start, Burst.fresh, Burst.pop, Burst.setGroup, SendQ.allocate,
      hw.numbered]
  · intro p hp
    obtain hp | rfl := Lib.mem_snoc.mp hp
    · exact hw.reliable p hp
    · exact hf
  · simp only [Burst.launch, Burst.start, Burst.setGroup] at hx
    split_ifs at hx
    cases hx
    exact ⟨_, List.getLast?_concat, rfl, rfl⟩
  · refine steps_of_eq (Step.launch (f := f) h hf) ?_
    simp [Burst.ledger, Run.ledger, Burst.launch, Burst.start, Burst.fresh, Burst.pop,
      Burst.setGroup, SendQ.allocate, OutgoingFrames.push, Ledger.fresh, Ledger.entry,
      InFlight.timeless, hf, hw.numbered]

/-- A reliable frame joins the datagram before it. -/
theorem join_moves {s : Burst} {f : QueuedFrame} {rest : List QueuedFrame} {x : ℕ} (tick : ℤ)
    (h : s.queue.packets = f :: rest) (hf : f.isReliable = true) (hx : s.group.sequence = some x)
    (hcoalesce : s.queue.coalesce = true) :
    BurstMoves B s (((s.pop rest).join x f).2.launch tick ((s.pop rest).join x f).1) := by
  rintro ⟨hw, hgroup⟩
  obtain ⟨hmtu, hsched⟩ := hw.pop h
  obtain ⟨g, hg, hgx, hgd⟩ := hgroup hcoalesce x hx
  refine ⟨⟨⟨hw.indexed, hw.numbered, ?_, hsched, fun _ => hmtu, hw.probePacked⟩,
    fun _ y hy => ?_⟩, fun e t => ?_⟩
  · intro p hp
    obtain hp | rfl := Lib.mem_snoc.mp hp
    · exact hw.reliable p hp
    · exact hf
  · exact ⟨_, List.getLast?_concat, Option.some.inj (hx.symm.trans hy), rfl⟩
  · refine steps_of_eq (Step.join (f := f) (g := g) h hf hg) ?_
    simp [Burst.ledger, Run.ledger, Burst.launch, Burst.join, Burst.pop, OutgoingFrames.push,
      Ledger.entry, InFlight.timeless, hf, hgx, hgd]

theorem fresh_moves {s : Burst} {f : QueuedFrame} {rest : List QueuedFrame} (tick : ℤ)
    (h : s.queue.packets = f :: rest) (hf : f.isReliable = true)
    (hcoalesce : s.queue.coalesce = false) :
    BurstMoves B s (((s.pop rest).fresh f).2.launch tick ((s.pop rest).fresh f).1) := by
  intro hw
  obtain ⟨⟨hwf, -⟩, hsteps⟩ := start_moves false tick h hf hw
  refine ⟨⟨{ hwf with }, fun hc => ?_⟩, hsteps⟩
  exact absurd (hcoalesce.symm.trans hc) Bool.false_ne_true

/-- An unreliable frame of the queue is sent and forgotten. It gets a number of its own, and no frame
joins it. -/
theorem emit_moves {s : Burst} {f : QueuedFrame} {rest : List QueuedFrame} (group : Group)
    (h : s.queue.packets = f :: rest) (hf : f.isReliable = false)
    (hgroup : s.queue.coalesce = true → group.sequence = none) :
    BurstMoves B s ((((s.pop rest).fresh f).2.setGroup group).emit ((s.pop rest).fresh f).1) := by
  rintro ⟨hw, -⟩
  obtain ⟨hmtu, hsched⟩ := hw.pop h
  refine ⟨⟨⟨hw.indexed, ?_, hw.reliable, hsched, fun _ => hmtu, hw.probePacked⟩,
    fun hc x hx => ?_⟩, fun e t => ?_⟩
  · simp [Burst.emit, Burst.fresh, Burst.pop, Burst.setGroup, SendQ.allocate, hw.numbered]
  · cases (hgroup hc).symm.trans hx
  · refine steps_of_eq (Step.emit (f := f) h hf) ?_
    simp [Burst.ledger, Run.ledger, Burst.emit, Burst.fresh, Burst.pop, Burst.setGroup,
      SendQ.allocate, OutgoingFrames.push, Ledger.fresh, Ledger.refund, hf, hw.numbered]

theorem emitScheduled_moves {s : Burst} {scheduler : SendScheduler} {f : QueuedFrame}
    {rest : List QueuedFrame} (hs : s.queue.scheduler = some scheduler)
    (h : scheduler.unreliable = f :: rest) : BurstMoves B s (s.emitScheduled scheduler f rest) := by
  rintro ⟨hw, -⟩
  obtain ⟨hB, hpersistent, hlane, hunreliable, hpackets⟩ := hw.scheduled scheduler hs
  have hf : f.isReliable = false := hunreliable f (by simp [h])
  refine ⟨⟨{ hw with numbered := ?_, scheduled := ?_ }, fun _ x hx => by cases hx⟩,
    fun e t => ?_⟩
  · simp only [Burst.emitScheduled, hw.numbered, next_mod]
  · rintro s' ⟨⟩
    exact ⟨hB, hpersistent, hlane, fun g hg => hunreliable g (by simp [h, hg]), hpackets⟩
  · refine steps_of_eq (@Step.emitScheduled _ f rest ?_) ?_
    · simp [Burst.ledger, Run.ledger, hs, h]
    · simp [Burst.ledger, Run.ledger, Burst.emitScheduled, OutgoingFrames.push, Ledger.fresh,
        Ledger.refund, hf, hs, hw.numbered]

theorem rotate_moves {s : Burst} {f : QueuedFrame} {rest : List QueuedFrame}
    (h : s.queue.packets = f :: rest) (hf : f.isReliable = true) :
    BurstMoves B s (s.pop (rest ++ [f])) := by
  rintro ⟨hw, hgroup⟩
  obtain ⟨hmtu, hsched⟩ := hw.pop h
  refine ⟨⟨{ hw with scheduled := fun s' hs' => ?_, room := fun _ => hmtu }, hgroup⟩,
    fun e t => steps_of_eq (Step.rotate (f := f) h) rfl⟩
  obtain ⟨hB, hpersistent, hlane, hunreliable, hrest⟩ := hsched s' hs'
  refine ⟨hB, hpersistent, hlane, hunreliable, fun g hg => ?_⟩
  obtain hg | rfl := Lib.mem_snoc.mp hg
  · exact hrest g hg
  · exact hf

theorem turnTo_moves {s : Burst} {scheduler : SendScheduler} {lane : ℕ}
    (hs : s.queue.scheduler = some scheduler) (hlane : lane < 3) :
    BurstMoves B s (s.schedule { scheduler with nextLane := lane }) := by
  rintro ⟨hw, hgroup⟩
  refine ⟨⟨{ hw with scheduled := ?_ }, hgroup⟩, fun e t => ?_⟩
  · rintro s' ⟨⟩
    obtain ⟨hB, hpersistent, -, hpackets⟩ := hw.scheduled scheduler hs
    exact ⟨hB, hpersistent, hlane, hpackets⟩
  · have hledger : (s.schedule { scheduler with nextLane := lane }).ledger e t = s.ledger e t := by
      simp [Burst.ledger, Run.ledger, Burst.schedule, SendQ.schedule, hs]
    rw [hledger]

theorem clearRetries_moves (s : Burst) :
    BurstMoves B s ⟨s.queue.clearRetries, s.output, s.group⟩ :=
  fun hw => ⟨⟨⟨hw.wf.indexed, hw.wf.numbered, hw.wf.reliable, hw.wf.scheduled, hw.wf.room,
    hw.wf.probePacked⟩, hw.grouped⟩, fun _ _ => .refl⟩

/-- **One turn of a flush is a sequence of moves.** Under a scheduler the frames of the queue are
reliable, so the lane of new frames does not have to look. -/
theorem Sends.moves {probeSequence : Option ℕ} {tick : ℤ} {s s' : Burst}
    (h : Sends probeSequence tick s s') : BurstMoves B s s' := by
  have hreliable : ∀ {f rest}, s.queue.packets = f :: rest →
      f.isReliable = true ∨ s.queue.scheduler.isSome = true → BurstWf B s →
      f.isReliable = true := fun {f rest} hp hf hw => by
    rcases hf with hf | hf
    · exact hf
    · obtain ⟨scheduler, hs⟩ := Option.isSome_iff_exists.mp hf
      exact (hw.wf.scheduled scheduler hs).2.2.2.2 f (by simp [hp])
  cases h with
  | resend h hp => exact resend_moves probeSequence tick h hp
  | start h hf hpackable => exact fun hw => start_moves _ tick h (hreliable h hf hw) hw
  | join h hf hx hcoalesce hpackable hframes hbytes =>
    exact fun hw => join_moves tick h (hreliable h hf hw) hx hcoalesce hw
  | fresh h hf hcoalesce => exact fresh_moves tick h hf hcoalesce
  | emit h hf hgroup => exact emit_moves _ h hf hgroup
  | emitScheduled hs h => exact emitScheduled_moves hs h
  | rotate h hf => exact rotate_moves h hf
  | turnTo hs hlane => exact turnTo_moves hs hlane
  | clear => exact clearRetries_moves s

theorem sends_moves {probeSequence : Option ℕ} {tick : ℤ} {s s' : Burst}
    (h : Relation.ReflTransGen (Sends probeSequence tick) s s') : BurstMoves B s s' := by
  induction h with
  | refl => exact .refl _
  | tail _ hstep ih => exact ih.trans hstep.moves

end RustRaknet.Send
