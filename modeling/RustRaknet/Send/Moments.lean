import RustRaknet.Send.Karn
import RustRaknet.Send.Timers

/-! # The clocks of the flight

The frames of one datagram that were never renumbered were sent at one time, and no frame on its way
was sent after the last flush (`Deck.Timed`): a number is given out in one flush, and a frame joins a
datagram of its own flush only.

Between two flushes no replay of a probe is under way (`probeReplay_run`). -/

namespace RustRaknet.Send

open RustRaknet.Frame RustRaknet.Lib.Machine RustRaknet.Lib.Result

/-! ### One datagram, one time -/

/-- What the clocks of a flight say when the last flush was at `now`. -/
structure Deck.Timed (now : ℤ) (D : Deck) : Prop where
  original : ∀ p ∈ D.flight, p.previous = [] → p.sent = true
  clock : ∀ p ∈ D.flight, p.sent = true → p.time ≤ now
  together : ∀ p ∈ D.flight, ∀ p' ∈ D.flight, p.previous = [] → p'.previous = [] →
    p.packet.datagram = p'.packet.datagram → p.time = p'.time
  numbered : ∀ p ∈ D.flight, p.packet.datagram < D.allocated

namespace Deck.Timed

variable {now now' : ℤ} {D D' : Deck}

theorem mono (h : D.Timed now) (hnow : now ≤ now') : D.Timed now' :=
  { h with clock := fun p hp hsent => (h.clock p hp hsent).trans hnow }

theorem subset (h : D.Timed now) (hsub : ∀ p ∈ D'.flight, p ∈ D.flight)
    (hallocated : D.allocated ≤ D'.allocated) : D'.Timed now :=
  ⟨fun p hp => h.original p (hsub p hp), fun p hp => h.clock p (hsub p hp),
    fun p hp p' hp' => h.together p (hsub p hp) p' (hsub p' hp'),
    fun p hp => (h.numbered p (hsub p hp)).trans_le hallocated⟩

/-- An entry is replaced by one that is not original. -/
theorem set (h : D.Timed now) {i : ℕ} {p : InFlight} (hflight : D'.flight = D.flight.set i p)
    (hprevious : p.previous ≠ []) (hclock : p.sent = true → p.time ≤ now)
    (hallocated : D.allocated ≤ D'.allocated) (hnumbered : p.packet.datagram < D'.allocated) :
    D'.Timed now := by
  have hcases : ∀ x ∈ D'.flight, x ∈ D.flight ∨ x = p := fun x hx =>
    List.mem_or_eq_of_mem_set (hflight ▸ hx)
  have hold : ∀ x ∈ D'.flight, x.previous = [] → x ∈ D.flight := by
    intro x hx hnil
    rcases hcases x hx with hx | rfl
    · exact hx
    · exact absurd hnil hprevious
  refine ⟨fun x hx hnil => h.original x (hold x hx hnil) hnil, fun x hx hsent => ?_,
    fun x hx x' hx' hnil hnil' => h.together x (hold x hx hnil) x' (hold x' hx' hnil') hnil hnil',
    fun x hx => ?_⟩
  · rcases hcases x hx with hx | rfl
    · exact h.clock x hx hsent
    · exact hclock hsent
  · rcases hcases x hx with hx | rfl
    · exact (h.numbered x hx).trans_le hallocated
    · exact hnumbered

/-- Between two bursts the clocks stay true. -/
theorem fates (h : D.Timed now) (hfates : Fates D D') : D'.Timed now := by
  induction hfates with
  | refl => exact h
  | tail _ hfate ih =>
    cases hfate with
    | reissue hi hp sequence time =>
      exact ih.set rfl (Traced.pushPrevious_ne_nil _ _) (fun hsent => by cases hsent)
        (Nat.le_succ _) (Nat.lt_succ_self _)
    | retire hsub => exact ih.subset (fun p hp => hsub.subset hp) le_rfl
    | ease =>
      refine ⟨fun p hp => ?_, fun p hp => ?_, fun p hp p' hp' => ?_, fun p hp => ?_⟩
      · obtain ⟨x, hx, rfl⟩ := List.mem_map.mp hp
        exact ih.original x hx
      · obtain ⟨x, hx, rfl⟩ := List.mem_map.mp hp
        exact ih.clock x hx
      · obtain ⟨x, hx, rfl⟩ := List.mem_map.mp hp
        obtain ⟨x', hx', rfl⟩ := List.mem_map.mp hp'
        exact ih.together x hx x' hx'
      · obtain ⟨x, hx, rfl⟩ := List.mem_map.mp hp
        exact ih.numbered x hx
    | skip => exact ih.subset (fun p hp => hp) (Nat.le_succ _)

theorem replay (now : ℤ) (D : Deck) (sequence : ℕ) : (D.replay sequence).Timed now := by
  have hnone : ∀ p ∈ (D.replay sequence).flight, p.previous ≠ [] ∧ p.sent = false ∧
      p.packet.datagram = D.allocated := by
    intro p hp
    obtain ⟨x, -, rfl⟩ := List.mem_map.mp hp
    exact ⟨Traced.pushPrevious_ne_nil _ _, rfl, rfl⟩
  refine ⟨fun p hp hnil => absurd hnil (hnone p hp).1, fun p hp hsent => ?_,
    fun p hp _ _ hnil => absurd hnil (hnone p hp).1, fun p hp => ?_⟩
  · rw [(hnone p hp).2.1] at hsent
    cases hsent
  · rw [(hnone p hp).2.2]
    exact Nat.lt_succ_self _

end Deck.Timed

/-- A burst at `tick` whose first number is `a`. -/
structure Timing (a : ℕ) (tick : ℤ) (s : Burst) : Prop where
  deck : s.queue.deck.Timed tick
  begun : a ≤ s.queue.allocated
  recent : ∀ p ∈ s.queue.sentPacket, p.previous = [] → a ≤ p.packet.datagram → p.time = tick
  group : s.queue.coalesce = true → ∀ x, s.group.sequence = some x →
    a ≤ s.group.datagram ∧ s.group.datagram < s.queue.allocated

namespace Timing

variable {a : ℕ} {tick : ℤ} {s s' : Burst}

theorem stay (h : Timing a tick s) (hflight : s'.queue.sentPacket = s.queue.sentPacket)
    (hallocated : s.queue.allocated ≤ s'.queue.allocated)
    (hgroup : s'.queue.coalesce = true → s'.group.sequence = none ∨
      (s'.group = s.group ∧ s.queue.coalesce = true)) : Timing a tick s' := by
  have hsub : ∀ p ∈ s'.queue.deck.flight, p ∈ s.queue.deck.flight := fun p hp => by
    rw [SendQ.deck, hflight] at hp
    exact hp
  refine ⟨h.deck.subset hsub hallocated, h.begun.trans hallocated, hflight ▸ h.recent,
    fun hcoalesce x hx => ?_⟩
  rcases hgroup hcoalesce with hnone | ⟨hsame, hold⟩
  · exact absurd (hnone.symm.trans hx) (by simp)
  · rw [hsame] at hx ⊢
    obtain ⟨hbegun, hlt⟩ := h.group hold x hx
    exact ⟨hbegun, hlt.trans_le hallocated⟩

/-- A frame enters the flight under a number of this burst. -/
theorem launch {g : QueuedFrame} (h : Timing a tick s)
    (hflight : s'.queue.sentPacket = s.queue.sentPacket ++ [⟨g, true, tick, 0, [], []⟩])
    (hallocated : s.queue.allocated ≤ s'.queue.allocated) (hbegun : a ≤ g.datagram)
    (hlt : g.datagram < s'.queue.allocated)
    (hgroup : s'.queue.coalesce = true → ∀ x, s'.group.sequence = some x →
      a ≤ s'.group.datagram ∧ s'.group.datagram < s'.queue.allocated) : Timing a tick s' := by
  have hcases : ∀ p ∈ s'.queue.sentPacket,
      p ∈ s.queue.sentPacket ∨ p = ⟨g, true, tick, 0, [], []⟩ := by
    intro p hp
    rw [hflight] at hp
    rcases List.mem_append.mp hp with hp | hp
    · exact .inl hp
    · exact .inr (List.mem_singleton.mp hp)
  have hrecent : ∀ p ∈ s'.queue.sentPacket, p.previous = [] → a ≤ p.packet.datagram →
      p.time = tick := by
    intro p hp hnil ha
    rcases hcases p hp with hp | rfl
    · exact h.recent p hp hnil ha
    · rfl
  refine ⟨⟨fun p hp hnil => ?_, fun p hp hsent => ?_, fun p hp p' hp' hnil hnil' he => ?_,
    fun p hp => ?_⟩, h.begun.trans hallocated, hrecent, hgroup⟩
  · rcases hcases p hp with hp | rfl
    · exact h.deck.original p hp hnil
    · rfl
  · rcases hcases p hp with hp | rfl
    · exact h.deck.clock p hp hsent
    · exact le_rfl
  · rcases hcases p hp with hold | rfl
    · rcases hcases p' hp' with hold' | rfl
      · exact h.deck.together p hold p' hold' hnil hnil' he
      · exact hrecent p hp hnil (he ▸ hbegun)
    · exact (hrecent p' hp' hnil' (he ▸ hbegun)).symm
  · rcases hcases p hp with hp | rfl
    · exact (h.deck.numbered p hp).trans_le hallocated
    · exact hlt

theorem resend (h : Timing a tick s) {i : ℕ} {p : InFlight} (hi : s.queue.sentPacket[i]? = some p)
    (hp : p.sent = false) (probeSequence : Option ℕ) :
    Timing a tick (s.resend probeSequence tick i p).closeGroup := by
  have hmem := List.mem_of_getElem? hi
  have hprevious : p.previous ≠ [] := fun hnil => by
    have := h.deck.original p hmem hnil
    rw [hp] at this
    cases this
  have hdeck : (s.resend probeSequence tick i p).closeGroup.queue.deck.Timed tick :=
    h.deck.set (i := i) (p := { p with sent := true, time := tick, retries := _ }) rfl hprevious
      (fun _ => le_rfl) le_rfl (h.deck.numbered p hmem)
  refine ⟨hdeck, h.begun, fun x hx hnil => ?_, fun _ x hx => by cases hx⟩
  rcases List.mem_or_eq_of_mem_set hx with hx | rfl
  · exact h.recent x hx hnil
  · exact absurd hnil hprevious

/-- **One turn of a burst** keeps the clocks true. -/
theorem sends {probeSequence : Option ℕ} (h : Timing a tick s)
    (hsends : Sends probeSequence tick s s') : Timing a tick s' := by
  cases hsends with
  | resend hi hp => exact h.resend hi hp probeSequence
  | @start f rest packable =>
    exact h.launch (g := f.numbered s.queue.sequenceNumber s.queue.allocated) rfl (Nat.le_succ _)
      h.begun (Nat.lt_succ_self _) fun _ _ _ => ⟨h.begun, Nat.lt_succ_self _⟩
  | @join f rest x hpackets hf hx hcoalesce =>
    obtain ⟨hbegun, hlt⟩ := h.group hcoalesce x hx
    exact h.launch (g := f.numbered x s.group.datagram) rfl le_rfl hbegun hlt
      fun _ _ _ => ⟨hbegun, hlt⟩
  | @fresh f rest hpackets hf hcoalesce =>
    refine h.launch (g := f.numbered s.queue.sequenceNumber s.queue.allocated) rfl (Nat.le_succ _)
      h.begun (Nat.lt_succ_self _) fun hc => ?_
    exact absurd (hcoalesce.symm.trans hc) (by simp)
  | emit hpackets hf hgroup => exact h.stay rfl (Nat.le_succ _) fun hc => .inl (hgroup hc)
  | emitScheduled hs hunreliable => exact h.stay rfl (Nat.le_succ _) fun _ => .inl rfl
  | rotate hpackets | turnTo hs hlane | clear => exact h.stay rfl le_rfl fun hc => .inr ⟨rfl, hc⟩

end Timing

section runs

variable {B : Build} {tick now : ℤ} {q : SendQ}

/-- The burst of a flush begins with true clocks. -/
theorem prepared_timing (h : q.deck.Timed now) (htick : now ≤ tick) :
    Timing (q.prepared B tick).allocated tick (q.prepared B tick).burst := by
  obtain ⟨D, hperm, hallocated, -, hfates⟩ := prepared_deck B q tick
  have hticked : D.Timed tick := by
    rcases hfates with hfates | ⟨rfl, -⟩
    · exact (h.mono htick).fates hfates
    · exact Deck.Timed.replay tick _ _
  have hsorted : (q.prepared B tick).deck.Timed tick :=
    hticked.subset (fun p hp => hperm.mem_iff.mp hp) hallocated.ge
  refine ⟨hsorted, le_rfl, fun p hp _ ha => ?_, fun _ x hx => by cases hx⟩
  exact absurd ha (not_le.mpr (hsorted.numbered p hp))

theorem Deck.Timed.flush (h : q.deck.Timed now) (htick : now ≤ tick) :
    (q.flush B tick).2.deck.Timed tick := by
  obtain ⟨s, hsends, retriesPending, scheduler, hresult, -⟩ := flush_sends B q tick
  have hend : Timing (q.prepared B tick).allocated tick s := by
    clear hresult
    induction hsends with
    | refl => exact prepared_timing h htick
    | tail _ hstep ih => exact ih.sends hstep
  rw [hresult]
  exact hend.deck.subset (fun p hp => hp) le_rfl

end runs

/-- The times of the flushes. -/
def flushTicks (ops : List Op) : List ℤ :=
  ops.filterMap fun op => match op with
    | .flush tick => some tick
    | _ => none

theorem flushTicks_append (ops ops' : List Op) :
    flushTicks (ops ++ ops') = flushTicks ops ++ flushTicks ops' := List.filterMap_append

theorem mem_flushTicks {ops : List Op} {tick : ℤ} : tick ∈ flushTicks ops ↔ .flush tick ∈ ops := by
  unfold flushTicks
  rw [List.mem_filterMap]
  refine ⟨fun ⟨op, hop, he⟩ => ?_, fun h => ⟨_, h, rfl⟩⟩
  cases op <;> simp_all

/-- **The clocks are true after every run** whose flushes do not go back in time. -/
theorem timed_run (B : Build) (mtu : Fin 65536) {ops : List Op} (now : ℤ)
    (hordered : (flushTicks ops).Pairwise (· ≤ ·)) (hnow : ∀ tick ∈ flushTicks ops, tick ≤ now) :
    (run B mtu ops).queue.deck.Timed now := by
  induction ops using List.reverseRecOn generalizing now with
  | nil =>
    refine ⟨fun p hp => ?_, fun p hp => ?_, fun p hp => ?_, fun p hp => ?_⟩ <;> cases hp
  | append_singleton ops op ih =>
    rw [flushTicks_append] at hordered hnow
    obtain ⟨hbefore, -, hlast⟩ := List.pairwise_append.mp hordered
    rw [run_append]
    by_cases hop : ∃ tick, op = .flush tick
    · obtain ⟨tick, rfl⟩ := hop
      have htick : tick ∈ flushTicks [.flush tick] := mem_flushTicks.mpr List.mem_cons_self
      exact ((ih tick hbefore fun t ht => hlast t ht tick htick).flush le_rfl).mono
        (hnow tick (List.mem_append_right _ htick))
    · refine (ih now hbefore fun t ht => hnow t (List.mem_append_left _ ht)).fates ?_
      exact step_fates fun tick he => hop ⟨tick, he⟩

/-! ### The replay of a probe -/

section replay

variable {B : Build} {tick : ℤ} {q : SendQ}

theorem probeReplay_of_recovery {q q' : SendQ} (h : q'.recovery = q.recovery) :
    q'.probeReplay = q.probeReplay := by
  unfold SendQ.probeReplay
  rw [h]

theorem progress_probeReplay (tick : ℤ) (retired sampledRtt : Bool) :
    (q.progress B retired sampledRtt tick).probeReplay = q.probeReplay := by
  unfold SendQ.progress SendQ.acknowledgeProgress
  split_ifs
  · split
    · rfl
    · next r hr =>
      have hold : q.probeReplay = r.probeReplay := by
        unfold SendQ.probeReplay
        rw [hr]
        rfl
      simp only
      split_ifs <;> exact hold.symm
  · rfl

theorem flush_probeReplay : (q.flush B tick).2.probeReplay = none := by
  obtain ⟨s, hsends, retriesPending, scheduler, hresult, -⟩ := flush_sends B q tick
  have hburst : (q.prepared B tick).burst.queue.probeReplay = none := by
    unfold SendQ.probeReplay
    show ((q.prepared B tick).recovery.map _).bind _ = none
    cases (q.prepared B tick).recovery <;> rfl
  rw [hresult]
  exact (probeReplay_of_recovery (congrArg Prod.snd (sends_estimate hsends))).trans hburst

end replay

/-- **Between two flushes no replay is under way.** -/
theorem probeReplay_run (B : Build) (mtu : Fin 65536) (ops : List Op) :
    (run B mtu ops).queue.probeReplay = none := by
  have hpersists : Persists B fun recovery => recovery.bind Recovery.probeReplay = none := by
    refine ⟨rfl, fun q retired sampledRtt tick h => ?_, fun q tick _ => flush_probeReplay,
      fun q options now _ h => ?_⟩
    · exact (progress_probeReplay tick retired sampledRtt).trans h
    · unfold SendQ.setRecoveryOptions
      simp only
      split_ifs
      · exact h
      · rfl
  exact hpersists.run mtu ops

end RustRaknet.Send
