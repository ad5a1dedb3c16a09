import RustRaknet.Socket.Transmit

/-! # A number is transmitted whole

A burst that sends a datagram number sends every frame in flight that has it (`Whole`): a frame that
waits to be sent again has its number for itself, and frames share one only when one joins the other
in the burst or when a probe sends the whole flight. A number is also sent in one burst only
(`Later`): whatever enters the flight later, or gets a new number, has a number that was never sent
before. -/

namespace RustRaknet.Send.Ledger

/-- The numbers of the flight and of the burst. -/
structure Whole (L : Ledger) : Prop where
  alone : L.flight.Pairwise fun p p' => (p.sent = false → p.packet.datagram ∉ p'.datagrams) ∧
    (p'.sent = false → p'.packet.datagram ∉ p.datagrams)
  burst : ∀ f ∈ L.outbox, ∀ p ∈ L.flight, f.datagram ∈ p.datagrams →
    ∃ g ∈ L.outbox, g.datagram = f.datagram ∧ g.body = p.packet.body

theorem mem_datagrams_entry {f : QueuedFrame} {d : ℕ} :
    d ∈ (entry f).datagrams ↔ d = f.datagram := by
  simp [entry, InFlight.datagrams]

theorem mem_datagrams_renumbered {L : Ledger} {p : InFlight} {d : ℕ} :
    d ∈ (L.renumbered p).datagrams ↔ d ∈ p.datagrams ∨ d = L.allocated := by
  simp [renumbered, datagrams_renumber]

/-- The frames of a burst with one more, which goes with no frame in flight but those of its
body. -/
theorem Whole.concat {L : Ledger} (h : L.Whole) {f : QueuedFrame} {flight : List InFlight}
    (hold : ∀ p ∈ flight, ∀ g ∈ L.outbox, g.datagram ∈ p.datagrams →
      (∃ p' ∈ L.flight, g.datagram ∈ p'.datagrams ∧ p'.packet.body = p.packet.body) ∨
        f.datagram = g.datagram ∧ f.body = p.packet.body)
    (hnew : ∀ p ∈ flight, f.datagram ∈ p.datagrams → f.body = p.packet.body ∨
      ∃ g ∈ L.outbox, g.datagram = f.datagram ∧ g.body = p.packet.body) :
    ∀ g ∈ L.outbox ++ [f], ∀ p ∈ flight, g.datagram ∈ p.datagrams →
      ∃ g' ∈ L.outbox ++ [f], g'.datagram = g.datagram ∧ g'.body = p.packet.body := by
  intro g hg p hp hd
  rcases List.mem_append.mp hg with hg | hg
  · rcases hold p hp g hg hd with ⟨p', hp', hd', hbody⟩ | ⟨hnumber, hbody⟩
    · obtain ⟨g', hg', hnumber, hbody'⟩ := h.burst g hg p' hp' hd'
      exact ⟨g', List.mem_append_left _ hg', hnumber, hbody'.trans hbody⟩
    · exact ⟨f, by simp, hnumber, hbody⟩
  · obtain rfl := List.mem_singleton.mp hg
    rcases hnew p hp hd with hbody | ⟨g', hg', hnumber, hbody⟩
    · exact ⟨g, by simp, rfl, hbody⟩
    · exact ⟨g', List.mem_append_left _ hg', hnumber, hbody⟩

/-- **One move keeps the numbers whole.** -/
theorem Whole.step {L L' : Ledger} (hstep : Step L L') (hn : L.Numbered) (hp : L.Placed)
    (h : L.Whole) : L'.Whole := by
  have hflight : ∀ p ∈ L.flight, ∀ d ∈ p.datagrams, d < L.allocated := fun p hp =>
    (hn.flight p hp).datagrams_lt
  have hcurrent : ∀ p ∈ L.flight, p.packet.datagram < L.allocated := fun p hp =>
    (hn.flight p hp).packet.lt
  have houtbox : ∀ f ∈ L.outbox, f.datagram < L.allocated := fun f hf => (hn.outbox f hf).lt
  have hsymm : ∀ {p p' : InFlight}, ((p.sent = false → p.packet.datagram ∉ p'.datagrams) ∧
      (p'.sent = false → p'.packet.datagram ∉ p.datagrams)) →
      ((p'.sent = false → p'.packet.datagram ∉ p.datagrams) ∧
        (p.sent = false → p.packet.datagram ∉ p'.datagrams)) := fun h => h.symm
  -- a frame with a fresh number goes with nothing in flight
  have hfresh : ∀ (f : QueuedFrame), ∀ p ∈ L.flight, (L.fresh f).datagram ∈ p.datagrams →
      (L.fresh f).body = p.packet.body ∨
        ∃ g ∈ L.outbox, g.datagram = (L.fresh f).datagram ∧ g.body = p.packet.body :=
    fun f p hp hd => absurd (hflight p hp _ hd) (lt_irrefl _)
  have hkeep : ∀ (f : QueuedFrame), ∀ p ∈ L.flight, ∀ g ∈ L.outbox, g.datagram ∈ p.datagrams →
      (∃ p' ∈ L.flight, g.datagram ∈ p'.datagrams ∧ p'.packet.body = p.packet.body) ∨
        f.datagram = g.datagram ∧ f.body = p.packet.body :=
    fun f p hp g _ hd => .inl ⟨p, hp, hd, rfl⟩
  cases hstep with
  | acceptReliable | acceptUnreliable | acceptScheduled | acceptNumbered | migrate | rotate
  | ungroup => exact ⟨h.alone, h.burst⟩
  | burst => exact ⟨h.alone, fun _ hf => (List.not_mem_nil hf).elim⟩
  | @renumber i p hi hsent =>
    obtain ⟨others, hothers, -, hexchange⟩ := pairwise_exchange hsymm h.alone hi (L.renumbered p)
    refine ⟨hexchange fun p' hp' => ⟨fun _ hd => ?_, fun hwait hd => ?_⟩,
      fun f hf p' hp' hd => ?_⟩
    · exact absurd (hflight p' (hothers p' hp').1 _ hd) (lt_irrefl _)
    · rcases mem_datagrams_renumbered.mp hd with hd | hd
      · exact (hothers p' hp').2.2 hwait hd
      · exact absurd (hcurrent p' (hothers p' hp').1) (by omega)
    · rcases List.mem_or_eq_of_mem_set hp' with hp' | rfl
      · exact h.burst f hf p' hp' hd
      · rcases mem_datagrams_renumbered.mp hd with hd | hd
        · exact h.burst f hf p (List.mem_of_getElem? hi) hd
        · exact absurd (houtbox f hf) (by omega)
  | @resend i p hi hsent =>
    obtain ⟨others, hothers, hmem, hexchange⟩ :=
      pairwise_exchange hsymm h.alone hi { p with sent := true }
    have hold : ∀ p' ∈ L.flight.set i { p with sent := true }, ∃ p'' ∈ L.flight,
        p''.datagrams = p'.datagrams ∧ p''.packet = p'.packet := by
      intro p' hp'
      rcases List.mem_or_eq_of_mem_set hp' with hp' | rfl
      · exact ⟨p', hp', rfl, rfl⟩
      · exact ⟨p, List.mem_of_getElem? hi, rfl, rfl⟩
    refine ⟨hexchange fun p' hp' => ⟨fun hs => (Bool.noConfusion hs), (hothers p' hp').2.2⟩,
      h.concat (fun p' hp' g _ hd => ?_) fun p' hp' hd => ?_⟩
    · obtain ⟨p'', hp'', hdatagrams, hpacket⟩ := hold p' hp'
      exact .inl ⟨p'', hp'', hdatagrams ▸ hd, by rw [hpacket]⟩
    · rcases hmem p' hp' with rfl | hp'
      · exact .inl rfl
      · exact absurd hd ((hothers p' hp').2.1 hsent)
  | @launch f rest hpackets hf =>
    refine ⟨?_, h.concat (fun p hp g hg hd => ?_) fun p hp hd => ?_⟩
    · refine Lib.pairwise_snoc.mpr ⟨h.alone, fun p hp => ?_⟩
      refine ⟨fun _ hd => ?_, fun hs => Bool.noConfusion hs⟩
      exact absurd (hcurrent p hp) (by rw [mem_datagrams_entry.mp hd]; exact lt_irrefl _)
    · obtain hp | rfl := Lib.mem_snoc.mp hp
      · exact hkeep _ p hp g hg hd
      · exact .inr ⟨(mem_datagrams_entry.mp hd).symm, rfl⟩
    · obtain hp | rfl := Lib.mem_snoc.mp hp
      · exact hfresh f p hp hd
      · exact .inl rfl
  | @join f g rest hpackets hf hg =>
    have hgmem := List.mem_of_getLast? hg
    refine ⟨?_, h.concat (fun p hp g' hg' hd => ?_) fun p hp hd => ?_⟩
    · refine Lib.pairwise_snoc.mpr ⟨h.alone, fun p hmem => ?_⟩
      refine ⟨fun hwait hd => ?_, fun hs => Bool.noConfusion hs⟩
      exact hp.waiting p hmem hwait g hgmem (mem_datagrams_entry.mp hd).symm
    · obtain hp | rfl := Lib.mem_snoc.mp hp
      · exact hkeep _ p hp g' hg' hd
      · exact .inr ⟨(mem_datagrams_entry.mp hd).symm, rfl⟩
    · obtain hp | rfl := Lib.mem_snoc.mp hp
      · exact .inr (h.burst g hgmem p hp hd)
      · exact .inl rfl
  | @emit f rest hpackets hf | @emitScheduled f rest hpackets =>
    exact ⟨h.alone, h.concat (hkeep (L.fresh f)) (hfresh f)⟩
  | retire hi hid =>
    exact ⟨h.alone.sublist (List.eraseIdx_sublist _ _),
      fun f hf p hp => h.burst f hf p (List.mem_of_mem_eraseIdx hp)⟩
  | sort hperm =>
    exact ⟨(hperm.pairwise_iff hsymm).mpr h.alone,
      fun f hf p hp => h.burst f hf p (hperm.mem_iff.mp hp)⟩
  | @probe s flight hout hall hperm =>
    have hsent : ∀ p ∈ flight, p.sent = true ∧ p.packet.datagram = L.allocated := fun p hp => by
      obtain ⟨p', -, rfl⟩ := List.mem_map.mp (hperm.mem_iff.mp hp)
      exact ⟨rfl, rfl⟩
    refine ⟨?_, fun f hf p hp hd => ?_⟩
    · refine (List.pairwise_of_forall fun _ _ => trivial).imp_of_mem fun hp hp' _ => ?_
      exact ⟨fun hs => by simp [(hsent _ hp).1] at hs, fun hs => by simp [(hsent _ hp').1] at hs⟩
    · obtain ⟨p', hp', rfl⟩ := List.mem_map.mp hf
      exact ⟨p.packet, List.mem_map_of_mem hp, (hsent p hp).2.trans (hsent p' hp').2.symm, rfl⟩

/-! ### Numbers that were sent before -/

/-- The numbers `T` have been sent, and `flight` was in flight then: no frame that waits, or that the
burst has sent, has one of them, and a frame in flight that has one had it then. -/
structure Later (T : ℕ → Prop) (flight : List InFlight) (L : Ledger) : Prop where
  below : ∀ d, T d → d < L.allocated
  waiting : ∀ p ∈ L.flight, p.sent = false → ¬ T p.packet.datagram
  burst : ∀ f ∈ L.outbox, ¬ T f.datagram
  flight : ∀ p ∈ L.flight, ∀ d ∈ p.datagrams, T d →
    ∃ p' ∈ flight, d ∈ p'.datagrams ∧ p'.packet.body = p.packet.body

section later

variable {T : ℕ → Prop} {flight : List InFlight} {L L' : Ledger}

theorem Later.enter (h : L.Later T flight) {f : QueuedFrame} (hf : ¬ T f.datagram) :
    (∀ p ∈ L.flight ++ [entry f], p.sent = false → ¬ T p.packet.datagram) ∧
      ∀ p ∈ L.flight ++ [entry f], ∀ d ∈ p.datagrams, T d →
        ∃ p' ∈ flight, d ∈ p'.datagrams ∧ p'.packet.body = p.packet.body := by
  refine ⟨fun p hp hs => ?_, fun p hp d hd hT => ?_⟩
  · obtain hp | rfl := Lib.mem_snoc.mp hp
    · exact h.waiting p hp hs
    · cases hs
  · obtain hp | rfl := Lib.mem_snoc.mp hp
    · exact h.flight p hp d hd hT
    · exact absurd (mem_datagrams_entry.mp hd ▸ hT) hf

theorem Later.send (h : L.Later T flight) {f : QueuedFrame} (hf : ¬ T f.datagram) :
    ∀ g ∈ L.outbox ++ [f], ¬ T g.datagram := by
  intro g hg
  obtain hg | rfl := Lib.mem_snoc.mp hg
  · exact h.burst g hg
  · exact hf

/-- **One move sends no number again.** -/
theorem Later.step (hstep : Step L L') (h : L.Later T flight) : L'.Later T flight := by
  have hmore : ∀ d, T d → d < L.allocated + 1 := fun d hd => Nat.lt_succ_of_lt (h.below d hd)
  have hfresh : ¬ T L.allocated := fun hT => lt_irrefl _ (h.below _ hT)
  cases hstep with
  | acceptReliable | acceptUnreliable | acceptScheduled | migrate | rotate | ungroup =>
    exact { h with }
  | acceptNumbered => exact { h with below := hmore }
  | burst => exact { h with burst := fun _ hf => (List.not_mem_nil hf).elim }
  | @renumber i p hi hsent =>
    refine ⟨hmore, fun p' hp' hs => ?_, h.burst, fun p' hp' d hd hT => ?_⟩
    · rcases List.mem_or_eq_of_mem_set hp' with hp' | rfl
      · exact h.waiting p' hp' hs
      · exact hfresh
    · rcases List.mem_or_eq_of_mem_set hp' with hp' | rfl
      · exact h.flight p' hp' d hd hT
      · rcases mem_datagrams_renumbered.mp hd with hd | rfl
        · exact h.flight p (List.mem_of_getElem? hi) d hd hT
        · exact absurd hT hfresh
  | @resend i p hi hsent =>
    have hmem := List.mem_of_getElem? hi
    refine ⟨h.below, fun p' hp' hs => ?_, h.send (h.waiting p hmem hsent), fun p' hp' d hd hT => ?_⟩
    · rcases List.mem_or_eq_of_mem_set hp' with hp' | rfl
      · exact h.waiting p' hp' hs
      · cases hs
    · rcases List.mem_or_eq_of_mem_set hp' with hp' | rfl
      · exact h.flight p' hp' d hd hT
      · exact h.flight p hmem d hd hT
  | @launch f rest hpackets hf =>
    obtain ⟨hwaiting, hflight⟩ := h.enter (f := L.fresh f) hfresh
    exact ⟨hmore, hwaiting, h.send (f := L.fresh f) hfresh, hflight⟩
  | @join f g rest hpackets hf hg =>
    have hnumber := h.burst g (List.mem_of_getLast? hg)
    obtain ⟨hwaiting, hflight⟩ :=
      h.enter (f := f.numbered g.frame.sequenceNumber g.datagram) hnumber
    exact ⟨h.below, hwaiting, h.send (f := f.numbered g.frame.sequenceNumber g.datagram) hnumber,
      hflight⟩
  | @emit f rest hpackets hf | @emitScheduled f rest hpackets =>
    exact ⟨hmore, h.waiting, h.send (f := L.fresh f) hfresh, h.flight⟩
  | retire hi hid =>
    exact ⟨h.below, fun p hp => h.waiting p (List.mem_of_mem_eraseIdx hp), h.burst,
      fun p hp => h.flight p (List.mem_of_mem_eraseIdx hp)⟩
  | sort hperm =>
    exact ⟨h.below, fun p hp => h.waiting p (hperm.mem_iff.mp hp), h.burst,
      fun p hp => h.flight p (hperm.mem_iff.mp hp)⟩
  | @probe s flight' hout hall hperm =>
    have hnew : ∀ p ∈ flight', ∃ p' ∈ L.flight, p = { L.renumbered p' with sent := true } :=
      fun p hp => by
        obtain ⟨p', hp', rfl⟩ := List.mem_map.mp (hperm.mem_iff.mp hp)
        exact ⟨p', hp', rfl⟩
    refine ⟨hmore, fun p hp hs => ?_, fun f hf => ?_, fun p hp d hd hT => ?_⟩
    · obtain ⟨p', -, rfl⟩ := hnew p hp
      cases hs
    · obtain ⟨p, hp, rfl⟩ := List.mem_map.mp hf
      obtain ⟨p', -, rfl⟩ := hnew p hp
      exact hfresh
    · obtain ⟨p', hp', rfl⟩ := hnew p hp
      rcases mem_datagrams_renumbered.mp hd with hd | rfl
      · exact h.flight p' hp' d hd hT
      · exact absurd hT hfresh

end later

end RustRaknet.Send.Ledger

namespace RustRaknet.Send

open Ledger

/-- **The numbers of a run are whole.** -/
theorem whole_run (B : Build) (mtu : Fin 65536) (ops : List Op) :
    (run B mtu ops).ledger.Whole := by
  have h := run_preserves (I := fun L => L.Numbered ∧ L.Placed ∧ L.Whole)
    (fun hstep h => ⟨h.1.step hstep, h.2.1.step hstep h.1, h.2.2.step hstep h.1 h.2.1⟩) B mtu
    ⟨(Socket.placed_run B mtu []).1, (Socket.placed_run B mtu []).2, .nil,
      fun _ hf => (List.not_mem_nil hf).elim⟩ ops
  exact h.2.2

/-- **An operation sends no number again.** -/
theorem step_later {B : Build} {r : Run} (hw : Wf B r.queue) (op : Op) {T : ℕ → Prop}
    (hbelow : ∀ d, T d → d < r.queue.allocated)
    (hwaiting : ∀ p ∈ r.queue.sentPacket, p.sent = false → ¬ T p.packet.datagram) :
    (Run.step B { r with output := .empty } op).ledger.Later T
      (r.queue.sentPacket.map InFlight.timeless) := by
  refine Steps.preserves (I := fun L => L.Later T (r.queue.sentPacket.map InFlight.timeless))
    Later.step (step_steps (B := B) { r with output := .empty } op hw).2 ?_
  refine ⟨hbelow, fun p hp hs => ?_, fun _ hf => (List.not_mem_nil hf).elim,
    fun p hp d hd _ => ⟨p, hp, hd, rfl⟩⟩
  obtain ⟨p', hp', rfl⟩ := List.mem_map.mp hp
  exact hwaiting p' hp' hs

end RustRaknet.Send
