import RustRaknet.Send.Refinement

/-! # Datagram numbers

What holds of the datagram numbers of the send queue in every run. A number is given out once, in
order; a frame in flight keeps the numbers it had (`InFlight.datagrams`), and its 24-bit identifiers
are the low bits of its current number and of its last 64 previous ones. Two frames in flight may
share a number only while `groupedAcks` is set. -/

namespace RustRaknet.Send

open RustRaknet.Frame Ledger

/-! ### Numbered frames -/

/-- All datagram numbers a frame in flight has had, the current one last. -/
def InFlight.datagrams (p : InFlight) : List ℕ := p.earlier ++ [p.packet.datagram]

/-- The first datagram number of a frame in flight. -/
def InFlight.born (p : InFlight) : ℕ := p.datagrams.headD 0

/-- A transmitted frame carries the low bits of its datagram number. -/
structure QueuedFrame.Numbered (allocated : ℕ) (f : QueuedFrame) : Prop where
  sequence : f.frame.sequenceNumber = f.datagram % 16777216
  lt : f.datagram < allocated

/-- A frame in flight is known by its current number and the last 64 before it. -/
structure InFlight.Numbered (allocated : ℕ) (p : InFlight) : Prop where
  packet : p.packet.Numbered allocated
  previous : p.previous = (p.earlier.drop (p.earlier.length - 64)).map (· % 16777216)
  sorted : p.datagrams.Pairwise (· < ·)

theorem QueuedFrame.Numbered.mono {a b : ℕ} {f : QueuedFrame} (h : f.Numbered a) (hab : a ≤ b) :
    f.Numbered b := ⟨h.sequence, h.lt.trans_le hab⟩

theorem numbered_numbered (f : QueuedFrame) {d a : ℕ} (h : d < a) :
    (f.numbered (d % 16777216) d).Numbered a := ⟨rfl, h⟩

theorem pushPrevious_last (l : List ℕ) (x : ℕ) :
    pushPrevious (l.drop (l.length - 64)) x = (l ++ [x]).drop ((l ++ [x]).length - 64) := by
  unfold pushPrevious
  rw [List.length_append, List.length_singleton, List.length_drop]
  split_ifs with h
  · rw [List.drop_drop, List.drop_append_of_le_length (by omega)]
    congr 2
    omega
  · rw [List.drop_append_of_le_length (by omega)]
    congr 2
    omega

namespace InFlight.Numbered

variable {a b : ℕ} {p : InFlight}

theorem mono (h : p.Numbered a) (hab : a ≤ b) : p.Numbered b :=
  ⟨h.packet.mono hab, h.previous, h.sorted⟩

theorem datagrams_lt (h : p.Numbered a) : ∀ d ∈ p.datagrams, d < a := by
  intro d hd
  obtain hd' | rfl := Lib.mem_snoc.mp hd
  · have := (List.pairwise_append.mp h.sorted).2.2 d hd' p.packet.datagram (by simp)
    exact this.trans h.packet.lt
  · exact h.packet.lt

theorem born_le (h : p.Numbered a) : ∀ d ∈ p.datagrams, p.born ≤ d := by
  intro d hd
  have hs := h.sorted
  unfold born
  cases hl : p.datagrams with
  | nil => simp [hl] at hd
  | cons x l =>
    rw [hl] at hd hs
    rcases List.mem_cons.mp hd with rfl | hd
    · exact le_rfl
    · exact (List.rel_of_pairwise_cons hs hd).le

theorem ids_datagrams (h : p.Numbered a) {id : ℕ} (hid : id ∈ p.ids) :
    ∃ d ∈ p.datagrams, d % 16777216 = id := by
  rcases List.mem_cons.mp hid with rfl | hid
  · exact ⟨p.packet.datagram, by simp [datagrams], h.packet.sequence.symm⟩
  · rw [h.previous] at hid
    obtain ⟨d, hd, rfl⟩ := List.mem_map.mp hid
    exact ⟨d, by simp [datagrams, List.mem_of_mem_drop hd], rfl⟩

theorem renumber (h : p.Numbered a) : (p.renumber (a % 16777216) a).Numbered (a + 1) := by
  refine ⟨numbered_numbered _ (Nat.lt_succ_self a), ?_, ?_⟩
  · simp only [InFlight.renumber, h.previous, h.packet.sequence, sequence]
    have := pushPrevious_last (p.earlier.map (· % 16777216)) (p.packet.datagram % 16777216)
    simp only [List.length_map, ← List.map_drop] at this
    rw [this]
    simp
  · show (p.datagrams ++ [a]).Pairwise (· < ·)
    exact Lib.pairwise_snoc.mpr ⟨h.sorted, h.datagrams_lt⟩

theorem entry {f : QueuedFrame} (h : f.Numbered a) : (Ledger.entry f).Numbered a :=
  ⟨h, rfl, List.pairwise_singleton _ _⟩

end InFlight.Numbered

theorem datagrams_renumber (p : InFlight) (s d : ℕ) :
    (p.renumber s d).datagrams = p.datagrams ++ [d] := rfl

/-! ### The numbers of the ledger -/

namespace Ledger

/-- Every frame in flight and every frame of the burst is numbered. -/
structure Numbered (L : Ledger) : Prop where
  flight : ∀ p ∈ L.flight, p.Numbered L.allocated
  outbox : ∀ f ∈ L.outbox, f.Numbered L.allocated

theorem Numbered.mono {L L' : Ledger} (h : L.Numbered) (hflight : L'.flight = L.flight)
    (houtbox : L'.outbox = L.outbox) (hle : L.allocated ≤ L'.allocated) : L'.Numbered :=
  ⟨fun p hp => (h.flight p (hflight ▸ hp)).mono hle, fun f hf =>
    (h.outbox f (houtbox ▸ hf)).mono hle⟩

theorem Numbered.fresh (L : Ledger) (f : QueuedFrame) : (L.fresh f).Numbered (L.allocated + 1) :=
  numbered_numbered f (Nat.lt_succ_self _)

theorem Numbered.push {L L' : Ledger} (h : L.Numbered) {f : QueuedFrame}
    (hflight : ∀ p ∈ L'.flight, p ∈ L.flight ∨ p = entry f)
    (houtbox : L'.outbox = L.outbox ++ [f]) (hle : L.allocated ≤ L'.allocated)
    (hf : f.Numbered L'.allocated) : L'.Numbered := by
  refine ⟨fun p hp => ?_, fun g hg => ?_⟩
  · rcases hflight p hp with hp | rfl
    · exact (h.flight p hp).mono hle
    · exact .entry hf
  · obtain hg | rfl := Lib.mem_snoc.mp (houtbox ▸ hg)
    · exact (h.outbox g hg).mono hle
    · exact hf

theorem Numbered.step {L L' : Ledger} (hstep : Step L L') (h : L.Numbered) : L'.Numbered := by
  cases hstep with
  | acceptReliable | acceptUnreliable | acceptScheduled | migrate | rotate | ungroup hflight =>
    exact h.mono rfl rfl le_rfl
  | acceptNumbered => exact h.mono rfl rfl (Nat.le_succ _)
  | renumber hp hsent =>
    refine ⟨fun p hmem => ?_, fun f hf => (h.outbox f hf).mono (Nat.le_succ _)⟩
    rcases List.mem_or_eq_of_mem_set hmem with hmem | rfl
    · exact (h.flight p hmem).mono (Nat.le_succ _)
    · exact (h.flight _ (List.mem_of_getElem? hp)).renumber
  | burst => exact ⟨h.flight, fun f hf => by cases hf⟩
  | resend hp hsent =>
    have hmem := h.flight _ (List.mem_of_getElem? hp)
    refine ⟨fun p hp' => ?_, fun f hf => ?_⟩
    · rcases List.mem_or_eq_of_mem_set hp' with hp' | rfl
      · exact h.flight p hp'
      · exact { hmem with }
    · obtain hf | rfl := Lib.mem_snoc.mp hf
      · exact h.outbox f hf
      · exact hmem.packet
  | launch hp hf =>
    refine h.push (fun p hp => ?_) rfl (Nat.le_succ _) (Numbered.fresh L _)
    simpa using hp
  | join hp hf hg =>
    have hlast := h.outbox _ (List.mem_of_getLast? hg)
    refine h.push (fun p hp => by simpa using hp) rfl le_rfl ⟨hlast.sequence, hlast.lt⟩
  | emit hp hf | emitScheduled hp =>
    exact h.push (fun p hp => .inl hp) rfl (Nat.le_succ _) (Numbered.fresh L _)
  | retire hp hid => exact ⟨fun p hp => h.flight p (List.mem_of_mem_eraseIdx hp), h.outbox⟩
  | sort hperm => exact ⟨fun p hp => h.flight p (hperm.mem_iff.mp hp), h.outbox⟩
  | probe hout hflight hperm =>
    have hnew : ∀ p ∈ _, InFlight.Numbered (L.allocated + 1) p := fun p hp => by
      obtain ⟨p', hp', rfl⟩ := List.mem_map.mp (hperm.mem_iff.mp hp)
      obtain ⟨h1, h2, h3⟩ := (h.flight p' hp').renumber
      exact ⟨h1, h2, h3⟩
    refine ⟨hnew, fun f hf => ?_⟩
    obtain ⟨p, hp, rfl⟩ := List.mem_map.mp hf
    exact (hnew p hp).packet

/-- Two frames in flight share a number only while `groupedAcks` is set. -/
def Grouped (L : Ledger) : Prop :=
  L.groupedAcks = true ∨ L.flight.Pairwise fun p p' => p.datagrams.Disjoint p'.datagrams

theorem Grouped.step {L L' : Ledger} (hstep : Step L L') (hn : L.Numbered) (h : L.Grouped) :
    L'.Grouped := by
  have hfresh : ∀ p ∈ L.flight, p.datagrams.Disjoint [L.allocated] := fun p hp d hd hd' =>
    absurd ((hn.flight p hp).datagrams_lt d hd) (by simp [List.mem_singleton.mp hd'])
  have hsymm : ∀ {p p' : InFlight}, p.datagrams.Disjoint p'.datagrams →
      p'.datagrams.Disjoint p.datagrams := fun h => h.symm
  cases hstep with
  | acceptReliable | acceptUnreliable | acceptScheduled | acceptNumbered | migrate | rotate | burst
  | emit | emitScheduled => exact h
  | renumber hp hsent =>
    refine h.imp_right fun h => ?_
    obtain ⟨others, hothers, -, hexchange⟩ := pairwise_exchange hsymm h hp (L.renumbered _)
    refine hexchange fun p' hp' => List.disjoint_append_left.mpr ?_
    exact ⟨(hothers p' hp').2, (hfresh p' (hothers p' hp').1).symm⟩
  | resend hp hsent =>
    refine h.imp_right fun h => ?_
    obtain ⟨others, hothers, -, hexchange⟩ := pairwise_exchange hsymm h hp _
    exact hexchange fun p' hp' => (hothers p' hp').2
  | launch hp hf =>
    exact h.imp_right fun h => Lib.pairwise_snoc.mpr ⟨h, hfresh⟩
  | join => exact .inl rfl
  | retire hp hid => exact h.imp_right fun h => h.sublist (List.eraseIdx_sublist _ _)
  | sort hperm => exact h.imp_right fun h => (hperm.pairwise_iff hsymm).mpr h
  | ungroup hflight => exact .inr (by simp [hflight])
  | probe hout hflight hperm =>
    by_cases hlen : 1 < L.flight.length
    · exact .inl (by simp [hlen])
    · refine .inr ((hperm.pairwise_iff hsymm).mpr ?_)
      rcases hl : L.flight with _ | ⟨p, _ | ⟨p', l⟩⟩
      · exact .nil
      · exact List.pairwise_singleton _ _
      · simp [hl] at hlen

end Ledger

/-! ### The numbers of a run -/

theorem numbered_run (B : Build) (mtu : Fin 65536) (ops : List Op) :
    (run B mtu ops).ledger.Numbered ∧ (run B mtu ops).ledger.Grouped := by
  refine run_preserves (I := fun L => L.Numbered ∧ L.Grouped)
    (fun hstep h => ⟨h.1.step hstep, h.2.step hstep h.1⟩) B mtu ⟨⟨?_, ?_⟩, .inr .nil⟩ ops
  · intro p hp
    cases hp
  · intro f hf
    cases hf

end RustRaknet.Send
