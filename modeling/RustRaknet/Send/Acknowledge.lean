import RustRaknet.Send.Numbers

/-! # What an acknowledgement removes

`ack` has a fast path that removes the first frame it finds under the acknowledged identifier; the
scan of `ack_ranges` removes every one. The fast path is taken only when no two frames in flight
share a number (`Ledger.Grouped`), and as long as no frame in flight is older than 2^24 numbers, no
two different numbers share an identifier. So both remove exactly the frames that the acknowledged
datagrams carried. -/

namespace RustRaknet.Send

open RustRaknet.Frame RustRaknet.Sequence Ledger

/-- An acknowledgement removes the frames that `hit` selects, and leaves the others in flight, some
of them under new numbers. -/
structure Exact (q : SendQ) (hit : InFlight → Bool) (result : List Retired × SendQ) : Prop where
  retired : result.1.map Retired.packet = (q.sentPacket.filter hit).map InFlight.packet
  kept : result.2.bodies = (q.sentPacket.filter fun p => !hit p).map fun p => p.packet.body

/-! ### What stays in flight -/

theorem progress_bodies (B : Build) (q : SendQ) (retired sampled : Bool) (tick : ℤ) :
    (q.progress B retired sampled tick).bodies = q.bodies := by
  have hledger := progress_ledger (B := B) q retired sampled tick .empty [] []
  have := congrArg (fun L : Ledger => L.flight.map fun p => p.packet.body) hledger
  simpa [Run.ledger, Function.comp_def, SendQ.bodies] using this

theorem ackRule_bodies (B : Build) : AckRule B fun q q' => q'.bodies = q.bodies where
  refl _ := rfl
  trans h h' := h'.trans h
  reissue h _ time := reissue_bodies time h
  advanceAck _ _ := rfl
  progress := progress_bodies B
  ungroup _ := rfl
  release _ _ := rfl
  updateRto _ _ := rfl
  setLatency _ _ _ := rfl

/-! ### The two paths -/

theorem filter_none {α : Type*} {hit : α → Bool} {l : List α} (h : ∀ a ∈ l, hit a = false) :
    l.filter hit = [] ∧ (l.filter fun a => !hit a) = l :=
  ⟨List.filter_eq_nil_iff.mpr fun a ha => by simp [h a ha],
    List.filter_eq_self.mpr fun a ha => by simp [h a ha]⟩

theorem filter_one {α : Type*} {p : α → Bool} {l₁ l₂ : List α} {a : α} (ha : p a = true)
    (h₁ : ∀ x ∈ l₁, p x = false) (h₂ : ∀ x ∈ l₂, p x = false) :
    (l₁ ++ a :: l₂).filter p = [a] ∧ ((l₁ ++ a :: l₂).filter fun x => !p x) = l₁ ++ l₂ := by
  simp [ha, (filter_none h₁).1, (filter_none h₁).2, (filter_none h₂).1, (filter_none h₂).2]

/-- No two frames in flight share an identifier. -/
def Apart (q : SendQ) : Prop :=
  q.sentPacket.Pairwise fun p p' => ∀ id ∈ p.ids, id ∉ p'.ids

/-- The fast path, when it is right. -/
theorem ackSingle_exact (B : Build) {q : SendQ} (h : Apart q) (sequence : ℕ) (tick : ℤ) :
    Exact q (fun p => p.ids.contains sequence) (q.ackSingle B sequence tick) := by
  unfold SendQ.ackSingle
  split
  · next hfind =>
    obtain ⟨hhit, hkept⟩ := filter_none (List.findIdx?_eq_none_iff.mp hfind)
    refine ⟨?_, ?_⟩
    · rw [hhit]
      rfl
    · rw [hkept]
      rfl
  · next i hfind =>
    obtain ⟨hlt, hp, hbefore⟩ := List.findIdx?_eq_some_iff_getElem.mp hfind
    rw [List.getElem?_eq_getElem hlt]
    have hl : q.sentPacket =
        q.sentPacket.take i ++ q.sentPacket[i] :: q.sentPacket.drop (i + 1) := by
      rw [List.getElem_cons_drop, List.take_append_drop]
    have hleft : ∀ p ∈ q.sentPacket.take i, p.ids.contains sequence = false := by
      intro p hmem
      obtain ⟨j, hj, rfl⟩ := List.mem_take_iff_getElem.mp hmem
      exact Bool.not_eq_true _ ▸ hbefore j (by omega)
    have hright : ∀ p ∈ q.sentPacket.drop (i + 1), p.ids.contains sequence = false := by
      intro p hmem
      unfold Apart at h
      rw [hl] at h
      have hsep := List.rel_of_pairwise_cons (List.pairwise_append.mp h).2.1 hmem
      have := hsep sequence (by simpa using hp)
      simpa using this
    obtain ⟨hhit, hkept⟩ := filter_one (p := fun p : InFlight => p.ids.contains sequence) hp
      hleft hright
    rw [← hl] at hhit hkept
    refine ⟨?_, ?_⟩
    · rw [hhit]
      rfl
    · rw [hkept, ← List.eraseIdx_eq_take_drop_succ]
      exact (ackRule_bodies B).removed q sequence i _

theorem ackScan_exact (B : Build) (q : SendQ) (grouped : Bool) (ranges : List (ℕ × ℕ)) (tick : ℤ) :
    Exact q (fun p => p.ids.any (SendQ.inRanges ranges)) (q.ackScan B grouped ranges tick) := by
  refine ⟨?_, ?_⟩
  · show (q.scan B grouped ranges tick).retired.map Retired.packet = _
    rw [scan_retired, List.map_filterMap]
    induction q.sentPacket with
    | nil => rfl
    | cons p l ih =>
      rw [List.filterMap_cons, List.filter_cons, ih, ← List.isSome_find?]
      cases p.ids.find? (SendQ.inRanges ranges) <;> rfl
  · rw [(ackRule_bodies B).settled q grouped ranges]
    show (q.scan B grouped ranges tick).kept.map (fun p => p.packet.body) = _
    rw [scan_kept]

theorem any_inRanges_single (ids : List ℕ) (a : ℕ) :
    ids.any (SendQ.inRanges [(a, a)]) = ids.contains a := by
  have hin : SendQ.inRanges [(a, a)] = fun x => a == x := by
    funext x
    rw [Bool.eq_iff_iff]
    simp only [SendQ.inRanges, List.any_cons, List.any_nil, Bool.or_false, Bool.and_eq_true,
      decide_eq_true_eq, beq_iff_eq]
    omega
  rw [hin, List.contains_eq_any_beq]

/-- `ack_ranges`, when identifiers are shared only by frames of one datagram. -/
theorem ackRanges_exact (B : Build) {q : SendQ} (h : q.groupedAcks = true ∨ Apart q)
    (ranges : List (ℕ × ℕ)) (tick : ℤ) :
    Exact q (fun p => p.ids.any (SendQ.inRanges ranges)) (q.ackRanges B ranges tick) := by
  unfold SendQ.ackRanges SendQ.ackRangesInner
  split
  · next a b =>
    split_ifs with hc
    · obtain ⟨rfl, hc⟩ := hc
      have hapart : Apart q := by
        rcases hc with hc | hc
        · exact h.resolve_left hc
        · unfold Apart
          rcases hl : q.sentPacket with _ | ⟨p, _ | ⟨p', l⟩⟩
          · exact .nil
          · exact List.pairwise_singleton _ _
          · simp [hl] at hc
      simp only [any_inRanges_single]
      exact ackSingle_exact B hapart a tick
    · exact ackScan_exact B q _ _ tick
  · exact ackScan_exact B q _ _ tick

theorem ackOne_exact (B : Build) {q : SendQ} (h : q.groupedAcks = true ∨ Apart q) (sequence : ℕ)
    (tick : ℤ) :
    Exact q (fun p => p.ids.contains sequence) (q.ack B sequence tick) := by
  have hranges := ackRanges_exact B h [(sequence, sequence)] tick
  simp only [any_inRanges_single] at hranges
  unfold SendQ.ack
  split_ifs with hc
  · exact hranges
  · have hinner : q.ackRanges B [(sequence, sequence)] tick = q.ackSingle B sequence tick := by
      simp only [Bool.and_eq_true, decide_eq_true_eq, not_and_or, not_lt] at hc
      unfold SendQ.ackRanges SendQ.ackRangesInner
      exact if_pos ⟨rfl, hc⟩
    exact hinner ▸ hranges

/-! ### Runs -/

theorem eq_of_window {d d' a : ℕ} (hd : d < a) (hd' : d' < a) (h : a ≤ d + 16777216)
    (h' : a ≤ d' + 16777216) (he : d % 16777216 = d' % 16777216) : d = d' := by omega

section window

variable {L : Ledger} (hn : L.Numbered)
  (hwindow : ∀ p ∈ L.flight, L.allocated ≤ p.born + 16777216)

include hn hwindow

theorem datagram_unique {p p' : InFlight} (hp : p ∈ L.flight) (hp' : p' ∈ L.flight) {d d' : ℕ}
    (hd : d ∈ p.datagrams) (hd' : d' ∈ p'.datagrams) (he : d % 16777216 = d' % 16777216) :
    d = d' := by
  have h := hn.flight p hp
  have h' := hn.flight p' hp'
  have hb := h.born_le d hd
  have hb' := h'.born_le d' hd'
  have hw := hwindow p hp
  have hw' := hwindow p' hp'
  exact eq_of_window (h.datagrams_lt d hd) (h'.datagrams_lt d' hd') (by omega) (by omega) he

theorem apart_of_disjoint
    (h : L.flight.Pairwise fun p p' => p.datagrams.Disjoint p'.datagrams) :
    L.flight.Pairwise fun p p' => ∀ id ∈ p.ids, id ∉ p'.ids := by
  refine h.imp_of_mem fun {p p'} hp hp' hdisj id hid hid' => ?_
  obtain ⟨d, hd, he⟩ := (hn.flight p hp).ids_datagrams hid
  obtain ⟨d', hd', he'⟩ := (hn.flight p' hp').ids_datagrams hid'
  have := datagram_unique hn hwindow hp hp' hd hd' (he.trans he'.symm)
  exact hdisj hd (this ▸ hd')

end window

/-- **An acknowledgement removes exactly the frames its datagrams carried.** In every reachable state
in which no frame in flight is older than 2^24 numbers, `ack` and `ack_ranges` remove the frames in
flight that have an acknowledged identifier, all of them and no other. The identifiers of a frame
are the low bits of its datagram number and of the last 64 before it; and two frames that share one
were in the same datagram, and are in flight only while `groupedAcks` is set. -/
theorem ack_exact (B : Build) (mtu : Fin 65536) (ops : List Op)
    (hwindow : ∀ p ∈ (run B mtu ops).queue.sentPacket,
      (run B mtu ops).queue.allocated ≤ p.born + 16777216) :
    (∀ s tick, Exact (run B mtu ops).queue (fun p => p.ids.contains s)
      ((run B mtu ops).queue.ack B s tick)) ∧
    (∀ ranges tick, Exact (run B mtu ops).queue (fun p => p.ids.any (SendQ.inRanges ranges))
      ((run B mtu ops).queue.ackRanges B ranges tick)) ∧
    (∀ p ∈ (run B mtu ops).queue.sentPacket, p.ids = (p.packet.datagram ::
      p.earlier.drop (p.earlier.length - 64)).map (· % 16777216)) ∧
    (run B mtu ops).queue.sentPacket.Pairwise fun p p' => ∀ id ∈ p.ids, id ∈ p'.ids →
      (run B mtu ops).queue.groupedAcks = true ∧ ∃ d ∈ p.datagrams, d ∈ p'.datagrams ∧
        id = d % 16777216 := by
  obtain ⟨hn, hg⟩ := numbered_run B mtu ops
  generalize run B mtu ops = r at *
  have hflight : r.ledger.flight = r.queue.sentPacket.map InFlight.timeless := rfl
  have hw : ∀ p ∈ r.ledger.flight, r.ledger.allocated ≤ p.born + 16777216 := by
    intro p hp
    obtain ⟨p', hp', rfl⟩ := List.mem_map.mp hp
    exact hwindow p' hp'
  have hmem : ∀ p ∈ r.queue.sentPacket, p.timeless ∈ r.ledger.flight := fun p hp =>
    List.mem_map_of_mem hp
  have hapart : r.queue.groupedAcks = true ∨ Apart r.queue := hg.imp_right fun hg => by
    have := apart_of_disjoint hn hw hg
    rw [hflight, List.pairwise_map] at this
    exact this
  refine ⟨ackOne_exact B hapart, ackRanges_exact B hapart, fun p hp => ?_, ?_⟩
  · have h := hn.flight _ (hmem p hp)
    exact congrArg₂ List.cons h.packet.sequence h.previous
  · refine List.Pairwise.imp_of_mem (R := fun p p' => r.queue.groupedAcks = true ∨
      ∀ id ∈ p.ids, id ∉ p'.ids) (fun {p p'} hp hp' hsep id hid hid' => ?_) ?_
    · obtain ⟨d, hd, he⟩ := (hn.flight _ (hmem p hp)).ids_datagrams hid
      obtain ⟨d', hd', he'⟩ := (hn.flight _ (hmem p' hp')).ids_datagrams hid'
      have := datagram_unique hn hw (hmem p hp) (hmem p' hp') hd hd' (he.trans he'.symm)
      exact ⟨hsep.resolve_right fun h => h id hid hid', d, hd, this ▸ hd', he.symm⟩
    · rcases hapart with h | h
      · exact List.pairwise_of_forall fun _ _ => .inl h
      · exact h.imp fun h => .inr h

/-- Two messages that are packed into one datagram. -/
def packedOps : List Op :=
  [.enableCoalescing, .insert ⟨.reliableOrdered, primaryChannel, [0xfe, 1], false⟩,
    .insert ⟨.reliableOrdered, primaryChannel, [0xfe, 2], false⟩, .flush 0]

/-- The acknowledgement of their number removes both. -/
theorem ack_exact_packed :
    Exact (run (.insertion false false) 1400 packedOps).queue (fun p => p.ids.contains 0)
      ((run (.insertion false false) 1400 packedOps).queue.ack (.insertion false false) 0 10) ∧
    ((run (.insertion false false) 1400 packedOps).queue.ack (.insertion false false) 0 10).1.length
      = 2 :=
  ⟨(ack_exact (.insertion false false) 1400 packedOps (by decide +kernel)).1 0 10,
    by decide +kernel⟩

end RustRaknet.Send
