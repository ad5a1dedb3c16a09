import RustRaknet.Send.RefineFlush

/-! # The send queue follows its ledger: probes and whole runs

A tail probe starts only when nothing else can be sent: the queue is empty, and the flight is one
datagram that was never sent again and fits the burst. The flush that starts it therefore sends the
whole flight and nothing else, which is the move `probe`. `Replaying` counts the frames of the
flight sent so far, for both kinds of flush.

With that, every operation of the queue is a sequence of moves (`step_steps`), and the ledger of a
run is reached from the empty one (`run_steps`): a property that every move keeps holds after every
run. -/

namespace RustRaknet.Send

open RustRaknet.Frame RustRaknet.Sequence Ledger

variable {B : Build}

/-! ### When a probe starts -/

/-- The flight is one datagram that was never sent again, and there is nothing else to send. -/
structure Tail (q : SendQ) (first : InFlight) : Prop where
  packets : q.packets = []
  flight : ∀ p ∈ q.sentPacket, p.sent = true ∧ p.previous = [] ∧ p.sequence = first.sequence
  nonempty : q.sentPacket ≠ []
  scheduler : ∀ s, q.scheduler = some s →
    s.unreliable = [] ∧ (q.sentPacket.map fun p => p.packet.size).sum ≤ s.options.flushBytes

theorem tail_of_deadline {q : SendQ} {first : InFlight} {rest : List InFlight}
    (hflight : q.sentPacket = first :: rest) (h : q.probeDeadline ≠ i64Max) : Tail q first := by
  unfold SendQ.probeDeadline at h
  split at h
  · exact absurd rfl h
  next r hr =>
  simp only [hflight] at h
  split at h
  · exact absurd rfl h
  · exact absurd rfl h
  next delay first' rest' hdelay hcons =>
  cases hcons
  split_ifs at h with h1 h2 h3 h4
  any_goals exact absurd rfl h
  simp only [Bool.or_eq_true, Bool.not_eq_true', decide_eq_true_eq, not_or, not_lt,
    Bool.not_eq_false, List.isEmpty_iff] at h2
  rw [← hflight] at h3 h4
  refine ⟨h2.1, fun p hp => ?_, by simp [hflight], fun s hs => ?_⟩
  · have hp' := (List.any_eq_false.mp (Bool.not_eq_true _ ▸ h3)) p hp
    simp only [Bool.or_eq_true, not_or, Bool.not_eq_true', Bool.not_eq_false, bne_iff_ne, ne_eq,
      not_not, List.isEmpty_iff] at hp'
    exact ⟨hp'.1.1.1, hp'.1.2, hp'.2⟩
  · simpa [hs] using h4

theorem probeTail_cases (q : SendQ) (now : ℤ) :
    q.probeTail now = q ∨ ∃ first r, q.probeTail now = q.replay first r ∧ Tail q first := by
  unfold SendQ.probeTail
  simp only
  split_ifs with h
  · exact .inl rfl
  · split
    · next first rest r hflight hr =>
      exact .inr ⟨first, r, rfl, tail_of_deadline hflight fun h' => h (.inl h')⟩
    · exact .inl rfl

/-! ### The flight of a probe -/

theorem tickAt_unsent {q : SendQ} (h : ∀ p ∈ q.sentPacket, p.sent = false)
    (probe : Option ProbeFallback) (tick : ℤ) (i : ℕ) : SendQ.tickAt probe tick q i = q := by
  unfold SendQ.tickAt
  split
  · rfl
  · next p hp => simp [h p (List.mem_of_getElem? hp)]

theorem scan_unsent {q : SendQ} (h : ∀ p ∈ q.sentPacket, p.sent = false)
    (probe : Option ProbeFallback) (tick : ℤ) (l : List ℕ) :
    l.foldl (SendQ.tickAt probe tick) q = q := by
  induction l with
  | nil => rfl
  | cons i l ih => rw [List.foldl_cons, tickAt_unsent h, ih]

theorem expire_unsent {q : SendQ} (h : ∀ p ∈ q.sentPacket, p.sent = false) (tick : ℤ) :
    q.expire B tick = q ∨ q.expire B tick = q.clearRetry ∨
      q.expire B tick = q.clearRetry.dropProbe := by
  unfold SendQ.expire
  simp only [scan_unsent (q := q.clearRetry) h]
  generalize (if B.recoveryPolicy = true then q.activeProbe else none) = probe
  split_ifs
  · exact .inl rfl
  · exact .inr (.inr rfl)
  · exact .inr (.inl rfl)

/-- What the queue is when the burst of a probe begins. -/
structure Replayed (B : Build) (q q' : SendQ) : Prop where
  wf : Wf B q'.takeProbe
  packing : q'.probePacking = decide (1 < q.sentPacket.length)
  pending : q'.retriesPending = true
  scheduler : q'.scheduler = q.scheduler
  ledger : ∀ o e t, q'.takeProbe.ledger o e t = { q.ledger o e t with
    flight := q'.sentPacket.map InFlight.timeless
    groupedAcks := q.groupedAcks || decide (1 < q.sentPacket.length)
    allocated := q.allocated + 1 }
  flight : q'.sentPacket.Perm
    (q.sentPacket.map fun p => p.renumber (q.allocated % 16777216) q.allocated)

theorem replayed_sort {q q' : SendQ} (h : Replayed B q q') : Replayed B q (q'.sortFlight B) := by
  unfold SendQ.sortFlight
  split_ifs
  · have hperm := B.sort_perm q'.sentPacket
    refine ⟨⟨h.wf.indexed, h.wf.numbered, fun p hp => h.wf.reliable p (hperm.mem_iff.mp hp),
      h.wf.scheduled, ?_, h.wf.probePacked⟩, h.packing, h.pending, h.scheduler, fun o e t => ?_,
      hperm.trans h.flight⟩
    · rintro (h' | h')
      · exact h.wf.room (.inl h')
      · exact h.wf.room (.inr fun h0 => h' (List.perm_nil.mp (h0 ▸ hperm)))
    · have := h.ledger o e t
      simp only [Run.ledger, SendQ.takeProbe, Ledger.mk.injEq] at this ⊢
      simpa using this
  · exact h

theorem replayed_clearRetry {q q' : SendQ} (h : Replayed B q q') : Replayed B q q'.clearRetry :=
  ⟨⟨h.wf.indexed, h.wf.numbered, h.wf.reliable, h.wf.scheduled, h.wf.room, h.wf.probePacked⟩,
    h.packing, h.pending, h.scheduler, h.ledger, h.flight⟩

theorem replayed_dropProbe {q q' : SendQ} (h : Replayed B q q') : Replayed B q q'.dropProbe := by
  refine ⟨⟨h.wf.indexed, h.wf.numbered, h.wf.reliable, h.wf.scheduled, h.wf.room, fun r hr => ?_⟩,
    ?_, h.pending, h.scheduler, h.ledger, h.flight⟩
  · obtain ⟨r', -, rfl⟩ := Option.map_eq_some_iff.mp hr
    rfl
  · rw [← h.packing]
    cases hr : q'.recovery <;> simp [SendQ.probePacking, SendQ.dropProbe, hr]

/-- The whole flight gets one new number. -/
theorem replayed_replay {q : SendQ} {first : InFlight} (r : Recovery) (hw : Wf B q)
    (h : Tail q first) : Replayed B q (q.replay first r) := by
  have hmap : (q.replay first r).sentPacket =
      q.sentPacket.map fun p => p.renumber (q.allocated % 16777216) q.allocated := by
    refine List.map_congr_left fun p hp => ?_
    rw [hw.numbered, ← (h.flight p hp).2.2]
    rfl
  refine ⟨⟨hw.indexed, ?_, fun p hp => ?_, hw.scheduled, fun _ => hw.room (.inr h.nonempty), ?_⟩,
    rfl, rfl, rfl, fun o e t => ?_, hmap ▸ .refl _⟩
  · simp [SendQ.takeProbe, SendQ.replay, hw.numbered]
  · rw [show (q.replay first r).takeProbe.sentPacket = (q.replay first r).sentPacket from rfl,
      hmap] at hp
    obtain ⟨p', hp', rfl⟩ := List.mem_map.mp hp
    exact hw.reliable p' hp'
  · rintro r' ⟨⟩
    rfl
  · simp [Run.ledger, SendQ.takeProbe, SendQ.replay]

theorem replayed_expire {q : SendQ} {first : InFlight} (r : Recovery) (tick : ℤ) (hw : Wf B q)
    (h : Tail q first) : Replayed B q (((q.replay first r).expire B tick).sortFlight B) := by
  have hreplay := replayed_replay r hw h
  have hunsent : ∀ p ∈ (q.replay first r).sentPacket, p.sent = false := by
    intro p hp
    obtain ⟨p', -, rfl⟩ := List.mem_map.mp (hreplay.flight.mem_iff.mp hp)
    rfl
  rcases expire_unsent (B := B) hunsent tick with he | he | he <;> rw [he]
  · exact replayed_sort hreplay
  · exact replayed_sort (replayed_clearRetry hreplay)
  · exact replayed_sort (replayed_dropProbe (replayed_clearRetry hreplay))

/-! ### The burst of a probe -/

/-- The entry of a frame once it is sent. -/
def InFlight.resent (p : InFlight) : InFlight := { p.timeless with sent := true }

/-- The first `k` frames of the flight are sent, and nothing else has changed since the ledger was
`L`. -/
structure Replaying (L : Ledger) (flight : List InFlight) (e : List QueuedFrame) (t : List Retired)
    (s : Burst) (k : ℕ) : Prop where
  ledger : s.ledger e t = { L with
    flight := (flight.take k).map InFlight.resent ++ (flight.drop k).map InFlight.timeless
    outbox := (flight.take k).map InFlight.packet }
  rest : s.queue.sentPacket.drop k = flight.drop k
  wf : BurstWf B s

theorem Replaying.getElem {L : Ledger} {flight : List InFlight} {e : List QueuedFrame}
    {t : List Retired} {s : Burst} {k : ℕ} (h : Replaying (B := B) L flight e t s k) :
    s.queue.sentPacket[k]? = flight[k]? := by
  have := congrArg (·[0]?) h.rest
  simpa using this

theorem Replaying.resend {L : Ledger} {flight : List InFlight} {e : List QueuedFrame}
    {t : List Retired} {s : Burst} {k : ℕ} {p : InFlight} (probeSequence : Option ℕ) (tick : ℤ)
    (h : Replaying (B := B) L flight e t s k) (hp : flight[k]? = some p) (hsent : p.sent = false) :
    Replaying (B := B) L flight e t (s.resend probeSequence tick k p).closeGroup (k + 1) := by
  have hget := h.getElem.trans hp
  have hrel : p.packet.isReliable = true := h.wf.wf.reliable p (List.mem_of_getElem? hget)
  obtain ⟨hlt, hpk⟩ := List.getElem?_eq_some_iff.mp hp
  have hdrop : flight.drop k = p :: flight.drop (k + 1) := by
    rw [List.drop_eq_getElem_cons hlt, hpk]
  have htake : flight.take (k + 1) = flight.take k ++ [p] := by
    rw [List.take_add_one, hp, Option.toList_some]
  have hk : ((flight.take k).map InFlight.resent).length = k := by
    simp [Nat.min_eq_left (Nat.le_of_lt hlt)]
  refine ⟨?_, ?_, (resend_moves probeSequence tick hget hsent h.wf).1⟩
  · rw [resend_ledger probeSequence tick k hrel, h.ledger, htake, hdrop]
    simp only [List.map_cons, List.map_append, List.map_nil]
    rw [List.set_append_right _ _ (le_of_eq hk), hk, Nat.sub_self, List.set_cons_zero,
      List.append_assoc]
    rfl
  · have hrest : s.queue.sentPacket.drop (k + 1) = flight.drop (k + 1) := by
      rw [← List.drop_drop, ← List.drop_drop, h.rest]
    rw [← hrest]
    exact List.drop_set_of_lt (Nat.lt_succ_self k)

theorem Replaying.resendAt {L : Ledger} {flight : List InFlight} {e : List QueuedFrame}
    {t : List Retired} {s : Burst} (probeSequence : Option ℕ) (tick : ℤ)
    (hunsent : ∀ p ∈ flight, p.sent = false) (hgroup : s.group = .empty)
    (h : Replaying (B := B) L flight e t s 0) :
    ∀ k ≤ flight.length,
      Replaying (B := B) L flight e t
        ((List.range k).foldl (Burst.resendAt probeSequence tick) s) k ∧
      ((List.range k).foldl (Burst.resendAt probeSequence tick) s).group = .empty
  | 0, _ => ⟨h, hgroup⟩
  | k + 1, hk => by
    obtain ⟨ih, hg⟩ := Replaying.resendAt probeSequence tick hunsent hgroup h k (by omega)
    rw [List.range_succ, List.foldl_append, List.foldl_cons, List.foldl_nil]
    generalize (List.range k).foldl (Burst.resendAt probeSequence tick) s = s' at ih hg ⊢
    have hp : flight[k]? = some flight[k] := List.getElem?_eq_getElem hk
    have hsent : flight[k].sent = false := hunsent _ (List.getElem_mem hk)
    have hstep := ih.resend probeSequence tick hp hsent
    unfold Burst.resendAt
    rw [ih.getElem, hp]
    simp only [hsent, Bool.false_eq_true, if_false]
    rw [closeGroup_empty (s := s'.resend probeSequence tick k flight[k]) hg] at hstep
    exact ⟨hstep, hg⟩

/-- A round of the flush of a probe: the first `k` frames are sent, and the rest fits the burst. -/
structure Probing (B : Build) (L : Ledger) (flight : List InFlight) (e : List QueuedFrame)
    (t : List Retired) (r : Round) (k : ℕ) : Prop where
  replaying : Replaying (B := B) L flight e t r.view k
  unsent : ∀ p ∈ flight, p.sent = false
  sized : ∀ p ∈ flight, 0 < p.packet.size
  le : k ≤ flight.length
  cursor : r.retryCursor = k
  pending : r.burst.queue.retriesPending = true
  packets : r.burst.queue.packets = []
  unreliable : r.scheduler.unreliable = []
  fits : r.bytes + ((flight.drop k).map fun p => p.packet.size).sum ≤ r.scheduler.options.flushBytes

namespace Probing

variable {L : Ledger} {flight : List InFlight} {e : List QueuedFrame} {t : List Retired} {r : Round}
  {k : ℕ}

theorem getElem (h : Probing B L flight e t r k) : r.burst.queue.sentPacket[k]? = flight[k]? :=
  h.replaying.getElem

theorem advance (h : Probing B L flight e t r k) (lane : ℕ) : r.advance lane = r := by
  unfold Round.advance
  split_ifs
  · have hseek : Round.seek r.burst.queue.sentPacket r.retryCursor = r.retryCursor := by
      have hrest : r.burst.queue.sentPacket.drop k = flight.drop k := h.replaying.rest
      unfold Round.seek
      rw [h.cursor, hrest]
      rcases hd : flight.drop k with _ | ⟨p, l⟩
      · rfl
      · have hp : p ∈ flight := List.mem_of_mem_drop (i := k) (by simp [hd])
        simp [List.findIdx_cons, h.unsent p hp]
    rw [hseek]
  · rfl

theorem laneCharge_other (h : Probing B L flight e t r k) {lane : ℕ} (hlane : lane ≠ 1) :
    r.laneCharge lane = none := by
  unfold Round.laneCharge
  split
  · simp [h.unreliable]
  · exact absurd rfl hlane
  · simp [h.packets]

theorem laneCharge_one (h : Probing B L flight e t r k) :
    r.laneCharge 1 = flight[k]?.map fun p => p.packet.size := by
  simp only [Round.laneCharge, h.pending, if_true, h.cursor, h.getElem]

/-- The next frame of the flight is sent. -/
theorem laneSend (h : Probing B L flight e t r k) (probeSequence : Option ℕ) (tick : ℤ)
    {p : InFlight} (hp : flight[k]? = some p) :
    Probing B L flight e t (r.laneSend probeSequence tick 1 p.packet.size) (k + 1) := by
  have hmem := List.mem_of_getElem? hp
  obtain ⟨hlt, hpk⟩ := List.getElem?_eq_some_iff.mp hp
  have hdrop : flight.drop k = p :: flight.drop (k + 1) := by
    rw [List.drop_eq_getElem_cons hlt, hpk]
  have hfits := h.fits
  rw [hdrop, List.map_cons, List.sum_cons] at hfits
  have hretry : r.sendRetry probeSequence tick = { r with
      burst := (r.burst.resend probeSequence tick k p).closeGroup, retryCursor := k + 1 } := by
    unfold Round.sendRetry
    rw [h.cursor, h.getElem, hp]
  have hstep := h.replaying.resend probeSequence tick hp (h.unsent p hmem)
  unfold Round.laneSend
  simp only [hretry]
  refine ⟨⟨hstep.ledger, hstep.rest, ?_⟩, h.unsent, h.sized, hlt, rfl, h.pending, h.packets,
    h.unreliable, ?_⟩
  · exact (turnTo_moves rfl (by omega) hstep.wf).1
  · simp only [Round.charged]
    omega

theorem full (h : Probing B L flight e t r k) (hbytes : r.bytes = r.scheduler.options.flushBytes) :
    k = flight.length := by
  by_contra hne
  have hlt : k < flight.length := lt_of_le_of_ne h.le hne
  have hfits := h.fits
  have := h.sized _ (List.getElem_mem hlt)
  rw [List.drop_eq_getElem_cons hlt, List.map_cons, List.sum_cons] at hfits
  omega

theorem laneLoop_other (h : Probing B L flight e t r k) (probeSequence : Option ℕ) (tick : ℤ)
    {lane : ℕ} (hlane : lane ≠ 1) (quantum n laneBytes : ℕ) :
    Round.laneLoop probeSequence tick lane quantum n laneBytes r = (r, false) := by
  cases n with
  | zero => rfl
  | succ n => simp [Round.laneLoop, h.advance, h.laneCharge_other hlane]

/-- The lane of retransmissions sends at least one frame if one waits. -/
theorem laneLoop_one (probeSequence : Option ℕ) (tick : ℤ) (quantum : ℕ) :
    ∀ (n laneBytes : ℕ) {r : Round} {k : ℕ}, Probing B L flight e t r k →
      ∃ k', k ≤ k' ∧
        Probing B L flight e t (Round.laneLoop probeSequence tick 1 quantum n laneBytes r).1 k' ∧
        ((Round.laneLoop probeSequence tick 1 quantum n laneBytes r).2 = true →
          k' = flight.length) ∧
        (r.progressed = true →
          (Round.laneLoop probeSequence tick 1 quantum n laneBytes r).1.progressed = true) ∧
        (k < flight.length → laneBytes < quantum → 0 < n → k < k' ∧
          (Round.laneLoop probeSequence tick 1 quantum n laneBytes r).1.progressed = true)
  | 0, _, r, k, h => ⟨k, le_rfl, h, by simp [Round.laneLoop], id, by omega⟩
  | n + 1, laneBytes, r, k, h => by
    unfold Round.laneLoop
    by_cases hq : quantum ≤ laneBytes
    · rw [if_pos hq]
      exact ⟨k, le_rfl, h, by simp, id, by omega⟩
    rw [if_neg hq]
    simp only [h.advance, h.laneCharge_one]
    rcases hp : flight[k]? with _ | p
    · refine ⟨k, le_rfl, h, by simp, id, fun hlt => ?_⟩
      simp [List.getElem?_eq_getElem hlt] at hp
    · have hsend := h.laneSend probeSequence tick hp
      obtain ⟨hlt, hpk⟩ := List.getElem?_eq_some_iff.mp hp
      have hfits := h.fits
      rw [List.drop_eq_getElem_cons hlt, List.map_cons, List.sum_cons, hpk] at hfits
      simp only [Option.map_some]
      rw [if_neg (by omega)]
      split_ifs with hfull
      · exact ⟨k + 1, by omega, hsend, fun _ => hsend.full hfull, fun _ => rfl,
          fun _ _ _ => ⟨Nat.lt_succ_self k, rfl⟩⟩
      · obtain ⟨k', hk', h1, h2, h3, -⟩ :=
          laneLoop_one probeSequence tick quantum n (laneBytes + p.packet.size) hsend
        exact ⟨k', by omega, h1, h2, fun _ => h3 rfl, fun _ _ _ => ⟨hk', h3 rfl⟩⟩

/-- A round over lanes with the one of retransmissions among them. -/
theorem laneRound (probeSequence : Option ℕ) (tick : ℤ) {quantum : ℕ} (hquantum : 0 < quantum)
    (start : ℕ) :
    ∀ (offsets : List ℕ) {r : Round} {k : ℕ}, Probing B L flight e t r k →
      ∃ k', k ≤ k' ∧
        Probing B L flight e t
          (Round.laneRound probeSequence tick quantum start offsets r).1 k' ∧
        ((Round.laneRound probeSequence tick quantum start offsets r).2 = true →
          k' = flight.length) ∧
        (r.progressed = true →
          (Round.laneRound probeSequence tick quantum start offsets r).1.progressed = true) ∧
        (k < flight.length → (∃ offset ∈ offsets, (start + offset) % 3 = 1) → k < k' ∧
          (Round.laneRound probeSequence tick quantum start offsets r).1.progressed = true)
  | [], r, k, h => ⟨k, le_rfl, h, by simp [Round.laneRound], id, by simp⟩
  | offset :: offsets, r, k, h => by
    unfold Round.laneRound
    by_cases hlane : (start + offset) % 3 = 1
    · rw [hlane]
      obtain ⟨k1, hk1, h1, h2, h3, h4⟩ :=
        laneLoop_one probeSequence tick quantum (r.waiting + 1) 0 h
      generalize Round.laneLoop probeSequence tick 1 quantum (r.waiting + 1) 0 r = result at *
      obtain ⟨r1, stop⟩ := result
      simp only at h1 h2 h3 h4 ⊢
      split_ifs with hstop
      · exact ⟨k1, hk1, h1, fun _ => h2 hstop, h3,
          fun hlt _ => h4 hlt hquantum (Nat.succ_pos _)⟩
      · obtain ⟨k2, hk2, g1, g2, g3, -⟩ := laneRound probeSequence tick hquantum start offsets h1
        refine ⟨k2, hk1.trans hk2, g1, g2, fun hp => g3 (h3 hp), fun hlt _ => ?_⟩
        obtain ⟨hlt1, hp1⟩ := h4 hlt hquantum (Nat.succ_pos _)
        exact ⟨hlt1.trans_le hk2, g3 hp1⟩
    · rw [h.laneLoop_other probeSequence tick hlane]
      obtain ⟨k2, hk2, g1, g2, g3, g4⟩ := laneRound probeSequence tick hquantum start offsets h
      refine ⟨k2, hk2, g1, g2, g3, fun hlt hex => g4 hlt ?_⟩
      obtain ⟨o, ho, h1⟩ := hex
      rcases List.mem_cons.mp ho with rfl | ho
      · exact absurd h1 hlane
      · exact ⟨o, ho, h1⟩

theorem nextLane_lt (h : Probing B L flight e t r k) : r.scheduler.nextLane < 3 :=
  (h.replaying.wf.wf.scheduled r.scheduler rfl).2.2.1

/-- The rounds send the whole flight. -/
theorem rounds (probeSequence : Option ℕ) (tick : ℤ) {quantum : ℕ} (hquantum : 0 < quantum) :
    ∀ (n : ℕ) {r : Round} {k : ℕ}, Probing B L flight e t r k → flight.length - k ≤ n →
      Probing B L flight e t (Round.rounds probeSequence tick quantum n r) flight.length
  | 0, r, k, h, hn => by
    have hk : k = flight.length := by
      have := h.le
      omega
    exact hk ▸ h
  | n + 1, r, k, h, hn => by
    have hclear : Probing B L flight e t { r with progressed := false } k := { h with }
    obtain ⟨k', hk', h1, h2, -, h4⟩ :=
      laneRound probeSequence tick hquantum r.scheduler.nextLane [0, 1, 2] hclear
    have hlane : ∃ offset ∈ [0, 1, 2], (r.scheduler.nextLane + offset) % 3 = 1 := by
      have := h.nextLane_lt
      interval_cases r.scheduler.nextLane <;> decide
    unfold Round.rounds
    generalize Round.laneRound probeSequence tick quantum r.scheduler.nextLane [0, 1, 2]
      { r with progressed := false } = result at *
    obtain ⟨r1, stop⟩ := result
    simp only at h1 h2 h4 ⊢
    have hle := h1.le
    split_ifs with hstop
    · suffices k' = flight.length from this ▸ h1
      rcases Bool.or_eq_true_iff.mp hstop with hs | hp
      · exact h2 hs
      · by_contra hne
        have := (h4 (by omega) hlane).2
        simp [this] at hp
    · refine rounds probeSequence tick hquantum n h1 ?_
      by_cases hlt : k < flight.length
      · have := (h4 hlt hlane).1
        omega
      · omega

end Probing

end RustRaknet.Send
