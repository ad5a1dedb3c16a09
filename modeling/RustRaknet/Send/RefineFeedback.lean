import RustRaknet.Send.Refine

/-! # The send queue follows its ledger: feedback

A negative acknowledgement, and the frames an acknowledgement takes for lost, are moves `renumber`;
each frame an acknowledgement covers is a move `retire`, and the last one may be followed by
`ungroup`. The scan of `ack_ranges_inner` gives the budget back once at its end, the ledger with
every frame; `settled` is the state half way through the scan. -/

namespace RustRaknet.Send

open RustRaknet.Frame RustRaknet.Sequence Ledger

variable {B : Build}

/-! ### Lost frames -/

theorem reissue_moves {q : SendQ} {i : ℕ} {item : InFlight} (time : ℤ)
    (h : q.sentPacket[i]? = some item) (hs : item.sent = true) :
    Moves B q (q.reissue i item time) := by
  intro hw
  refine ⟨⟨hw.indexed, ?_, ?_, hw.scheduled, ?_, hw.probePacked⟩, fun o e t => ?_⟩
  · simp [SendQ.reissue, hw.numbered]
  · intro p hp
    rcases List.mem_or_eq_of_mem_set hp with hp | rfl
    · exact hw.reliable p hp
    · exact hw.reliable item (List.mem_of_getElem? h)
  · rintro (h' | h')
    · exact hw.room (.inl h')
    · exact hw.room (.inr fun h0 => h' (by simp [SendQ.reissue, h0]))
  · refine steps_of_eq (Step.renumber (L := q.ledger o e t) (i := i) (p := item.timeless) ?_ hs) ?_
    · simp [Run.ledger, h]
    · simp [Run.ledger, SendQ.reissue, List.map_set, renumbered, hw.numbered, InFlight.timeless,
        InFlight.renumber]

theorem nackRule_moves : NackRule (Moves B) where
  refl := .refl
  trans := .trans
  reissue h hs time := reissue_moves time h hs

/-! ### Clocks -/

theorem updateRto_moves (q : SendQ) (rtt : ℤ) : Moves B q (q.updateRto rtt) :=
  .silent (fun hw => { hw with }) fun _ _ _ => rfl

theorem advanceAck_moves (q : SendQ) (sequence : ℕ) : Moves B q (q.advanceAck sequence) :=
  .silent (fun hw => { hw with }) fun _ _ _ => rfl

theorem setLatency_moves (q : SendQ) (latency : ℤ × ℤ) : Moves B q (q.setLatency latency) :=
  .silent (fun hw => { hw with }) fun _ _ _ => rfl

/-- What `acknowledge_progress` changes: the recovery state and the clocks. -/
theorem progress_eq (B : Build) (q : SendQ) (retired sampled : Bool) (tick : ℤ) :
    ∃ recovery sentPacket nextRetry,
      q.progress B retired sampled tick = { q with recovery, sentPacket, nextRetry } ∧
      sentPacket.map InFlight.timeless = q.sentPacket.map InFlight.timeless ∧
      (∀ r, recovery = some r → ∃ r', q.recovery = some r' ∧ r.probePacked = r'.probePacked) := by
  have hsame : ∃ recovery sentPacket nextRetry, q = { q with recovery, sentPacket, nextRetry } ∧
      sentPacket.map InFlight.timeless = q.sentPacket.map InFlight.timeless ∧
      (∀ r, recovery = some r → ∃ r', q.recovery = some r' ∧ r.probePacked = r'.probePacked) :=
    ⟨q.recovery, q.sentPacket, q.nextRetry, rfl, rfl, fun r hr => ⟨r, hr, rfl⟩⟩
  unfold SendQ.progress SendQ.acknowledgeProgress
  split_ifs
  · split
    · exact hsame
    · next r hr =>
      simp only
      split_ifs
      · refine ⟨_, _, _, rfl, ?_, ?_⟩
        · rw [List.map_map]; rfl
        · rintro _ ⟨⟩
          exact ⟨r, hr, rfl⟩
      · refine ⟨_, _, _, rfl, rfl, ?_⟩
        rintro _ ⟨⟩
        exact ⟨r, hr, rfl⟩
  · exact hsame

theorem forall_timeless {l l' : List InFlight} {P : QueuedFrame → Prop}
    (h : l.map InFlight.timeless = l'.map InFlight.timeless) (hl : ∀ p ∈ l', P p.packet) :
    ∀ p ∈ l, P p.packet := by
  have hp : l.map InFlight.packet = l'.map InFlight.packet := by
    have := congrArg (List.map InFlight.packet) h
    rwa [List.map_map, List.map_map] at this
  intro p hmem
  have : p.packet ∈ l'.map InFlight.packet := hp ▸ List.mem_map_of_mem hmem
  obtain ⟨p', hp', he⟩ := List.mem_map.mp this
  exact he ▸ hl p' hp'

theorem progress_ledger (q : SendQ) (retired sampled : Bool) (tick : ℤ) (o : OutgoingFrames)
    (e : List QueuedFrame) (t : List Retired) :
    (q.progress B retired sampled tick).ledger o e t = q.ledger o e t := by
  obtain ⟨recovery, sentPacket, nextRetry, he, hsent, -⟩ := progress_eq B q retired sampled tick
  rw [he]
  simp [Run.ledger, hsent]

theorem progress_moves (q : SendQ) (retired sampled : Bool) (tick : ℤ) :
    Moves B q (q.progress B retired sampled tick) := by
  refine .silent (fun hw => ?_) (progress_ledger q retired sampled tick)
  obtain ⟨recovery, sentPacket, nextRetry, e, hsent, hrec⟩ := progress_eq B q retired sampled tick
  rw [e]
  refine ⟨hw.indexed, hw.numbered,
    forall_timeless (P := fun f => f.isReliable = true) hsent hw.reliable, hw.scheduled, ?_, ?_⟩
  · rintro (h | h)
    · exact hw.room (.inl h)
    · refine hw.room (.inr fun h0 => h ?_)
      simpa [h0] using hsent
  · intro r hr
    obtain ⟨r', hr', he⟩ := hrec r hr
    rw [he]
    exact hw.probePacked r' hr'

/-! ### Acknowledged frames -/

/-- Going from `q` to the second component retires the frames of the first. -/
def Retires (B : Build) (q : SendQ) (result : List Retired × SendQ) : Prop :=
  Wf B q → Wf B result.2 ∧
    ∀ o e t, Steps (q.ledger o e t) (result.2.ledger o e (t ++ result.1))

theorem Retires.then {q q' : SendQ} {retired : List Retired} {q'' : SendQ}
    (h : Retires B q (retired, q')) (h' : Moves B q' q'') : Retires B q (retired, q'') := by
  intro hw
  obtain ⟨hw', hs⟩ := h hw
  obtain ⟨hw'', hs'⟩ := h' hw'
  exact ⟨hw'', fun o e t => (hs o e t).trans (hs' o e _)⟩

theorem release_ledger (q : SendQ) (f : QueuedFrame) (o : OutgoingFrames) (e : List QueuedFrame)
    (t : List Retired) : (q.release f).ledger o e t = (q.ledger o e t).release f := by
  simp only [Run.ledger, SendQ.release, Ledger.release]

theorem Wf.release {q : SendQ} (hw : Wf B q) (f : QueuedFrame) : Wf B (q.release f) :=
  { hw with }

theorem Wf.remove {q : SendQ} (hw : Wf B q) (i : ℕ) : Wf B (q.remove i) := by
  refine { hw with reliable := fun p hp => hw.reliable p (List.mem_of_mem_eraseIdx hp), room := ?_ }
  rintro (h | h)
  · exact hw.room (.inl h)
  · exact hw.room (.inr fun h0 => h (by simp [SendQ.remove, h0]))

theorem ungroup_moves (q : SendQ) : Moves B q q.ungroup := by
  intro hw
  refine ⟨{ hw with }, fun o e t => ?_⟩
  cases hs : q.sentPacket with
  | nil =>
    refine steps_of_eq (Step.ungroup (L := q.ledger o e t) ?_) ?_
    · simp [Run.ledger, hs]
    · simp [Run.ledger, SendQ.ungroup, hs]
  | cons p l =>
    have : q.ungroup.ledger o e t = q.ledger o e t := by
      simp [Run.ledger, SendQ.ungroup, hs]
    rw [this]

theorem remove_release_retires {q : SendQ} {i : ℕ} {item : InFlight} {id : ℕ}
    (h : q.sentPacket[i]? = some item) (hid : id ∈ item.ids) :
    Retires B q ([⟨item.packet, id⟩], (q.remove i).release item.packet) := by
  intro hw
  refine ⟨(hw.remove i).release item.packet, fun o e t => ?_⟩
  refine steps_of_eq (Step.retire (L := q.ledger o e t) (i := i) (p := item.timeless) ?_ hid) ?_
  · simp [Run.ledger, h]
  · rw [release_ledger]
    simp [Run.ledger, Ledger.retireAt, Ledger.release, SendQ.remove, List.eraseIdx_map]

theorem expose_moves (q : SendQ) (previous newest : ℕ) (tick : ℤ) :
    Moves B q (q.expose previous newest tick) :=
  (nackRule_moves.nackAll q _).trans (advanceAck_moves _ newest)

theorem sampleRtt_moves (q : SendQ) (tick : ℤ) (item : InFlight) :
    Moves B q (q.sampleRtt B tick item) := by
  unfold SendQ.sampleRtt
  split_ifs
  · exact updateRto_moves q _
  · exact .refl q

/-- The release of a frame does not see what `progress` changed before it. -/
theorem progress_release_retires {q : SendQ} {i : ℕ} {item : InFlight} {id : ℕ} (sampled : Bool)
    (tick : ℤ) (h : q.sentPacket[i]? = some item) (hid : id ∈ item.ids) :
    Retires B q
      ([⟨item.packet, id⟩], ((q.remove i).progress B true sampled tick).release item.packet) := by
  intro hw
  refine ⟨((progress_moves _ _ _ tick) (hw.remove i)).1.release item.packet, fun o e t => ?_⟩
  have hstep := (remove_release_retires h hid hw).2 o e t
  simp only [release_ledger] at hstep ⊢
  rwa [progress_ledger]

theorem acknowledge_retires {q : SendQ} {i : ℕ} {item : InFlight} {sequence : ℕ} (tick : ℤ)
    (h : q.sentPacket[i]? = some item) (hid : sequence ∈ item.ids) :
    Retires B q ([⟨item.packet, sequence⟩], q.acknowledge B sequence tick i item) := by
  have hcomm : ∀ q : SendQ, q.ungroup.release item.packet = (q.release item.packet).ungroup :=
    fun _ => rfl
  simp only [SendQ.acknowledge, hcomm]
  refine Retires.then ?_ (sampleRtt_moves _ tick item)
  refine ((progress_release_retires (item.retries == 0 && item.previous.isEmpty) tick h hid).then
    (ungroup_moves _)).then (Moves.ite (expose_moves _ _ _ tick) (.refl _))

theorem ackSingle_retires (q : SendQ) (sequence : ℕ) (tick : ℤ) :
    Retires B q (q.ackSingle B sequence tick) := by
  obtain ⟨-, he⟩ | ⟨index, item, hitem, hfind, he⟩ := ackSingle_cases B q sequence tick <;> rw [he]
  · exact fun hw => ⟨hw, fun o e t => by rw [List.append_nil]⟩
  · exact acknowledge_retires tick hitem (by simpa using List.find?_some hfind)

/-! ### The scan -/

/-- The queue half way through the scan, before the frames `rest`. -/
def settled (q : SendQ) (s : SendQ.Scan) (rest : List InFlight) : SendQ :=
  q.settle { s with kept := s.kept ++ rest }

theorem sample_settled (q : SendQ) (s : SendQ.Scan) (grouped : Bool) (tick : ℤ) (item : InFlight)
    (id : ℕ) (rest : List InFlight) :
    settled q (s.sample B grouped tick item id) rest = settled q s rest ∧
      (s.sample B grouped tick item id).retired = s.retired := by
  unfold SendQ.Scan.sample
  split_ifs <;> exact ⟨rfl, rfl⟩

theorem scanItem_steps (q : SendQ) (grouped : Bool) (ranges : List (ℕ × ℕ)) (tick : ℤ)
    (s : SendQ.Scan) (item : InFlight) (rest : List InFlight) (o : OutgoingFrames)
    (e : List QueuedFrame) (t : List Retired) :
    Steps ((settled q s (item :: rest)).ledger o e (t ++ s.retired))
      ((settled q (SendQ.scanItem B grouped ranges tick s item) rest).ledger o e
        (t ++ (SendQ.scanItem B grouped ranges tick s item).retired)) := by
  unfold SendQ.scanItem
  cases hfind : item.ids.find? (SendQ.inRanges ranges) with
  | none =>
    have : settled q { s with kept := s.kept ++ [item] } rest = settled q s (item :: rest) := by
      simp [settled]
    simp only [this]
    exact .refl
  | some id =>
    obtain ⟨hs, hr⟩ := sample_settled (B := B) q (s.take item id) grouped tick item id rest
    simp only [hs, hr]
    refine steps_of_eq (@Step.retire _ s.kept.length item.timeless id ?_ ?_) ?_
    · simp [Run.ledger, settled, SendQ.settle]
    · exact List.mem_of_find?_eq_some hfind
    · have herase : ((s.kept ++ item :: rest).map InFlight.timeless).eraseIdx s.kept.length =
          (s.kept ++ rest).map InFlight.timeless := by
        simp [List.eraseIdx_append_of_length_le]
      have hfault : ∀ x : ℕ, (s.fault || decide (q.bufferedBytes < s.releasedBytes) ||
          SendQ.exhausted s.remaining item.packet ||
          decide (q.bufferedBytes - s.releasedBytes < x + frameBudget)) =
          (s.fault || SendQ.exhausted s.remaining item.packet ||
            decide (q.bufferedBytes < s.releasedBytes + (x + frameBudget))) := by
        intro x
        have := frameBudget_eq
        cases s.fault <;> cases SendQ.exhausted s.remaining item.packet <;>
          simp only [Bool.false_or, Bool.true_or, Bool.or_true, Bool.or_false]
        rw [← Bool.decide_or]
        exact decide_eq_decide.mpr (by omega)
      simp only [Run.ledger, settled, SendQ.settle, Ledger.retireAt, Ledger.release,
        SendQ.Scan.take, herase, timeless_packet, Nat.sub_sub, List.append_assoc, hfault]
      rfl

theorem scan_steps (q : SendQ) (grouped : Bool) (ranges : List (ℕ × ℕ)) (tick : ℤ)
    (o : OutgoingFrames) (e : List QueuedFrame) (t : List Retired) :
    ∀ (rest : List InFlight) (s : SendQ.Scan),
      Steps ((settled q s rest).ledger o e (t ++ s.retired))
        ((q.settle (rest.foldl (SendQ.scanItem B grouped ranges tick) s)).ledger o e
          (t ++ (rest.foldl (SendQ.scanItem B grouped ranges tick) s).retired))
  | [], s => by
    have : settled q s [] = q.settle s := by simp [settled]
    rw [this, List.foldl_nil]
  | item :: rest, s =>
    (scanItem_steps q grouped ranges tick s item rest o e t).trans
      (scan_steps q grouped ranges tick o e t rest _)

theorem settle_retires (q : SendQ) (grouped : Bool) (ranges : List (ℕ × ℕ)) (tick : ℤ) :
    Retires B q ((q.scan B grouped ranges tick).retired,
      q.settle (q.scan B grouped ranges tick)) := by
  intro hw
  have hkept : ∀ p ∈ (q.scan B grouped ranges tick).kept, p ∈ q.sentPacket := fun p hp =>
    List.mem_of_mem_filter (scan_kept B q grouped ranges tick ▸ hp)
  refine ⟨{ hw with reliable := fun p hp => hw.reliable p (hkept p hp), room := ?_ },
    fun o e t => ?_⟩
  · rintro (h | h)
    · exact hw.room (.inl h)
    · obtain ⟨p, hp⟩ := List.exists_mem_of_ne_nil _ h
      exact hw.room (.inr (List.ne_nil_of_mem (hkept p hp)))
  · have hsteps := scan_steps (B := B) q grouped ranges tick o e t q.sentPacket
      ⟨[], q.ackSequenceNumber, (q.srtt, q.rto), 0, none, false, q.remaining, q.fault, []⟩
    simp only [settled, SendQ.settle, List.nil_append, List.append_nil, Nat.sub_zero,
      Nat.not_lt_zero, decide_false, Bool.or_false] at hsteps
    exact hsteps

theorem ackScan_retires (q : SendQ) (grouped : Bool) (ranges : List (ℕ × ℕ)) (tick : ℤ) :
    Retires B q (q.ackScan B grouped ranges tick) := by
  exact (((settle_retires q grouped ranges tick).then (progress_moves _ _ _ tick)).then
    ((Moves.ite (ungroup_moves _) (.refl _)).trans (setLatency_moves _ _))).then
    (Moves.ite (expose_moves _ _ _ tick) (.refl _))

theorem ackRangesInner_retires (q : SendQ) (grouped : Bool) (ranges : List (ℕ × ℕ)) (tick : ℤ) :
    Retires B q (q.ackRangesInner B grouped ranges tick) := by
  unfold SendQ.ackRangesInner
  split
  · split_ifs
    · exact ackSingle_retires q _ tick
    · exact ackScan_retires q grouped _ tick
  · exact ackScan_retires q grouped _ tick

theorem ack_retires (q : SendQ) (sequence : ℕ) (tick : ℤ) :
    Retires B q (q.ack B sequence tick) := by
  unfold SendQ.ack
  split_ifs
  · exact ackRangesInner_retires q _ _ tick
  · exact ackSingle_retires q sequence tick

end RustRaknet.Send
