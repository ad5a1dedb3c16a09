import RustRaknet.Send.Ledger

/-! # The send queue follows its ledger: insertion and policies

Every operation of the queue is a sequence of moves of its ledger. `Wf` is what the proof carries
along: the 24-bit counters of the queue are the counts of its log, frames in flight are reliable,
and between flushes no probe is half way. `Moves B q q'` says that going from `q` to `q'` is such a
sequence, and keeps `Wf`; this module has the rules to put moves together, insertion and the change
of policies. Feedback and flush are in the modules after it. -/

namespace RustRaknet.Send

open RustRaknet.Frame RustRaknet.Sequence RustRaknet.Indexes RustRaknet.Lib.Result Ledger

/-! ### What the queue keeps -/

/-- The indexes of the queue are the counts of its log. -/
structure Indexed (limit : ℕ) (log : List Message) (reliable : ℕ)
    (ordered sequenced : ChannelIndexes) (compound : ℕ) : Prop where
  reliable : reliable = (counters limit log).reliable % 16777216
  ordered : ∀ c, ordered.get c = (counters limit log).ordered c % 16777216
  sequenced : ∀ c, sequenced.get c = (counters limit log).sequenced c % 16777216
  compound : compound = (counters limit log).compound % 65536

/-- What every operation of the queue keeps. -/
structure Wf (B : Build) (q : SendQ) : Prop where
  indexed : Indexed ((q.mtu : ℕ) - 60) q.log q.reliableFrameIndex q.orderedFrameIndexes
    q.sequencedFrameIndexes q.compoundId
  numbered : q.sequenceNumber = q.allocated % 16777216
  reliable : ∀ p ∈ q.sentPacket, p.packet.isReliable = true
  scheduled : ∀ s, q.scheduler = some s → B.sendPolicy = true ∧ s.persistent = true ∧
    s.nextLane < 3 ∧ (∀ f ∈ s.unreliable, f.isReliable = false) ∧
    ∀ f ∈ q.packets, f.isReliable = true
  room : (q.packets ≠ [] ∨ q.sentPacket ≠ []) → 60 < (q.mtu : ℕ)
  probePacked : ∀ r, q.recovery = some r → r.probePacked = false

theorem wf_new (B : Build) (mtu : Fin 65536) : Wf B (SendQ.new mtu) where
  indexed := ⟨rfl, fun c => by simp [SendQ.new, counters, Counters.zero],
    fun c => by simp [SendQ.new, counters, Counters.zero], rfl⟩
  numbered := rfl
  reliable p hp := by cases hp
  scheduled s hs := by cases hs
  room h := by simp [SendQ.new] at h
  probePacked r hr := by cases hr

/-- The ledger of a queue whose output and history are given. -/
abbrev SendQ.ledger (q : SendQ) (o : OutgoingFrames) (e : List QueuedFrame) (t : List Retired) :
    Ledger :=
  Run.ledger ⟨q, o, e, t⟩

section moves

variable {B : Build}

/-- Going from `q` to `q'` is a sequence of moves of the ledger. -/
def Moves (B : Build) (q q' : SendQ) : Prop :=
  Wf B q → Wf B q' ∧ ∀ o e t, Steps (q.ledger o e t) (q'.ledger o e t)

theorem Moves.refl (q : SendQ) : Moves B q q := fun h => ⟨h, fun _ _ _ => .refl⟩

theorem Moves.trans {q q' q'' : SendQ} (h : Moves B q q') (h' : Moves B q' q'') : Moves B q q'' := by
  intro hw
  obtain ⟨hw', hs⟩ := h hw
  obtain ⟨hw'', hs'⟩ := h' hw'
  exact ⟨hw'', fun o e t => (hs o e t).trans (hs' o e t)⟩

theorem Moves.ite {c : Prop} [Decidable c] {q q' q'' : SendQ} (h : Moves B q q')
    (h' : Moves B q q'') : Moves B q (if c then q' else q'') := by
  split_ifs
  · exact h
  · exact h'

theorem Moves.silent {q q' : SendQ} (hwf : Wf B q → Wf B q')
    (h : ∀ o e t, q'.ledger o e t = q.ledger o e t) : Moves B q q' :=
  fun hw => ⟨hwf hw, fun o e t => by rw [h]⟩

theorem steps_of_eq {L L' L'' : Ledger} (h : Step L L') (he : L' = L'') : Steps L L'' :=
  he ▸ .single h

end moves

/-! ### Small facts -/

@[simp] theorem numbered_isReliable (f : QueuedFrame) (s d : ℕ) :
    (f.numbered s d).isReliable = f.isReliable := rfl

@[simp] theorem numbered_size (f : QueuedFrame) (s d : ℕ) : (f.numbered s d).size = f.size := rfl

@[simp] theorem numbered_charge (f : QueuedFrame) (s d : ℕ) : charge (f.numbered s d) = charge f :=
  rfl

@[simp] theorem body_numbered (f : QueuedFrame) (s d : ℕ) : (f.numbered s d).body = f.body := rfl

@[simp] theorem timeless_packet (p : InFlight) : p.timeless.packet = p.packet := rfl

@[simp] theorem timeless_sent (p : InFlight) : p.timeless.sent = p.sent := rfl

@[simp] theorem timeless_ids (p : InFlight) : p.timeless.ids = p.ids := rfl

theorem fromPayload_isReliable (f : FrameSetPacket) (m d : ℕ) {r : Reliability}
    (h : f.reliability = .ok r) : (QueuedFrame.mk f m d).isReliable = r.isReliable := by
  simp [QueuedFrame.isReliable, FrameSetPacket.isReliable, h]

theorem single_reliability (c : Counters) (m : Message) :
    (m.single c).reliability = .ok m.reliability := by
  simp [Message.single, FrameSetPacket.reliability, FrameSetPacket.fromPayload]

theorem fragment_reliability (limit number : ℕ) (c : Counters) (m : Message) (i : ℕ) :
    (m.fragment limit number c i).reliability = .ok .reliableOrdered := by
  simp [Message.fragment, FrameSetPacket.reliability, FrameSetPacket.fromPayload]

theorem frames_isReliable {limit number : ℕ} {c : Counters} {m : Message} {f : QueuedFrame}
    (h : f ∈ m.frames limit number c) : f.isReliable = m.reliability.isReliable := by
  unfold Message.frames at h
  split_ifs at h with hf
  · obtain ⟨i, -, rfl⟩ := List.mem_map.mp h
    rw [fromPayload_isReliable _ _ _ (fragment_reliability limit number c m i), hf.1]
  · rw [List.mem_singleton.mp h, fromPayload_isReliable _ _ _ (single_reliability c m)]

theorem framesOf_single {L : Ledger} {m : Message} (h : ¬ m.Fragmented L.limit) :
    L.framesOf m = [⟨m.single (counters L.limit L.log), L.log.length, 0⟩] := by
  simp [framesOf, Message.frames, h]

/-! ### Insertion -/

section insertion

variable {B : Build} {q : SendQ}

theorem maxPayload_ok {n : ℕ} (h : q.maxPayload = .ok n) : n = (q.mtu : ℕ) - 60 ∧ 0 < n := by
  unfold SendQ.maxPayload at h
  split_ifs at h with h0
  cases h
  exact ⟨rfl, by omega⟩

/-- What `required_bytes` has checked. -/
theorem requiredBytes_ok {m : Message} {n : ℕ}
    (h : q.requiredBytes m.reliability m.payload.length = .ok n) :
    n = m.cost ((q.mtu : ℕ) - 60) ∧ 60 < (q.mtu : ℕ) ∧ m.count ((q.mtu : ℕ) - 60) ≤ 65536 := by
  unfold SendQ.requiredBytes at h
  obtain ⟨payload, hp, h⟩ := bind_eq_ok.mp h
  obtain ⟨rfl, hpos⟩ := maxPayload_ok hp
  obtain ⟨hc, h⟩ := guard_eq_ok.mp h
  obtain ⟨-, h⟩ := guard_eq_ok.mp h
  cases h
  exact ⟨rfl, by omega, not_lt.mp hc⟩

theorem foldl_pushReliable (g : ℕ → FrameSetPacket) {R : ℕ}
    (hR : q.reliableFrameIndex = R % 16777216) :
    ∀ n, ((List.range n).map g).foldl SendQ.pushReliable q =
      { q with
        packets := q.packets ++ (List.range n).map fun i =>
          ⟨{ g i with reliableFrameIndex := (R + i) % 16777216 }, q.log.length, 0⟩
        reliableFrameIndex := (R + n) % 16777216 }
  | 0 => by simp [← hR]
  | n + 1 => by
    rw [List.range_succ, List.map_append, List.foldl_append, foldl_pushReliable g hR n]
    simp only [List.map_cons, List.map_nil, List.foldl_cons, List.foldl_nil, SendQ.pushReliable,
      next_mod, List.map_append, List.append_assoc, Nat.add_assoc]

theorem get_advance {i : ChannelIndexes} {n : ℕ → ℕ} (h : ∀ c, i.get c = n c % 16777216)
    (channel : ℕ) :
    ∀ c, (i.set channel (next (i.get channel))).get c =
      (Function.update n channel (n channel + 1)) c % 16777216 := by
  intro c
  rw [ChannelIndexes.get_set, h channel, next_mod]
  split_ifs with hc
  · subst hc; simp
  · rw [Function.update_of_ne hc, h c]

theorem count_single {limit : ℕ} {m : Message} (h : ¬ m.Fragmented limit) : m.count limit = 1 := by
  unfold Message.count SendQ.frameCount
  exact if_neg h

theorem count_pos {limit : ℕ} (m : Message) (h : 0 < limit) : 0 < m.count limit := by
  unfold Message.count SendQ.frameCount
  split_ifs
  · exact Nat.div_pos (by omega) h
  · exact Nat.one_pos

/-- The unreliable modes: the frame is pushed as it is. -/
theorem pushMessage_unreliable {m : Message} {limit : ℕ} {q' : SendQ} (hw : Wf B q)
    (hlimit : limit = (q.mtu : ℕ) - 60) (hr : m.reliability.isReliable = false)
    (h : q.pushMessage B m limit = .ok q') :
    m.payload.length ≤ limit ∧ ¬ m.Fragmented limit ∧ ∃ sequenced,
      q' = SendQ.pushUnreliable B { q with sequencedFrameIndexes := sequenced }
        (m.single (counters limit q.log)) ∧
      Indexed limit (q.log ++ [m]) q.reliableFrameIndex q.orderedFrameIndexes sequenced
        q.compoundId := by
  subst hlimit
  obtain ⟨h1, h2, h3, h4⟩ := hw.indexed
  have hf : ¬ m.Fragmented ((q.mtu : ℕ) - 60) := by
    rintro ⟨ho, -⟩
    rw [ho] at hr
    cases hr
  cases hm : m.reliability <;> rw [hm] at hr <;> try cases hr
  · simp only [SendQ.pushMessage, hm] at h
    obtain ⟨hlen, h⟩ := guard_eq_ok.mp h
    cases h
    refine ⟨not_lt.mp hlen, hf, q.sequencedFrameIndexes, ?_, ?_, ?_, ?_, ?_⟩
    · simp [Message.single, hm, Reliability.isReliable, Reliability.isOrdered,
        Reliability.isSequenced, FrameSetPacket.fromPayload]
    all_goals simp only [counters_append, Counters.add, hm, hf, Reliability.isReliable,
      Reliability.isSequenced, reduceCtorEq, Bool.false_eq_true, if_false, Nat.add_zero]
    all_goals assumption
  · simp only [SendQ.pushMessage, hm] at h
    obtain ⟨hlen, h⟩ := guard_eq_ok.mp h
    cases h
    refine ⟨not_lt.mp hlen, hf, (q.advanceSequenced m.channel).sequencedFrameIndexes, ?_, ?_, ?_,
      ?_, ?_⟩
    · simp only [Message.single, hm, Reliability.isReliable, Reliability.isOrdered,
        Reliability.isSequenced, FrameSetPacket.fromPayload, ← h2, ← h3, Bool.false_eq_true,
        if_false, if_true, SendQ.advanceSequenced]
    all_goals simp only [counters_append, Counters.add, hm, hf, Reliability.isReliable,
      Reliability.isSequenced, reduceCtorEq, Bool.false_eq_true, if_false, if_true, Nat.add_zero]
    · assumption
    · assumption
    · exact get_advance h3 m.channel
    · assumption

/-- The fragments of a message are its frames. -/
theorem pushFragments_eq {m : Message} {limit : ℕ} (hw : Wf B q) (hlimit : limit = (q.mtu : ℕ) - 60)
    (hf : m.Fragmented limit) :
    q.pushFragments m limit = { q with
      packets := q.packets ++ m.frames limit q.log.length (counters limit q.log)
      remaining := Function.update q.remaining q.log.length (m.count limit)
      reliableFrameIndex := ((counters limit q.log).reliable + m.count limit) % 16777216
      compoundId := (q.compoundId + 1) % 65536 } := by
  subst hlimit
  obtain ⟨h1, h2, -, h4⟩ := hw.indexed
  have hcount : (m.payload.length + ((q.mtu : ℕ) - 60) - 1) / ((q.mtu : ℕ) - 60) =
      m.count ((q.mtu : ℕ) - 60) := by
    simp [Message.count, SendQ.frameCount, hf.1, hf.2]
  unfold SendQ.pushFragments
  simp only [hcount]
  rw [foldl_pushReliable _ (q := q.share _) (R := (counters ((q.mtu : ℕ) - 60) q.log).reliable) h1]
  simp only [Message.frames, if_pos hf, Message.fragment, SendQ.fragmentFrame, SendQ.share,
    SendQ.nextCompound, h2, h4]

/-- The reliable modes: the frames of the message are queued. -/
theorem pushMessage_reliable {m : Message} {limit : ℕ} {q' : SendQ} (hw : Wf B q)
    (hlimit : limit = (q.mtu : ℕ) - 60) (hr : m.reliability.isReliable = true)
    (h : q.pushMessage B m limit = .ok q') :
    (m.Fragmented limit ∨ m.payload.length ≤ limit) ∧ ∃ reliable ordered sequenced compound,
      q' = { q with
        packets := q.packets ++ m.frames limit q.log.length (counters limit q.log)
        remaining := if m.Fragmented limit then
          Function.update q.remaining q.log.length (m.count limit) else q.remaining
        reliableFrameIndex := reliable
        orderedFrameIndexes := ordered
        sequencedFrameIndexes := sequenced
        compoundId := compound } ∧
      Indexed limit (q.log ++ [m]) reliable ordered sequenced compound := by
  obtain ⟨h1, h2, h3, h4⟩ := hlimit ▸ hw.indexed
  by_cases hf : m.Fragmented limit
  · refine ⟨.inl hf, ((counters limit q.log).reliable + m.count limit) % 16777216,
      (q.advanceOrdered m.channel).orderedFrameIndexes, q.sequencedFrameIndexes,
      (q.compoundId + 1) % 65536, ?_, ?_, ?_, ?_, ?_⟩
    · simp only [SendQ.pushMessage, hf.1, if_neg (not_le.mpr hf.2), Except.ok.injEq,
        pushFragments_eq hw hlimit hf] at h
      rw [← h, if_pos hf]
      rfl
    all_goals simp only [counters_append, Counters.add, hf.1, if_pos hf, Reliability.isReliable,
      Reliability.isSequenced, Bool.false_eq_true, if_true, if_false]
    · exact get_advance h2 m.channel
    · exact h3
    · omega
  · have hlen : m.payload.length ≤ limit := by
      by_contra hc
      unfold SendQ.pushMessage at h
      cases hm : m.reliability <;> rw [hm] at hr h <;> try cases hr
      · simp [not_le.mp hc] at h
      · exact hf ⟨hm, not_le.mp hc⟩
      · simp [not_le.mp hc] at h
    refine ⟨.inr hlen, ((counters limit q.log).reliable + 1) % 16777216,
      if m.reliability = .reliableOrdered then (q.advanceOrdered m.channel).orderedFrameIndexes
        else q.orderedFrameIndexes,
      if m.reliability.isSequenced then (q.advanceSequenced m.channel).sequencedFrameIndexes
        else q.sequencedFrameIndexes, q.compoundId, ?_, ?_, ?_, ?_, ?_⟩
    · unfold SendQ.pushMessage at h
      cases hm : m.reliability <;> rw [hm] at hr h <;> try cases hr
      all_goals
        simp only [hlen, not_lt.mpr hlen, if_false, if_true, Except.ok.injEq] at h
        rw [← h, if_neg hf]
        simp [Message.frames, hf, Message.single, hm, Reliability.isReliable, Reliability.isOrdered,
          Reliability.isSequenced, FrameSetPacket.fromPayload, SendQ.pushReliable,
          SendQ.advanceOrdered, SendQ.advanceSequenced, h1, h2, h3]
    all_goals simp only [counters_append, Counters.add, if_neg hf, hr, if_true, count_single hf,
      Nat.add_zero]
    · intro c
      split_ifs
      · exact get_advance h2 m.channel c
      · exact h2 c
    · intro c
      split_ifs
      · exact get_advance h3 m.channel c
      · exact h3 c
    · exact h4

/-- An unreliable message goes to the queue or to the scheduler. -/
theorem pushUnreliable_moves {m : Message} {sequenced : ChannelIndexes} (hw : Wf B q)
    (hr : m.reliability.isReliable = false) (hf : ¬ m.Fragmented ((q.mtu : ℕ) - 60))
    (hadm : ∀ o e t, (q.ledger o e t).Admits m)
    (hidx : Indexed ((q.mtu : ℕ) - 60) (q.log ++ [m]) q.reliableFrameIndex q.orderedFrameIndexes
      sequenced q.compoundId) :
    let q' := (SendQ.pushUnreliable B { q with sequencedFrameIndexes := sequenced }
      (m.single (counters ((q.mtu : ℕ) - 60) q.log))).book B m (m.cost ((q.mtu : ℕ) - 60))
    Wf B q' ∧ ∀ o e t, Steps (q.ledger o e t) (q'.ledger o e t) := by
  have hmode : SendQ.unreliableMode m.reliability = true := by simp [SendQ.unreliableMode, hr]
  have hmtu : 60 < (q.mtu : ℕ) := by
    have := (hadm .empty [] []).limit_pos
    simp only [Run.ledger] at this
    omega
  have hframes : ∀ o e t, (q.ledger o e t).framesOf m =
      [⟨m.single (counters ((q.mtu : ℕ) - 60) q.log), q.log.length, 0⟩] := fun o e t =>
    framesOf_single hf
  unfold SendQ.pushUnreliable
  cases hB : B.sendPolicy
  · have hs : q.scheduler = none := by
      by_contra hc
      obtain ⟨s, hs⟩ := Option.ne_none_iff_exists'.mp hc
      exact Bool.false_ne_true (hB.symm.trans (hw.scheduled s hs).1)
    refine ⟨⟨hidx, hw.numbered, hw.reliable, fun s hs' => ?_, fun _ => hmtu, hw.probePacked⟩,
      fun o e t => ?_⟩
    · cases hs.symm.trans hs'
    refine steps_of_eq (Step.acceptUnreliable (hadm o e t) hr ?_) ?_
    · simp [Run.ledger, hs]
    · rw [hframes]
      simp [Run.ledger, SendQ.book, Ledger.book, hs, hB, hmode]
  · cases hs : q.scheduler with
    | none =>
      refine ⟨⟨hidx, ?_, hw.reliable, ?_, fun _ => hmtu, hw.probePacked⟩, fun o e t => ?_⟩
      · simp [SendQ.book, hw.numbered]
      · simp [SendQ.book]
      · refine steps_of_eq (Step.acceptNumbered (hadm o e t) hr ?_) ?_
        · simp [Run.ledger, hs]
        · rw [hframes]
          simp [Run.ledger, SendQ.book, Ledger.book, Ledger.fresh, hs, hB, hw.numbered]
    | some sch =>
      refine ⟨⟨hidx, hw.numbered, hw.reliable, ?_, fun _ => hmtu, hw.probePacked⟩, fun o e t => ?_⟩
      · rintro s hs'
        simp only [SendQ.book, if_true, Option.some.injEq] at hs'
        subst hs'
        obtain ⟨hB, hpersistent, hlane, hunreliable, hpackets⟩ := hw.scheduled sch hs
        refine ⟨hB, hpersistent, hlane, fun f hf => ?_, hpackets⟩
        rcases List.mem_append.mp hf with hf | hf
        · exact hunreliable f hf
        · rw [List.mem_singleton.mp hf, fromPayload_isReliable _ _ _ (single_reliability _ m), hr]
      · refine steps_of_eq (Step.acceptScheduled (hadm o e t) hr ?_) ?_
        · simp [Run.ledger, hs]
        · rw [hframes]
          simp [Run.ledger, SendQ.book, Ledger.book, hs, hB]

/-- **Insertion** is one move. -/
theorem insertPayload_moves {m : Message} {q' : SendQ} (h : q.insertPayload B m = .ok q') :
    Moves B q q' := by
  intro hw
  obtain ⟨reserved, limit, pushed, hres, hbudget, hlimit, hpush, rfl⟩ := insertPayload_ok h
  obtain ⟨rfl, hmtu, hcount⟩ := requiredBytes_ok hres
  obtain ⟨rfl, hpos⟩ := maxPayload_ok hlimit
  have hpositive : 0 < m.cost ((q.mtu : ℕ) - 60) := by
    have := count_pos m hpos
    rw [Message.cost, frameBudget_eq]
    omega
  have hadm : (m.Fragmented ((q.mtu : ℕ) - 60) ∨ m.payload.length ≤ (q.mtu : ℕ) - 60) →
      ∀ o e t, (q.ledger o e t).Admits m := fun hfit o e t =>
    ⟨hpos, hfit, hcount, by simp only [Run.ledger]; omega⟩
  cases hr : m.reliability.isReliable
  · obtain ⟨hlen, hf, sequenced, rfl, hidx⟩ := pushMessage_unreliable hw rfl hr hpush
    exact pushUnreliable_moves hw hr hf (hadm (.inr hlen)) hidx
  · obtain ⟨hfit, reliable, ordered, sequenced, compound, rfl, hidx⟩ :=
      pushMessage_reliable hw rfl hr hpush
    refine ⟨⟨hidx, hw.numbered, hw.reliable, fun s hs => ?_, fun _ => hmtu, hw.probePacked⟩,
      fun o e t => steps_of_eq (Step.acceptReliable (hadm hfit o e t) hr) ?_⟩
    · obtain ⟨hB, hpersistent, hlane, hunreliable, hpackets⟩ := hw.scheduled s hs
      refine ⟨hB, hpersistent, hlane, hunreliable, fun f hf => ?_⟩
      rcases List.mem_append.mp hf with hf | hf
      · exact hpackets f hf
      · exact (frames_isReliable hf).trans hr
    · simp [Run.ledger, SendQ.book, Ledger.book, Ledger.framesOf, SendQ.unreliableMode, hr]

end insertion

/-! ### Policies -/

section policies

variable {B : Build} {q : SendQ}

theorem enableCoalescing_moves : Moves B q q.enableCoalescing :=
  .silent (fun hw => { hw with }) fun _ _ _ => rfl

theorem ensureScheduler_moves (hB : B.sendPolicy = true) : Moves B q q.ensureScheduler := by
  intro hw
  unfold SendQ.ensureScheduler
  cases hs : q.scheduler with
  | some s => exact ⟨hw, fun _ _ _ => .refl⟩
  | none =>
    refine ⟨{ hw with scheduled := ?_, room := ?_ }, fun o e t => ?_⟩
    · rintro s hs'
      cases hs'
      refine ⟨hB, rfl, Nat.lt_succ_self 2, fun f hf => ?_, fun f hf => (List.mem_filter.mp hf).2⟩
      simpa using (List.mem_filter.mp hf).2
    · rintro (h | h)
      · refine hw.room (.inl fun h0 => h ?_)
        simp [h0]
      · exact hw.room (.inr h)
    · refine steps_of_eq (Step.migrate (L := q.ledger o e t) ?_) ?_
      · simp [Run.ledger, hs]
      · simp [Run.ledger]

theorem configure_moves (options : SendOptions) : Moves B q (q.configure options) := by
  refine .silent (fun hw => { hw with scheduled := ?_ }) ?_
  · rintro s hs
    obtain ⟨s', hs', rfl⟩ := Option.map_eq_some_iff.mp hs
    obtain ⟨hB, -, hlane⟩ := hw.scheduled s' hs'
    exact ⟨hB, rfl, hlane⟩
  · intro o e t
    cases hs : q.scheduler <;> simp [Run.ledger, SendQ.configure, hs]

theorem setSendOptions_moves {options : SendOptions} {q' : SendQ} (hB : B.sendPolicy = true)
    (h : q.setSendOptions options = .ok q') : Moves B q q' := by
  unfold SendQ.setSendOptions at h
  obtain ⟨-, h⟩ := guard_eq_ok.mp h
  cases h
  exact (ensureScheduler_moves hB).trans (configure_moves options)

theorem setRecoveryOptions_moves (options : RecoveryOptions) (now : ℤ) :
    Moves B q (q.setRecoveryOptions options now) := by
  refine .silent (fun hw => { hw with probePacked := ?_ }) fun _ _ _ => rfl
  intro r hr
  simp only [SendQ.setRecoveryOptions] at hr
  split_ifs at hr
  cases hr
  rfl

end policies

end RustRaknet.Send
