import RustRaknet.Link.Receive

/-! # What the receiver has delivered

The messages handed out on a channel are the first messages of the log on that channel, up to the
first that is not complete (`Receives`). A frame of the log, inserted and flushed, keeps it so; so
does a new message at the end of the log. -/

namespace RustRaknet.Link

open RustRaknet.Send RustRaknet.Frame RustRaknet.Lib.Serial RustRaknet.Recv RustRaknet.Sequence

/-! ### The messages of a channel -/

/-- The `ReliableOrdered` messages of a channel with their numbers in the log. -/
def orderedOn (c : ℕ) (log : List Message) : List (Message × ℕ) :=
  log.zipIdx.filter fun p => On c p.1

theorem orderedOn_append (c : ℕ) (log : List Message) (m : Message) :
    orderedOn c (log ++ [m]) =
      orderedOn c log ++ if On c m then [(m, log.length)] else [] := by
  unfold orderedOn
  rw [List.zipIdx_append, List.filter_append]
  congr 1
  by_cases h : On c m <;> simp [h]

theorem orderedOn_length (limit c : ℕ) (log : List Message) :
    (orderedOn c log).length = (counters limit log).ordered c := by
  induction log using List.reverseRecOn with
  | nil => rfl
  | append_singleton log m ih =>
    rw [orderedOn_append, counters_append, add_ordered, List.length_append, ih]
    split_ifs <;> rfl

/-- The rank of a message is its place among the messages of its channel. -/
theorem orderedOn_rank (limit : ℕ) {c k : ℕ} {log : List Message} {m : Message}
    (hk : log[k]? = some m) (hm : On c m) :
    (orderedOn c log)[(before limit log k).ordered c]? = some (m, k) := by
  induction log using List.reverseRecOn with
  | nil => cases hk
  | append_singleton log m' ih =>
    rw [orderedOn_append]
    rcases Nat.lt_or_ge k log.length with hlt | hge
    · rw [List.getElem?_append_left hlt] at hk
      have := ih hk
      rw [before_append m' hlt.le]
      rw [List.getElem?_append_left (List.getElem?_eq_some_iff.mp this).1, this]
    · have hlt := (List.getElem?_eq_some_iff.mp hk).1
      obtain rfl : k = log.length := by
        rw [List.length_append, List.length_singleton] at hlt
        omega
      obtain rfl : m' = m := by simpa using hk
      rw [before_append m' le_rfl, before_length, if_pos hm, ← orderedOn_length limit c log]
      exact List.getElem?_concat_length

/-! ### Payloads -/

/-- The frame is a `ReliableOrdered` message on the channel `c`. -/
def isOn (c : ℕ) (f : FrameSetPacket) : Bool :=
  match f.reliability with
  | .ok .reliableOrdered => f.orderChannel == c
  | _ => false

/-- The payloads of the `ReliableOrdered` frames of a channel. -/
def payloads (c : ℕ) (fs : List FrameSetPacket) : List Bytes :=
  (fs.filter (isOn c)).map fun f => f.data.deref

theorem payloads_append (c : ℕ) (l l' : List FrameSetPacket) :
    payloads c (l ++ l') = payloads c l ++ payloads c l' := by
  simp [payloads]

/-- The payloads of the messages of the log on a channel. -/
def messages (c : ℕ) (log : List Message) : List Bytes :=
  (orderedOn c log).map fun p => p.1.payload

section handed

variable {limit : ℕ} {log : List Message} {c : ℕ}

theorem handed_payloads : ∀ {fs : List FrameSetPacket} {n : ℕ},
    Handed (IsMessage limit log c) n fs → payloads c fs = ((messages c log).drop n).take fs.length
  | [], n, _ => by simp [payloads]
  | f :: fs, n, ⟨⟨hmode, hchannel, k, m, hk, hm, hrank, hdata⟩, hfs⟩ => by
    have hget : (messages c log)[n]? = some f.data.deref := by
      rw [messages, List.getElem?_map, ← hrank, orderedOn_rank limit hk hm, hdata]
      rfl
    obtain ⟨hlt, hget⟩ := List.getElem?_eq_some_iff.mp hget
    have hon : isOn c f = true := by simp [isOn, hmode, hchannel]
    rw [List.drop_eq_getElem_cons hlt, List.length_cons, List.take_succ_cons, hget,
      ← handed_payloads hfs]
    simp [payloads, hon]

theorem handed_others {c' : ℕ} (hc : c' ≠ c) : ∀ {fs : List FrameSetPacket} {n : ℕ},
    Handed (IsMessage limit log c) n fs → payloads c' fs = []
  | [], _, _ => rfl
  | f :: fs, n, ⟨hf, hfs⟩ => by
    have hoff : isOn c' f = false := by simp [isOn, hf.mode, hf.channel, Ne.symm hc]
    have := handed_others hc hfs
    simpa [payloads, hoff] using this

end handed

theorem payloads_off {c : ℕ} {fs : List FrameSetPacket}
    (h : ∀ f ∈ fs, f.reliability ≠ .ok .reliableOrdered) : payloads c fs = [] := by
  unfold payloads
  rw [List.filter_eq_nil_iff.mpr, List.map_nil]
  intro f hf
  have := h f hf
  unfold isOn
  split
  · next he => exact absurd he this
  · simp

/-! ### The receiver -/

/-- The receiver when the reliable frames at the positions `A` have arrived, and what it has
released. -/
structure Receives (limit : ℕ) (log : List Message) (A : Finset ℕ) (q : RecvQ)
    (released : List FrameSetPacket) : Prop where
  window : Tracks q.reliableWindow A
  below : ∀ p ∈ A, p < (counters limit log).reliable
  holds : Holds limit log A q
  limits : Limits.Inv q
  ready : q.readyOrdered = []
  packets : q.packets = ∅
  delivered : ∀ c, payloads c released = (messages c log).take (mex (done limit log A c))

theorem receives_new (limit : ℕ) : Receives limit [] ∅ RecvQ.new [] where
  window := tracks_empty
  below := by simp
  holds := by
    have hdone : ∀ c, done limit [] ∅ c = ∅ := fun c => rfl
    refine ⟨⟨fun c => ?_, fun c o ho => ?_, fun c o ho => ?_, fun c i f hf => ?_, fun c o ho => ?_⟩,
      fun id g hg => ?_, fun k m ho => ?_⟩
    · simp [RecvQ.new, hdone]
    · simp [hdone] at ho
    · simp [hdone] at ho
    · cases hf
    · simp [hdone] at ho
    · cases hg
    · have := ho.message
      simp at this
  limits := Limits.inv_new
  ready := rfl
  packets := rfl
  delivered c := by simp [payloads, messages, orderedOn]

/-! ### A new message -/

section append

variable {limit : ℕ} {log : List Message} {A : Finset ℕ} {q : RecvQ}
  {released : List FrameSetPacket} {k : ℕ} {m m' : Message}

theorem IsMessage.append {c o : ℕ} {f : FrameSetPacket} (h : IsMessage limit log c o f)
    (m : Message) : IsMessage limit (log ++ [m]) c o f := by
  obtain ⟨hmode, hchannel, k, m', hk, hm, hrank, hdata⟩ := h
  refine ⟨hmode, hchannel, k, m', getElem?_snoc.mpr (.inl hk), hm, ?_, hdata⟩
  rw [before_append m (List.getElem?_eq_some_iff.mp hk).1.le, hrank]

theorem parts_append (m : Message) (hk : log[k]? = some m') :
    parts limit (log ++ [m]) A k m' = parts limit log A k m' := by
  unfold parts
  rw [before_append m (List.getElem?_eq_some_iff.mp hk).1.le]

theorem compoundOf_append (m : Message) (hk : log[k]? = some m') :
    compoundOf limit (log ++ [m]) k m' = compoundOf limit log k m' := by
  unfold compoundOf
  rw [before_append m (List.getElem?_eq_some_iff.mp hk).1.le]

theorem open_append (hbelow : ∀ p ∈ A, p < (counters limit log).reliable) :
    Open limit (log ++ [m]) A k m' ↔ Open limit log A k m' := by
  constructor
  · rintro ⟨hk, hf, hsome, hmissing⟩
    rcases getElem?_snoc.mp hk with hk | ⟨rfl, rfl⟩
    · rw [parts_append m hk] at hsome
      rw [complete_append m hk] at hmissing
      exact ⟨hk, hf, hsome, hmissing⟩
    · obtain ⟨i, hi⟩ := hsome
      exact absurd (mem_parts.mp hi).2 (next_notMem hbelow _ i)
  · rintro ⟨hk, hf, hsome, hmissing⟩
    rw [← parts_append m hk] at hsome
    rw [← complete_append m hk] at hmissing
    exact ⟨getElem?_snoc.mpr (.inl hk), hf, hsome, hmissing⟩

theorem mex_done_le (hpos : 0 < limit) (log : List Message) (A : Finset ℕ) (c : ℕ) :
    mex (done limit log A c) ≤ (counters limit log).ordered c := by
  refine mex_le fun hmem => ?_
  obtain ⟨k, m, hk, hm, -, hrank⟩ := mem_done.mp hmem
  have := rank_lt hpos hk hm (List.getElem?_eq_some_iff.mp hk).1
  rw [before_length] at this
  omega

/-- **A new message** changes nothing for the receiver. -/
theorem Receives.append (h : Receives limit log A q released) (hpos : 0 < limit) (m : Message) :
    Receives limit (log ++ [m]) A q released where
  window := h.window
  below p hp := by
    have := h.below p hp
    rw [counters_append]
    exact this.trans_le (Grows.add hpos _ m).reliable_le
  holds := by
    have hdone : done limit (log ++ [m]) A = done limit log A := by
      funext c
      exact done_append hpos h.below m c
    refine ⟨?_, fun id g hg => ?_, fun k m' ho => ?_⟩
    · rw [hdone]
      exact h.holds.ordered.mono fun c o f hf => hf.append m
    · obtain ⟨k, m', ho, hid, hgroup⟩ := h.holds.groups.group id g hg
      refine ⟨k, m', (open_append h.below).mpr ho, ?_, ?_⟩
      · rwa [compoundOf_append m ho.message]
      · rwa [compoundOf_append m ho.message, parts_append m ho.message]
    · have ho' := (open_append h.below).mp ho
      rw [compoundOf_append m ho'.message]
      exact h.holds.groups.opened k m' ho'
  limits := h.limits
  ready := h.ready
  packets := h.packets
  delivered c := by
    have hle := mex_done_le hpos log A c
    rw [h.delivered c, done_append hpos h.below, messages, messages, orderedOn_append,
      List.map_append, List.take_append_of_le_length]
    rwa [List.length_map, orderedOn_length limit]

end append

/-! ### A frame -/

section receive

variable {limit : ℕ} {log : List Message} {A A' : Finset ℕ} {q q' : RecvQ}
  {released : List FrameSetPacket} {k : ℕ} {m : Message} {i : ℕ} {frame : FrameSetPacket}

/-- The queue between an insertion and the flush. -/
structure Inserted (limit : ℕ) (log : List Message) (A A' : Finset ℕ) (q q' : RecvQ) : Prop where
  window : Tracks q'.reliableWindow A'
  holds : Holds limit log A' q'
  hands : ∃ c fs, q'.readyOrdered = q.readyOrdered ++ fs ∧ Hands limit log A A' c fs
  packets : ∀ key f, q'.packets.lookup key = some f →
    q.packets.lookup key = some f ∨ f.reliability ≠ .ok .reliableOrdered

theorem Holds.congr (h : Holds limit log A q)
    (hindexes : q'.lastOrderedIndexes = q.lastOrderedIndexes)
    (hpackets : q'.orderedPackets = q.orderedPackets)
    (hfragments : q'.fragmentQueue = q.fragmentQueue) : Holds limit log A q' :=
  ⟨h.ordered.congr hindexes hpackets, by rw [hfragments]; exact h.groups⟩

/-- The flush after an insertion releases what was handed out. -/
theorem Receives.flush (h : Receives limit log A q released) (hi : Inserted limit log A A' q q')
    (hinv : Limits.Inv q') (hbelow : ∀ p ∈ A', p < (counters limit log).reliable) :
    Receives limit log A' q'.flushInto.2 (released ++ q'.flushInto.1) where
  window := hi.window
  below := hbelow
  holds := hi.holds.congr rfl rfl rfl
  limits := hinv.flushInto
  ready := rfl
  packets := rfl
  delivered c := by
    obtain ⟨c', fs, hready, hhanded, hmoved, hothers⟩ := hi.hands
    rw [h.ready, List.nil_append] at hready
    have hoff : payloads c q'.sortedPackets = [] := by
      refine payloads_off fun f hf => ?_
      rw [RecvQ.sortedPackets, List.mem_insertionSort] at hf
      obtain ⟨e, he, rfl⟩ := List.mem_map.mp hf
      refine (hi.packets e.1 e.2 (Lib.Keyed.mem_entries.mp he)).resolve_left fun hold => ?_
      rw [h.packets] at hold
      cases hold
    rw [payloads_append, h.delivered c, RecvQ.flushInto, hready, payloads_append, hoff,
      List.append_nil]
    by_cases hc : c = c'
    · subst hc
      rw [handed_payloads hhanded, hmoved, List.take_add]
    · rw [handed_others hc hhanded, hothers c hc, List.append_nil]

theorem Inserted.congr {q₁ : RecvQ} (h : Inserted limit log A A' q₁ q')
    (hready : q₁.readyOrdered = q.readyOrdered) (hpackets : q₁.packets = q.packets) :
    Inserted limit log A A' q q' :=
  ⟨h.window, h.holds, hready ▸ h.hands, hpackets ▸ h.packets⟩

theorem Puts.inserted (hputs : Puts frame q q') (hwindow : Tracks q.reliableWindow A')
    (hholds : Holds limit log A' q) (hdone : done limit log A' = done limit log A)
    (hmode : frame.reliability ≠ .ok .reliableOrdered) : Inserted limit log A A' q q' := by
  obtain ⟨packets, sequenced, rfl, hpackets⟩ := hputs
  refine ⟨hwindow, hholds.congr rfl rfl rfl, ⟨0, [], by simp, .nothing hdone 0⟩, fun key f hf => ?_⟩
  rcases hpackets key f hf with hf | rfl
  · exact .inl hf
  · exact .inr hmode

/-- **An unreliable frame** is taken. -/
theorem Receives.insertUnreliable (h : Receives limit log A q released)
    (hcarries : Carries limit log k m i frame) (hr : m.reliability.isReliable = false) :
    ∃ q', q.insert frame = (.ok (), q') ∧ Inserted limit log A A q q' := by
  have hne : m.reliability ≠ .reliableOrdered := fun he => by simp [he, Reliability.isReliable] at hr
  rw [insert_eq hcarries.mode, hr, if_neg Bool.false_ne_true]
  obtain ⟨q', he, hputs⟩ := dispatch_puts hne { q with
    sequenceNumberAckset := q.sequenceNumberAckset.insert frame.sequenceNumber } frame
  refine ⟨q', he, Inserted.congr (Puts.inserted hputs h.window (h.holds.congr rfl rfl rfl) rfl ?_)
    rfl rfl⟩
  rw [hcarries.mode]
  exact fun he => hne (Except.ok.inj he)

/-- **A reliable frame** within half a turn of the first missing one is taken, or rejected for a
reason. -/
theorem Receives.insertReliable (h : Receives limit log A q released) (hadm : Admissible limit m)
    (hk : log[k]? = some m) (hcarries : Carries limit log k m i frame)
    (hr : m.reliability.isReliable = true)
    (hback : mex A ≤ (before limit log k).reliable + i + 8388608)
    (hahead : (before limit log k).reliable + i < mex A + 8388608) :
    ((before limit log k).reliable + i ∈ A ∨ Takes limit log A q k m i frame → ∃ q',
      q.insert frame = (.ok (), q') ∧
      Inserted limit log A (insert ((before limit log k).reliable + i) A) q q') ∧
    (¬ ((before limit log k).reliable + i ∈ A ∨ Takes limit log A q k m i frame) →
      ∃ e, (q.insert frame).1 = .error e) := by
  rw [insert_eq hcarries.mode, if_pos hr, hcarries.index hr]
  by_cases hmem : (before limit log k).reliable + i ∈ A
  · -- a duplicate
    rw [accept_seen h.window hback hmem, Finset.insert_eq_of_mem hmem]
    refine ⟨fun _ => ⟨_, rfl, h.window, h.holds.congr rfl rfl rfl,
      ⟨0, [], by simp, .nothing rfl 0⟩, fun _ _ hf => .inl hf⟩, fun hno => absurd (.inl hmem) hno⟩
  by_cases hnear : (before limit log k).reliable + i < mex A + 65536
  · have hfresh : Fresh limit log A k m i := ⟨hk, hcarries.lt, hmem, hnear⟩
    obtain ⟨w, haccept, htracks⟩ := accept_new h.window hmem hnear
    rw [haccept]
    simp only [if_true]
    by_cases hm : m.reliability = .reliableOrdered
    · obtain ⟨hok, herror⟩ := Holds.insertOrdered (q := { q with
          sequenceNumberAckset := q.sequenceNumberAckset.insert frame.sequenceNumber
          reliableWindow := w }) (h.holds.congr rfl rfl rfl) hadm h.window.near hfresh hcarries hm
        h.limits.fragments
      rw [hm]
      refine ⟨fun htakes => ?_, fun hno => herror fun htakes => hno (.inr ?_)⟩
      · obtain ⟨hn, hf, hroom⟩ := htakes.resolve_left hmem
        obtain ⟨q', he, ⟨hholds, hhands, hwin⟩, hpackets⟩ := hok ⟨hn, hf, fun h1 h2 =>
          ⟨(hroom h1 h2).count, (hroom h1 h2).bytes⟩⟩
        exact ⟨q', he, hwin ▸ htracks, hholds, hhands, fun key f hf => .inl (hpackets ▸ hf)⟩
      · exact ⟨htakes.near, htakes.fragment, fun h1 h2 =>
          ⟨(htakes.room h1 h2).count, (htakes.room h1 h2).bytes⟩⟩
    · obtain ⟨q', he, hputs⟩ := dispatch_puts hm { q with
        sequenceNumberAckset := q.sequenceNumberAckset.insert frame.sequenceNumber
        reliableWindow := w } frame
      have hdone := done_same (A := A) hadm.pos hk hr hcarries.lt fun he => absurd he hm
      have hf : ¬ m.Fragmented limit := fun hf => hm hf.1
      refine ⟨fun _ => ⟨q', he, Inserted.congr (Puts.inserted hputs htracks ⟨?_, ?_⟩ hdone ?_)
        rfl rfl⟩, fun hno => absurd (.inr ⟨hnear, fun hf' => absurd hf' hf,
          fun he => absurd he hm⟩) hno⟩
      · rw [hdone]
        exact h.holds.ordered.congr rfl rfl
      · exact h.holds.groups.keep hadm.pos hk hr hcarries.lt hf
      · rw [hcarries.mode]
        exact fun he => hm (Except.ok.inj he)
  · rw [accept_far h.window hahead (by omega)]
    exact ⟨fun htakes => absurd (htakes.resolve_left hmem).near hnear, fun _ => ⟨_, rfl⟩⟩

end receive

end RustRaknet.Link
