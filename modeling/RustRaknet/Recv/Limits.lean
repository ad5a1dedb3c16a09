import RustRaknet.Recv.Queue

/-! # The limits of the receive queue

Against an arbitrary peer the receive queue stays within its limits: `WithinLimits q` lists them. The
counters are exact (`Counted`), every stored ordered frame lies within the receive window of its
channel (`Within`) and is not the one the channel waits for (`Waiting`), and the reliable window
holds only numbers ahead of its own (`Inside`). Each part is kept by each thing an insertion may do;
`limits_run` puts them together along a whole session. -/

namespace RustRaknet.Recv.Limits

open RustRaknet.Frame RustRaknet.Sequence RustRaknet.Indexes RustRaknet.Reassembly
  RustRaknet.Lib.Keyed RustRaknet.Lib.Result

/-! ### The reliable window -/

/-- The numbers remembered by the window lie strictly inside the `65536` after the next one. -/
structure Inside (w : ReliableWindow) : Prop where
  next_lt : w.next < 16777216
  pending : ∀ i ∈ w.pending, i < 16777216 ∧ 0 < distance i w.next ∧
    distance i w.next < receiveWindow

theorem catchUp_inside :
    ∀ (k n : ℕ) (p : Finset ℕ), p.card = k → n < 16777216 →
      (∀ i ∈ p, i < 16777216 ∧ distance i n < receiveWindow) →
      Inside ⟨(catchUp k n p).1, (catchUp k n p).2⟩
  | 0, n, p, hk, hn, hp => by
    rw [Finset.card_eq_zero] at hk
    exact ⟨hn, by simp [catchUp, hk]⟩
  | k + 1, n, p, hk, hn, hp => by
    by_cases hmem : n ∈ p
    · simp only [catchUp, hmem, if_true]
      refine catchUp_inside k _ _ (by rw [Finset.card_erase_of_mem hmem]; omega) (next_lt n) ?_
      intro i hi
      obtain ⟨hne, hi⟩ := Finset.mem_erase.mp hi
      obtain ⟨hlt, hd⟩ := hp i hi
      have hd0 : distance i n ≠ 0 := fun h0 => hne (eq_of_distance_eq_zero hlt hn h0)
      have := distance_next hd0
      exact ⟨hlt, by omega⟩
    · simp only [catchUp, hmem, if_false]
      refine ⟨hn, fun i hi => ⟨(hp i hi).1, ?_, (hp i hi).2⟩⟩
      refine Nat.pos_of_ne_zero fun h0 => hmem ?_
      rwa [← eq_of_distance_eq_zero (hp i hi).1 hn h0]

theorem accept_inside {w w' : ReliableWindow} {index : ℕ} {b : Bool} (h : Inside w)
    (hi : index < 16777216) (ha : w.accept index = .ok (b, w')) : Inside w' := by
  unfold ReliableWindow.accept at ha
  simp only at ha
  split_ifs at ha with h1 h2 h3 h4
  · cases ha; exact h
  · cases ha; exact h
  · cases ha
    refine ⟨h.next_lt, fun i hmem => ?_⟩
    rcases Finset.mem_insert.mp hmem with rfl | hmem
    · exact ⟨hi, Nat.pos_of_ne_zero h3, not_le.mp h2⟩
    · exact h.pending i hmem
  · cases ha
    refine catchUp_inside _ _ _ rfl (next_lt _) fun i hmem => ?_
    obtain ⟨hlt, hpos, hd⟩ := h.pending i hmem
    have := distance_next hpos.ne'
    exact ⟨hlt, by omega⟩

/-! ### Ordered frames -/

/-- The length of a frame's payload. -/
abbrev len (f : FrameSetPacket) : ℕ := f.data.len

/-- The counters of the ordered frames are exact and within the limits. -/
structure Counted (q : RecvQ) : Prop where
  orderedBytes_eq : q.orderedBytes = total len q.orderedPackets
  readyBytes_eq : q.readyBytes = (q.readyOrdered.map len).sum
  bytes_le : q.orderedBytes + q.readyBytes ≤ maxBytes
  count_le : size q.orderedPackets + q.readyOrdered.length ≤ receiveWindow
  fault : q.fault = false

/-- The stored frames lie in the receive window of their channel. -/
structure Within (q : RecvQ) : Prop where
  expected_lt : ∀ c, q.lastOrderedIndexes.get c < 16777216
  stored : ∀ c i f, q.orderedPackets.lookup (c, i) = some f →
    i < 16777216 ∧ distance i (q.lastOrderedIndexes.get c) < receiveWindow

/-- The frame the channel `c` waits for is not stored. -/
def Waiting (q : RecvQ) (c : ℕ) : Prop :=
  q.orderedPackets.lookup (c, q.lastOrderedIndexes.get c) = none

section ordered

variable {q : RecvQ} {frame : FrameSetPacket}

theorem Counted.release (h : Counted q) {c : ℕ}
    (hl : q.orderedPackets.lookup (c, q.lastOrderedIndexes.get c) = some frame) :
    Counted (q.release c frame) := by
  have ht : total len q.orderedPackets = frame.data.len + _ := total_erase len hl
  have hs := size_erase hl
  have hb := h.bytes_le
  have hc := h.count_le
  have he := h.orderedBytes_eq
  constructor <;> simp only [RecvQ.release]
  · omega
  · simp [h.readyBytes_eq]
  · omega
  · rw [List.length_append, List.length_singleton]; omega
  · simp only [h.fault, Bool.false_or, decide_eq_false_iff_not, not_lt]; omega

/-- Advancing a channel past a frame that is not stored keeps the others in the window. -/
theorem Within.advance (h : Within q) {c : ℕ} {m : OrderedMap}
    (hm : ∀ k f, m.lookup k = some f →
      q.orderedPackets.lookup k = some f ∧ k ≠ (c, q.lastOrderedIndexes.get c)) :
    ∀ c' i f, m.lookup (c', i) = some f → i < 16777216 ∧
      distance i ((q.lastOrderedIndexes.set c (next (q.lastOrderedIndexes.get c))).get c') <
        receiveWindow := by
  intro c' i f hf
  obtain ⟨hq, hne⟩ := hm _ f hf
  obtain ⟨hlt, hd⟩ := h.stored c' i f hq
  refine ⟨hlt, ?_⟩
  rw [ChannelIndexes.get_set]
  split_ifs with hc
  · subst hc
    have hd0 : distance i (q.lastOrderedIndexes.get c') ≠ 0 := fun h0 =>
      hne (by rw [eq_of_distance_eq_zero hlt (h.expected_lt c') h0])
    have := distance_next hd0
    omega
  · exact hd

theorem expected_set_lt (h : Within q) (c c' : ℕ) :
    (q.lastOrderedIndexes.set c (next (q.lastOrderedIndexes.get c))).get c' < 16777216 := by
  rw [ChannelIndexes.get_set]
  split_ifs
  · exact next_lt _
  · exact h.expected_lt c'

theorem Within.release (h : Within q) (c : ℕ) : Within (q.release c frame) where
  expected_lt := expected_set_lt h c
  stored := by
    refine h.advance fun k f hf => ?_
    simp only [RecvQ.release] at hf
    by_cases hk : k = (c, q.lastOrderedIndexes.get c)
    · rw [hk, AList.lookup_erase] at hf
      cases hf
    · rw [AList.lookup_erase_ne hk] at hf
      exact ⟨hf, hk⟩

theorem Waiting.release {c c' : ℕ} (hne : c' ≠ c) (h : Waiting q c') :
    Waiting (q.release c frame) c' := by
  simp only [Waiting, RecvQ.release] at *
  rw [ChannelIndexes.get_set_of_ne _ _ hne, AList.lookup_erase_ne]
  · exact h
  · intro he
    exact hne (Prod.ext_iff.mp he).1

/-- The ordered part of the invariant. -/
structure Ordered (q : RecvQ) : Prop where
  counted : Counted q
  within : Within q
  waiting : ∀ c, Waiting q c

/-- A frame whose turn it is, and those it frees. -/
theorem Ordered.ready (h : Ordered q)
    (hsize : size q.orderedPackets + q.readyOrdered.length < receiveWindow)
    (hbytes : q.orderedBytes + q.readyBytes + frame.data.len ≤ maxBytes) :
    Ordered (RecvQ.drain frame.orderChannel (size (q.ready frame).orderedPackets)
      (q.ready frame)) := by
  have hloop := drain_induction (I := fun q => Counted q ∧ Within q ∧
      ∀ c', c' ≠ frame.orderChannel → Waiting q c') frame.orderChannel
    (fun q f hI hl => ⟨hI.1.release hl, hI.2.1.release _,
      fun c' hne => (hI.2.2 c' hne).release hne⟩)
    _ (q.ready frame) rfl ⟨?_, ?_, ?_⟩
  · obtain ⟨⟨hc, hw, hother⟩, hend⟩ := hloop
    refine ⟨hc, hw, fun c => ?_⟩
    by_cases he : c = frame.orderChannel
    · subst he; exact hend
    · exact hother c he
  · constructor <;> simp only [RecvQ.ready]
    · exact h.counted.orderedBytes_eq
    · simp [h.counted.readyBytes_eq]
    · omega
    · rw [List.length_append, List.length_singleton]; omega
    · exact h.counted.fault
  · refine ⟨expected_set_lt h.within _, h.within.advance fun k f hf => ⟨hf, ?_⟩⟩
    rintro rfl
    have := h.waiting frame.orderChannel
    rw [Waiting] at this
    simp only [RecvQ.ready] at hf
    rw [this] at hf
    cases hf
  · intro c' hne
    simp only [Waiting, RecvQ.ready]
    rw [ChannelIndexes.get_set_of_ne _ _ hne]
    exact h.waiting c'

theorem Ordered.store (h : Ordered q)
    (hnew : q.orderedPackets.lookup (frame.orderChannel, frame.orderedFrameIndex) = none)
    (hlt : frame.orderedFrameIndex < 16777216)
    (hd : distance frame.orderedFrameIndex (q.lastOrderedIndexes.get frame.orderChannel) <
      receiveWindow)
    (hne : frame.orderedFrameIndex ≠ q.lastOrderedIndexes.get frame.orderChannel)
    (hsize : size q.orderedPackets + q.readyOrdered.length < receiveWindow)
    (hbytes : q.orderedBytes + q.readyBytes + frame.data.len ≤ maxBytes) :
    Ordered (q.store frame) := by
  refine ⟨?_, ⟨h.within.expected_lt, fun c i f hf => ?_⟩, fun c => ?_⟩
  · constructor <;> simp only [RecvQ.store]
    · rw [total_insert _ _ hnew, h.counted.orderedBytes_eq, Nat.add_comm]
    · exact h.counted.readyBytes_eq
    · omega
    · rw [size_insert _ hnew]; omega
    · exact h.counted.fault
  · simp only [RecvQ.store] at hf ⊢
    by_cases hk : (c, i) = (frame.orderChannel, frame.orderedFrameIndex)
    · obtain ⟨rfl, rfl⟩ := Prod.ext_iff.mp hk
      exact ⟨hlt, hd⟩
    · rw [AList.lookup_insert_ne hk] at hf
      exact h.within.stored c i f hf
  · unfold Waiting RecvQ.store
    rw [AList.lookup_insert_ne]
    · exact h.waiting c
    · intro he
      obtain ⟨rfl, hi⟩ := Prod.ext_iff.mp he
      exact hne hi.symm

theorem Ordered.insertComplete (h : Ordered q) {expected : ℕ}
    (he : expected = q.lastOrderedIndexes.get frame.orderChannel)
    (hlt : frame.orderedFrameIndex < 16777216)
    (hd : distance frame.orderedFrameIndex expected < receiveWindow) :
    Ordered (q.insertComplete expected frame).2 := by
  subst he
  unfold RecvQ.insertComplete
  rcases hl : q.orderedPackets.lookup (frame.orderChannel, frame.orderedFrameIndex) with _ | f
  · simp only
    split_ifs with h1 h2
    · exact h
    · push Not at h1
      exact h.ready h1.1 h1.2
    · push Not at h1
      exact h.store hl hlt hd h2 h1.1 h1.2
  · exact h

end ordered

/-! ### The invariant -/

/-- What every reachable receive queue satisfies. -/
structure Inv (q : RecvQ) : Prop where
  ordered : Ordered q
  fragments : q.fragmentQueue.Sound fun _ => True
  window : Inside q.reliableWindow

theorem inv_new : Inv RecvQ.new where
  ordered := ⟨⟨rfl, rfl, Nat.zero_le _, Nat.zero_le _, rfl⟩,
    ⟨fun c => by simp [RecvQ.new], fun c i f h => by cases h⟩, fun c => rfl⟩
  fragments := sound_empty _
  window := ⟨by simp [RecvQ.new, ReliableWindow.empty], by simp [RecvQ.new, ReliableWindow.empty]⟩

theorem Ordered.congr {q q' : RecvQ} (h : Ordered q)
    (h1 : q'.orderedPackets = q.orderedPackets) (h2 : q'.orderedBytes = q.orderedBytes)
    (h3 : q'.readyOrdered = q.readyOrdered) (h4 : q'.readyBytes = q.readyBytes)
    (h5 : q'.lastOrderedIndexes = q.lastOrderedIndexes) (h6 : q'.fault = q.fault) :
    Ordered q' where
  counted := by
    obtain ⟨a, b, c, d, e⟩ := h.counted
    constructor <;> simp only [h1, h2, h3, h4, h6] <;> assumption
  within := by
    obtain ⟨a, b⟩ := h.within
    constructor <;> simp only [h1, h5] <;> assumption
  waiting c := by
    rw [Waiting, h1, h5]
    exact h.waiting c

theorem insertComplete_frame (q : RecvQ) (expected : ℕ) (frame : FrameSetPacket) :
    (q.insertComplete expected frame).2.fragmentQueue = q.fragmentQueue ∧
      (q.insertComplete expected frame).2.reliableWindow = q.reliableWindow ∧
      (q.insertComplete expected frame).2.packets = q.packets := by
  unfold RecvQ.insertComplete
  split
  · exact ⟨rfl, rfl, rfl⟩
  · split_ifs
    · exact ⟨rfl, rfl, rfl⟩
    · exact (drain_induction (I := fun q' => q'.fragmentQueue = q.fragmentQueue ∧
        q'.reliableWindow = q.reliableWindow ∧ q'.packets = q.packets) frame.orderChannel
        (fun q f hI _ => hI) _ (q.ready frame) rfl ⟨rfl, rfl, rfl⟩).1
    · exact ⟨rfl, rfl, rfl⟩

theorem merge_indexes {g : Fragment} {m : FrameSetPacket} (h : g.merge = .ok m) :
    m.orderedFrameIndex = g.orderedFrameIndex ∧ m.orderChannel = g.orderChannel ∧
      m.isFragment = false := by
  unfold Fragment.merge at h
  split_ifs at h
  split at h
  · cases h
  · split at h
    · cases h
    · obtain ⟨data, -, h⟩ := bind_eq_ok.mp h
      obtain ⟨r, -, h⟩ := bind_eq_ok.mp h
      cases h
      exact ⟨rfl, rfl, by simp [FrameSetPacket.isFragment, FrameSetPacket.new,
        FrameSetPacket.fromPayload]⟩

theorem Inv.insertOrdered {q : RecvQ} {frame : FrameSetPacket} (h : Inv q)
    (hlt : frame.orderedFrameIndex < 16777216) : Inv (q.insertOrdered frame).2 := by
  have hcomplete : ∀ (q : RecvQ) (m : FrameSetPacket) (e : ℕ), Inv q →
      e = q.lastOrderedIndexes.get m.orderChannel → m.orderedFrameIndex < 16777216 →
      distance m.orderedFrameIndex e < receiveWindow → Inv (q.insertComplete e m).2 := by
    intro q m e h he hm hd
    obtain ⟨h1, h2, -⟩ := insertComplete_frame q e m
    exact ⟨h.ordered.insertComplete he hm hd, h1 ▸ h.fragments, h2 ▸ h.window⟩
  unfold RecvQ.insertOrdered
  simp only
  split_ifs with h1 h2
  · exact h
  · exact h
  · rw [not_le] at h2
    unfold RecvQ.reassemble
    by_cases hf : frame.isFragment
    · have hstep := h.fragments.takeCompleted frame trivial
      rcases hr : q.fragmentQueue.insertAndTakeCompleted frame with ⟨r, fragmentQueue⟩
      rw [hr] at hstep
      obtain ⟨hs, hm⟩ := hstep
      have hq : Inv { q with fragmentQueue } :=
        ⟨h.ordered.congr rfl rfl rfl rfl rfl rfl, hs, h.window⟩
      simp only [hf, if_true]
      rcases r with e | _ | m
      · exact hq
      · exact hq
      · obtain ⟨g, -, -, ⟨-, -, hc, hi, -⟩, hmerge⟩ := hm m rfl
        obtain ⟨hi', hc', -⟩ := merge_indexes hmerge
        refine hcomplete _ m _ hq ?_ ?_ ?_
        · rw [hc', ← hc]
        · rwa [hi', ← hi]
        · rwa [hi', ← hi]
    · simp only [hf, Bool.false_eq_true, if_false]
      exact hcomplete q frame _ h rfl hlt h2

theorem Inv.insert {q : RecvQ} {frame : FrameSetPacket} (h : Inv q)
    (hr : frame.reliableFrameIndex < 16777216) (ho : frame.orderedFrameIndex < 16777216) :
    Inv (q.insert frame).2 := by
  refine insert_rule frame ?_ ?_ ?_ ?_ q h
  · intro q acks h
    exact ⟨h.ordered.congr rfl rfl rfl rfl rfl rfl, h.fragments, h.window⟩
  · intro q b w h ha
    exact ⟨h.ordered.congr rfl rfl rfl rfl rfl rfl, h.fragments, accept_inside h.window hr ha⟩
  · rintro q _ h ⟨packets, sequenced, rfl, -⟩ -
    exact ⟨h.ordered.congr rfl rfl rfl rfl rfl rfl, h.fragments, h.window⟩
  · intro q h _
    exact h.insertOrdered ho

theorem Inv.flushInto {q : RecvQ} (h : Inv q) : Inv q.flushInto.2 where
  ordered := by
    have hb := h.ordered.counted.bytes_le
    have hc := h.ordered.counted.count_le
    refine ⟨⟨h.ordered.counted.orderedBytes_eq, rfl, ?_, ?_, h.ordered.counted.fault⟩,
      ⟨h.ordered.within.expected_lt, h.ordered.within.stored⟩, h.ordered.waiting⟩ <;>
      simp only [RecvQ.flushInto, List.length_nil] <;> omega
  fragments := h.fragments
  window := h.window

theorem Inv.receive {s : Session} {frame : FrameSetPacket} (h : Inv s.queue)
    (hr : frame.reliableFrameIndex < 16777216) (ho : frame.orderedFrameIndex < 16777216) :
    Inv (s.receive frame).queue := by
  have hi := h.insert hr ho
  rcases he : s.queue.insert frame with ⟨_ | _, q⟩ <;> rw [he] at hi
  · rw [Session.receive_error he]; exact hi
  · rw [Session.receive_ok he]; exact hi.flushInto

theorem decoded_indexes {frame : FrameSetPacket} (h : Decoded frame) :
    frame.reliableFrameIndex < 16777216 ∧ frame.orderedFrameIndex < 16777216 := by
  obtain ⟨s, -, he⟩ := h.encodable
  obtain ⟨r, -, hw⟩ := he.onWire
  have h1 := hw.reliable
  have h2 := hw.ordered
  unfold Codec.Fits at h1 h2
  constructor
  · split_ifs at h1 <;> omega
  · split_ifs at h2 <;> omega

theorem inv_run (frames : List FrameSetPacket) (h : ∀ f ∈ frames, Decoded f) :
    Inv (Session.run frames).queue := by
  induction frames using List.reverseRecOn with
  | nil => exact inv_new
  | append_singleton frames f ih =>
    obtain ⟨hr, ho⟩ := decoded_indexes (h f (by simp))
    rw [Session.run_append]
    exact (ih fun g hg => h g (by simp [hg])).receive hr ho

/-! ### The limits -/

/-- **The limits of the receive queue.** -/
structure WithinLimits (q : RecvQ) : Prop where
  orderedBytes_eq : q.orderedBytes = total (fun f => f.data.len) q.orderedPackets
  readyBytes_eq : q.readyBytes = (q.readyOrdered.map fun f => f.data.len).sum
  bytes_le : q.orderedBytes + q.readyBytes ≤ 64 * 1024 * 1024
  count_le : size q.orderedPackets + q.readyOrdered.length ≤ 65536
  fragmentBytes_eq : q.fragmentQueue.bytes =
    total (fun g => total (fun f => f.data.len + 128) g.frames) q.fragmentQueue.fragments
  fragmentBytes_le : q.fragmentQueue.bytes ≤ 64 * 1024 * 1024
  groups_le : size q.fragmentQueue.fragments ≤ 1024
  incomplete : ∀ id g, q.fragmentQueue.fragments.lookup id = some g → g.full = false
  ahead : ∀ c i f, q.orderedPackets.lookup (c, i) = some f →
    0 < distance i (q.lastOrderedIndexes.get c) ∧ distance i (q.lastOrderedIndexes.get c) < 65536
  pending : ∀ i ∈ q.reliableWindow.pending,
    0 < distance i q.reliableWindow.next ∧ distance i q.reliableWindow.next < 65536
  faultless : q.fault = false ∧ q.fragmentQueue.fault = false

theorem Inv.limits {q : RecvQ} (h : Inv q) : WithinLimits q where
  orderedBytes_eq := h.ordered.counted.orderedBytes_eq
  readyBytes_eq := h.ordered.counted.readyBytes_eq
  bytes_le := h.ordered.counted.bytes_le
  count_le := h.ordered.counted.count_le
  fragmentBytes_eq := by
    rw [h.fragments.bytes_eq]
    refine total_congr fun e he => ?_
    exact (h.fragments.group e.1 e.2 (mem_entries.mp he)).1.bytes_eq
  fragmentBytes_le := h.fragments.bytes_le
  groups_le := h.fragments.size_le
  incomplete id g hg := (h.fragments.group id g hg).2
  ahead c i f hf := by
    obtain ⟨hlt, hd⟩ := h.ordered.within.stored c i f hf
    refine ⟨Nat.pos_of_ne_zero fun h0 => ?_, hd⟩
    have hw := h.ordered.waiting c
    rw [Waiting, ← eq_of_distance_eq_zero hlt (h.ordered.within.expected_lt c) h0, hf] at hw
    cases hw
  pending i hi := (h.window.pending i hi).2
  faultless := ⟨h.ordered.counted.fault, h.fragments.fault⟩

/-- **The limits hold against any peer**: after any decoded frames, with the ready ones flushed
after every insertion that succeeded, and also between an insertion and its flush. -/
theorem limits_run (frames : List FrameSetPacket) (h : ∀ f ∈ frames, Decoded f) :
    WithinLimits (Session.run frames).queue ∧
      ∀ f, Decoded f → WithinLimits ((Session.run frames).queue.insert f).2 := by
  have hinv := inv_run frames h
  refine ⟨hinv.limits, fun f hf => ?_⟩
  obtain ⟨hr, ho⟩ := decoded_indexes hf
  exact (hinv.insert hr ho).limits

/-- The frame of ordered index 1 alone is stored; the limits hold of that queue. -/
theorem limits_run_stored :
    WithinLimits (Session.run [{ FrameSetPacket.new .reliableOrdered [0xfe] with
      orderedFrameIndex := 1 }]).queue := by
  refine (limits_run _ ?_).1
  rintro f hf
  rw [List.mem_singleton] at hf
  subst hf
  exact ⟨[0x84, 0, 0, 0, 0x60, 0, 8, 0, 0, 0, 1, 0, 0, 0, 0xfe], _, rfl, List.mem_singleton_self _⟩

end RustRaknet.Recv.Limits
