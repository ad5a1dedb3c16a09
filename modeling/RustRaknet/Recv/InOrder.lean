import RustRaknet.Recv.Limits

/-! # Ordered delivery against any peer

On every channel the ordered frames that the receive queue hands out have the indexes 0, 1, 2, …
modulo 2^24, whatever the peer sends (`ordered_consecutive`): the frame that is handed out is always
the one whose index the channel expects. A frame that `insert` drops (`Drops`) or rejects leaves the
order of all channels as it was. -/

namespace RustRaknet.Recv.InOrder

open RustRaknet.Frame RustRaknet.Sequence RustRaknet.Indexes RustRaknet.Reassembly
  RustRaknet.Recv.Limits RustRaknet.Lib.Keyed RustRaknet.Lib.Result RustRaknet.Lib.Serial

/-! ### Consecutive indexes -/

/-- The ordered frames of the channel `c`. -/
def orderedOn (c : ℕ) (l : List FrameSetPacket) : List FrameSetPacket :=
  l.filter fun f => decide (f.reliability = .ok .reliableOrdered) && decide (f.orderChannel = c)

/-- The ordered frames of every channel are numbered from 0, and its next number is the expected
one. -/
def Numbered (expected : ChannelIndexes) (l : List FrameSetPacket) : Prop :=
  ∀ c, ((orderedOn c l).map fun f => f.orderedFrameIndex) =
      (List.range (orderedOn c l).length).map (· % 16777216) ∧
    expected.get c = (orderedOn c l).length % 16777216

section numbered

variable {expected : ChannelIndexes} {l l' : List FrameSetPacket} {frame : FrameSetPacket}

theorem Numbered.skip (h : Numbered expected l)
    (hl : ∀ f ∈ l', f.reliability ≠ .ok .reliableOrdered) : Numbered expected (l ++ l') := by
  intro c
  have hnil : orderedOn c l' = [] := by
    refine List.filter_eq_nil_iff.mpr fun f hf => ?_
    simp [hl f hf]
  have happend : orderedOn c (l ++ l') = orderedOn c l := by
    rw [orderedOn, List.filter_append]
    exact (congrArg (orderedOn c l ++ ·) hnil).trans (List.append_nil _)
  rw [happend]
  exact h c

/-- The expected frame of a channel. -/
theorem Numbered.push (h : Numbered expected l) (hmode : frame.reliability = .ok .reliableOrdered)
    {c : ℕ} (hc : frame.orderChannel = c) (hindex : frame.orderedFrameIndex = expected.get c) :
    Numbered (expected.set c (next (expected.get c))) (l ++ [frame]) := by
  intro c'
  obtain ⟨hmap, hget⟩ := h c'
  rw [ChannelIndexes.get_set]
  by_cases he : c' = c
  · subst he
    have happend : orderedOn c' (l ++ [frame]) = orderedOn c' l ++ [frame] := by
      rw [orderedOn, List.filter_append]
      simp [orderedOn, hmode, hc]
    rw [happend, List.map_append, hmap, if_pos rfl, List.length_append, List.length_singleton,
      List.range_succ, List.map_append, hget]
    refine ⟨?_, next_mod _⟩
    simp [hindex, hget]
  · have happend : orderedOn c' (l ++ [frame]) = orderedOn c' l := by
      have hne : frame.orderChannel ≠ c' := fun h => he (h.symm.trans hc)
      rw [orderedOn, List.filter_append]
      simp [orderedOn, hne]
    rw [happend, if_neg he]
    exact ⟨hmap, hget⟩

end numbered

/-! ### The invariant -/

/-- The queue after it handed out the frames `out`. -/
structure Inv (out : List FrameSetPacket) (q : RecvQ) : Prop where
  fragments : q.fragmentQueue.Sound fun _ => True
  packets : ∀ k f, q.packets.lookup k = some f → f.reliability ≠ .ok .reliableOrdered
  stored : ∀ c i f, q.orderedPackets.lookup (c, i) = some f →
    f.reliability = .ok .reliableOrdered ∧ f.orderChannel = c ∧ f.orderedFrameIndex = i
  numbered : Numbered q.lastOrderedIndexes (out ++ q.readyOrdered)

section insert

variable {out : List FrameSetPacket} {q : RecvQ} {frame m : FrameSetPacket}

theorem inv_new : Inv [] RecvQ.new where
  fragments := sound_empty _
  packets k f h := by cases h
  stored c i f h := by cases h
  numbered c := ⟨rfl, by simp [RecvQ.new, orderedOn]⟩

theorem Inv.release (h : Inv out q) {c : ℕ}
    (hl : q.orderedPackets.lookup (c, q.lastOrderedIndexes.get c) = some frame) :
    Inv out (q.release c frame) where
  fragments := h.fragments
  packets := h.packets
  stored c' i f hf := by
    simp only [RecvQ.release] at hf
    by_cases hk : (c', i) = (c, q.lastOrderedIndexes.get c)
    · rw [hk, AList.lookup_erase] at hf
      cases hf
    · rw [AList.lookup_erase_ne hk] at hf
      exact h.stored c' i f hf
  numbered := by
    obtain ⟨hmode, hc, hindex⟩ := h.stored _ _ _ hl
    simp only [RecvQ.release]
    rw [← List.append_assoc]
    exact h.numbered.push hmode hc hindex

theorem Inv.ready (h : Inv out q) (hmode : m.reliability = .ok .reliableOrdered)
    (hindex : m.orderedFrameIndex = q.lastOrderedIndexes.get m.orderChannel) :
    Inv out (q.ready m) where
  fragments := h.fragments
  packets := h.packets
  stored := h.stored
  numbered := by
    simp only [RecvQ.ready]
    rw [← List.append_assoc]
    exact h.numbered.push hmode rfl hindex

theorem Inv.store (h : Inv out q) (hmode : m.reliability = .ok .reliableOrdered) :
    Inv out (q.store m) where
  fragments := h.fragments
  packets := h.packets
  stored c i f hf := by
    simp only [RecvQ.store] at hf
    by_cases hk : (c, i) = (m.orderChannel, m.orderedFrameIndex)
    · rw [hk, AList.lookup_insert] at hf
      obtain ⟨rfl, rfl⟩ := Prod.mk.inj hk
      obtain rfl := Option.some.inj hf
      exact ⟨hmode, rfl, rfl⟩
    · rw [AList.lookup_insert_ne hk] at hf
      exact h.stored c i f hf
  numbered := h.numbered

theorem Inv.insertComplete (h : Inv out q) (hmode : m.reliability = .ok .reliableOrdered) {e : ℕ}
    (he : e = q.lastOrderedIndexes.get m.orderChannel) : Inv out (q.insertComplete e m).2 := by
  unfold RecvQ.insertComplete
  split
  · exact h
  · split_ifs with hfull hindex
    · exact h
    · exact (drain_induction m.orderChannel (fun q f hI hl => hI.release hl) _ (q.ready m) rfl
        (h.ready hmode (hindex.trans he))).1
    · exact h.store hmode

/-- What the reassembly of an ordered frame completes. -/
structure Completes (frame m : FrameSetPacket) : Prop where
  mode : m.reliability = .ok .reliableOrdered
  channel : m.orderChannel = frame.orderChannel
  index : m.orderedFrameIndex = frame.orderedFrameIndex

theorem merge_mode {g : Fragment} (hr : frame.reliability = .ok .reliableOrdered)
    (hmatch : g.Matches frame) (hm : g.merge = .ok m) : m.reliability = .ok .reliableOrdered := by
  have hmode : Reliability.ofU8 ((g.flags &&& 224) >>> 5) = .ok .reliableOrdered := by
    rw [← hmatch.2.2.2.2]
    exact hr
  unfold Fragment.merge at hm
  split_ifs at hm
  split at hm
  · cases hm
  · split at hm
    · cases hm
    · obtain ⟨data, -, hm⟩ := bind_eq_ok.mp hm
      rw [hmode, ok_bind] at hm
      obtain rfl := Except.ok.inj hm
      simp [FrameSetPacket.reliability, FrameSetPacket.new, FrameSetPacket.fromPayload]

theorem Inv.reassemble (h : Inv out q) (hr : frame.reliability = .ok .reliableOrdered) :
    Inv out (q.reassemble frame).2 ∧
      (q.reassemble frame).2.lastOrderedIndexes = q.lastOrderedIndexes ∧
      ∀ m, (q.reassemble frame).1 = .ok (some m) → Completes frame m := by
  unfold RecvQ.reassemble
  by_cases hf : frame.isFragment
  · rw [if_pos hf]
    obtain ⟨hs, hm⟩ := h.fragments.takeCompleted frame trivial
    refine ⟨{ h with fragments := hs }, rfl, fun m he => ?_⟩
    obtain ⟨g, -, -, hmatch, hmerge⟩ := hm m he
    obtain ⟨hindex, hchannel, -⟩ := merge_indexes hmerge
    exact ⟨merge_mode hr hmatch hmerge, hchannel.trans hmatch.2.2.1.symm,
      hindex.trans hmatch.2.2.2.1.symm⟩
  · rw [if_neg hf]
    refine ⟨h, rfl, fun m he => ?_⟩
    obtain rfl := Option.some.inj (Except.ok.inj he)
    exact ⟨hr, rfl, rfl⟩

theorem Inv.insertOrdered (h : Inv out q) (hr : frame.reliability = .ok .reliableOrdered) :
    Inv out (q.insertOrdered frame).2 := by
  obtain ⟨hq, hexpected, hm⟩ := h.reassemble hr
  unfold RecvQ.insertOrdered
  simp only
  split_ifs
  · exact h
  · exact h
  · rcases he : q.reassemble frame with ⟨_ | _ | m, q'⟩ <;> rw [he] at hq hexpected hm
    · exact hq
    · exact hq
    · obtain ⟨hmode, hchannel, -⟩ := hm m rfl
      exact hq.insertComplete hmode (by rw [hexpected, hchannel])

theorem Inv.insert (h : Inv out q) : Inv out (q.insert frame).2 := by
  refine insert_rule frame ?_ ?_ ?_ ?_ q h
  · exact fun q acks h => { h with }
  · exact fun q b w h _ => { h with }
  · rintro q _ h ⟨packets, sequenced, rfl, hput⟩ hmode
    refine { h with packets := fun k f hf => ?_ }
    rcases hput k f hf with hf | rfl
    · exact h.packets k f hf
    · exact hmode
  · exact fun q h hr => h.insertOrdered hr

theorem Inv.flushInto (h : Inv out q) : Inv (out ++ q.flushInto.1) q.flushInto.2 where
  fragments := h.fragments
  packets k f hf := by cases hf
  stored := h.stored
  numbered := by
    simp only [RecvQ.flushInto]
    rw [List.append_nil, ← List.append_assoc]
    refine h.numbered.skip fun f hf => ?_
    rw [RecvQ.sortedPackets, List.mem_insertionSort, List.mem_map] at hf
    obtain ⟨e, he, rfl⟩ := hf
    exact h.packets e.1 e.2 (mem_entries.mp he)

end insert

theorem Inv.receive {s : Session} (h : Inv s.released s.queue) (frame : FrameSetPacket) :
    Inv (s.receive frame).released (s.receive frame).queue := by
  have hi : Inv s.released (s.queue.insert frame).2 := h.insert
  rcases he : s.queue.insert frame with ⟨_ | _, q⟩ <;> rw [he] at hi
  · rw [Session.receive_error he]
    exact hi
  · rw [Session.receive_ok he]
    exact hi.flushInto

theorem inv_run (frames : List FrameSetPacket) :
    Inv (Session.run frames).released (Session.run frames).queue := by
  induction frames using List.reverseRecOn with
  | nil => exact inv_new
  | append_singleton frames f ih =>
    rw [Session.run_append]
    exact ih.receive f

/-! ### Dropped and rejected frames -/

/-- `insert` returns `Ok(())` and keeps nothing of the frame. -/
inductive Drops (q : RecvQ) (frame : FrameSetPacket) : Prop
  /-- The reliable window knows its reliable index. -/
  | repeated {r : Reliability} {w : ReliableWindow} (mode : frame.reliability = .ok r)
      (reliable : r.isReliable = true)
      (known : q.reliableWindow.accept frame.reliableFrameIndex = .ok (false, w))
  /-- A frame of the same datagram waits to be flushed. -/
  | occupied {r : Reliability} {f : FrameSetPacket} (mode : frame.reliability = .ok r)
      (entry : r = .unreliable ∨ r = .unreliableSequenced ∨ r = .reliableSequenced)
      (occupied : q.packets.lookup frame.sequenceNumber = some f)
  /-- A sequenced frame older than one that came. -/
  | outdated {r : Reliability} (mode : frame.reliability = .ok r)
      (sequenced : r = .unreliableSequenced ∨ r = .reliableSequenced)
      (old : ¬ (frame.sequencedFrameIndex = q.sequencedFrameIndexes.get frame.orderChannel ∨
        newer frame.sequencedFrameIndex (q.sequencedFrameIndexes.get frame.orderChannel)))
  /-- An ordered frame that has had its turn. -/
  | passed (mode : frame.reliability = .ok .reliableOrdered)
      (behind : newer (q.lastOrderedIndexes.get frame.orderChannel) frame.orderedFrameIndex)
  /-- A fragment that its compound has. -/
  | fragment {f : FrameSetPacket} (mode : frame.reliability = .ok .reliableOrdered)
      (fragment : frame.isFragment = true)
      (held : (q.fragmentQueue.entry frame).frames.lookup frame.fragmentIndex = some f)
  /-- An ordered message that is stored already. -/
  | stored {m f : FrameSetPacket} (mode : frame.reliability = .ok .reliableOrdered)
      (complete : (q.reassemble frame).1 = .ok (some m))
      (held : q.orderedPackets.lookup (m.orderChannel, m.orderedFrameIndex) = some f)

/-- The channels expect the same frames, the same frames are stored, and no other is ready. -/
def SameOrder (q q' : RecvQ) : Prop :=
  q'.lastOrderedIndexes = q.lastOrderedIndexes ∧ q'.orderedPackets = q.orderedPackets ∧
    q'.readyOrdered = q.readyOrdered

section dropped

variable {q : RecvQ} {frame : FrameSetPacket}

theorem insertComplete_sameOrder {m : FrameSetPacket} {e : ℕ}
    (h : (∃ f, q.orderedPackets.lookup (m.orderChannel, m.orderedFrameIndex) = some f) ∨
      ∃ e', (q.insertComplete e m).1 = .error e') : SameOrder q (q.insertComplete e m).2 := by
  unfold RecvQ.insertComplete at h ⊢
  split
  · exact ⟨rfl, rfl, rfl⟩
  · next hnone =>
    rw [hnone] at h
    simp only at h
    split_ifs at h ⊢
    · exact ⟨rfl, rfl, rfl⟩
    · simp at h
    · simp at h

theorem insertOrdered_sameOrder
    (h : newer (q.lastOrderedIndexes.get frame.orderChannel) frame.orderedFrameIndex ∨
      (∀ m, (q.reassemble frame).1 = .ok (some m) →
        ∃ f, q.orderedPackets.lookup (m.orderChannel, m.orderedFrameIndex) = some f) ∨
      ∃ e, (q.insertOrdered frame).1 = .error e) : SameOrder q (q.insertOrdered frame).2 := by
  have hq : SameOrder q (q.reassemble frame).2 := by
    unfold RecvQ.reassemble
    split_ifs <;> exact ⟨rfl, rfl, rfl⟩
  unfold RecvQ.insertOrdered at h ⊢
  simp only at h ⊢
  split_ifs with hpassed hfar
  · exact ⟨rfl, rfl, rfl⟩
  · exact ⟨rfl, rfl, rfl⟩
  · rw [if_neg hpassed, if_neg hfar] at h
    rcases he : q.reassemble frame with ⟨_ | _ | m, q'⟩ <;> rw [he] at h hq
    · exact hq
    · exact hq
    · have hcomplete : SameOrder q'
          (q'.insertComplete (q.lastOrderedIndexes.get frame.orderChannel) m).2 := by
        refine insertComplete_sameOrder ?_
        rcases h with h | h | h
        · exact absurd h hpassed
        · rw [hq.2.1]
          exact .inl (h m rfl)
        · exact .inr h
      exact ⟨hcomplete.1.trans hq.1, hcomplete.2.1.trans hq.2.1, hcomplete.2.2.trans hq.2.2⟩

theorem reassemble_held {P : FrameSetPacket → Prop} {f m : FrameSetPacket}
    (hs : q.fragmentQueue.Sound P) (hfragment : frame.isFragment = true)
    (hheld : (q.fragmentQueue.entry frame).frames.lookup frame.fragmentIndex = some f) :
    (q.reassemble frame).1 ≠ .ok (some m) := by
  unfold RecvQ.reassemble
  rw [if_pos hfragment]
  rcases takeCompleted_cases hs frame with ⟨q', e, -, -⟩ | ⟨-, -, -, e⟩ | ⟨-, -, hn, -⟩ |
    ⟨-, -, hn, -⟩
  · simp [e]
  · simp [e]
  · rw [hheld] at hn
    cases hn
  · rw [hheld] at hn
    cases hn

/-- What a dropped frame completes is stored already. -/
theorem Drops.complete {P : FrameSetPacket → Prop} (h : Drops q frame)
    (hs : q.fragmentQueue.Sound P) (hmode : frame.reliability = .ok .reliableOrdered)
    {w : ReliableWindow} (hnew : q.reliableWindow.accept frame.reliableFrameIndex = .ok (true, w)) :
    newer (q.lastOrderedIndexes.get frame.orderChannel) frame.orderedFrameIndex ∨
      ∀ m, (q.reassemble frame).1 = .ok (some m) →
        ∃ f, q.orderedPackets.lookup (m.orderChannel, m.orderedFrameIndex) = some f := by
  cases h with
  | repeated mode _ known => simp [known] at hnew
  | occupied mode entry _ =>
    obtain rfl := Except.ok.inj (mode.symm.trans hmode)
    simp at entry
  | outdated mode sequenced _ =>
    obtain rfl := Except.ok.inj (mode.symm.trans hmode)
    simp at sequenced
  | passed _ behind => exact .inl behind
  | fragment _ fragment held =>
    exact .inr fun m hm => absurd hm (reassemble_held hs fragment held)
  | @stored m f _ complete held =>
    refine .inr fun m' hm' => ⟨f, ?_⟩
    obtain rfl := Option.some.inj (Except.ok.inj (complete.symm.trans hm'))
    exact held

/-- **A dropped or rejected frame leaves the order of every channel.** -/
theorem insert_sameOrder {P : FrameSetPacket → Prop} (hs : q.fragmentQueue.Sound P)
    (h : Drops q frame ∨ ∃ e, (q.insert frame).1 = .error e) :
    SameOrder q (q.insert frame).2 := by
  by_cases hmode : frame.reliability = .ok .reliableOrdered
  · have hreliable : Reliability.reliableOrdered.isReliable = true := rfl
    rw [insert_eq hmode, if_pos hreliable] at h ⊢
    rcases hwindow : q.reliableWindow.accept frame.reliableFrameIndex with e | ⟨_ | _, w⟩
    · exact ⟨rfl, rfl, rfl⟩
    · exact ⟨rfl, rfl, rfl⟩
    · rw [hwindow] at h
      refine insertOrdered_sameOrder (q := { q with
        sequenceNumberAckset := q.sequenceNumberAckset.insert frame.sequenceNumber
        reliableWindow := w }) ?_
      rcases h with h | h
      · have hreassemble : (RecvQ.reassemble { q with
            sequenceNumberAckset := q.sequenceNumberAckset.insert frame.sequenceNumber
            reliableWindow := w } frame).1 = (q.reassemble frame).1 := by
          unfold RecvQ.reassemble
          split_ifs <;> rfl
        rw [hreassemble]
        exact (h.complete hs hmode hwindow).imp_right .inl
      · exact .inr (.inr h)
  · refine insert_rule (I := SameOrder q) frame (fun _ _ h => h) (fun _ _ _ h _ => h) ?_
      (fun _ _ hr => absurd hr hmode) q ⟨rfl, rfl, rfl⟩
    rintro q' _ hsame ⟨packets, sequenced, rfl, -⟩ -
    exact hsame

end dropped

theorem readyOrdered_run (frames : List FrameSetPacket) :
    (Session.run frames).queue.readyOrdered = [] := by
  induction frames using List.reverseRecOn with
  | nil => rfl
  | append_singleton frames f ih =>
    rw [Session.run_append]
    rcases he : (Session.run frames).queue.insert f with ⟨e | _, q⟩
    · have hsame := insert_sameOrder (inv_run frames).fragments (.inr ⟨e, congrArg Prod.fst he⟩)
      rw [Session.receive_error he]
      rw [he] at hsame
      exact hsame.2.2.trans ih
    · rw [Session.receive_ok he]
      rfl

/-- **Ordered delivery has no gap, no duplicate and no reordering, whatever the peer sends**: on
every channel the indexes of the ordered frames handed out are 0, 1, 2, … modulo 2^24, and a frame
that is dropped or rejected changes neither the expected index nor the stored frames. -/
theorem ordered_consecutive (frames : List FrameSetPacket) (c : ℕ) :
    ((orderedOn c (Session.run frames).released).map fun f => f.orderedFrameIndex) =
      (List.range (orderedOn c (Session.run frames).released).length).map (· % 2 ^ 24) ∧
    (Session.run frames).queue.lastOrderedIndexes.get c =
      (orderedOn c (Session.run frames).released).length % 2 ^ 24 ∧
    ∀ frame, (Drops (Session.run frames).queue frame ∨
        ∃ e, ((Session.run frames).queue.insert frame).1 = .error e) →
      ((Session.run frames).queue.insert frame).2.lastOrderedIndexes.get c =
        (Session.run frames).queue.lastOrderedIndexes.get c ∧
      ∀ i, ((Session.run frames).queue.insert frame).2.orderedPackets.lookup (c, i) =
        (Session.run frames).queue.orderedPackets.lookup (c, i) := by
  have h := inv_run frames
  obtain ⟨hindexes, hexpected⟩ := h.numbered c
  rw [readyOrdered_run, List.append_nil] at hindexes hexpected
  refine ⟨hindexes, hexpected, fun frame hframe => ?_⟩
  obtain ⟨hlast, hpackets, -⟩ := insert_sameOrder h.fragments hframe
  exact ⟨by rw [hlast], fun i => by rw [hpackets]⟩

/-- The frame of ordered index 1 is stored; one far ahead is rejected and leaves it stored. -/
theorem ordered_consecutive_rejected :
    ((Session.run [{ FrameSetPacket.new .reliableOrdered [0xfe] with
        orderedFrameIndex := 1 }]).queue.insert
      { FrameSetPacket.new .reliableOrdered [0xfe] with
        reliableFrameIndex := 1, orderedFrameIndex := 65536 }).2.orderedPackets.lookup (0, 1) =
    (Session.run [{ FrameSetPacket.new .reliableOrdered [0xfe] with
      orderedFrameIndex := 1 }]).queue.orderedPackets.lookup (0, 1) :=
  ((ordered_consecutive _ 0).2.2 _ (.inr ⟨.packetParseError, by decide +kernel⟩)).2 1

end RustRaknet.Recv.InOrder
