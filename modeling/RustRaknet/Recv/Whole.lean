import RustRaknet.Recv.Limits

/-! # Whole messages

What the receive queue releases is a whole message (`WholeMessage`): the payload of an unfragmented frame,
or all the fragments of one compound in order. This holds as long as fragments come in ordered
frames (`released_whole`). The arms of `insert` for the other four modes do not look at the fragment
bit, and release a fragment as if it were a message (`released_fragment`). -/

namespace RustRaknet.Recv.Whole

open RustRaknet.Frame RustRaknet.Sequence RustRaknet.Reassembly
  RustRaknet.Recv.Limits RustRaknet.Lib.Keyed

/-- All the fragments of one compound, in order, among the frames `L`. -/
def IsCompound (L gs : List FrameSetPacket) : Prop :=
  gs ≠ [] ∧ ∃ id, ∀ i g, gs[i]? = some g → g ∈ L ∧ g.isFragment = true ∧ g.compoundId = id ∧
    g.fragmentIndex = i ∧ g.compoundSize = gs.length

/-- A message made of frames of `L`: one that is not a fragment, or a compound. -/
def WholeMessage (L : List FrameSetPacket) (m : FrameSetPacket) : Prop :=
  m.isFragment = false ∧
    ((∃ f ∈ L, f.isFragment = false ∧ m.data.deref = f.data.deref) ∨
      ∃ gs, IsCompound L gs ∧ m.data.deref = (gs.map fun g => g.data.deref).flatten)

theorem WholeMessage.mono {L L' : List FrameSetPacket} {m : FrameSetPacket} (hsub : ∀ f ∈ L, f ∈ L')
    (h : WholeMessage L m) : WholeMessage L' m := by
  obtain ⟨hm, ⟨f, hf, h⟩ | ⟨gs, ⟨hne, id, hall⟩, h⟩⟩ := h
  · exact ⟨hm, .inl ⟨f, hsub f hf, h⟩⟩
  · refine ⟨hm, .inr ⟨gs, ⟨hne, id, fun i g hg => ?_⟩, h⟩⟩
    obtain ⟨hmem, hrest⟩ := hall i g hg
    exact ⟨hsub g hmem, hrest⟩

/-- The fragments a complete compound holds, in order. -/
theorem merge_whole {L : List FrameSetPacket} {g : Fragment} {frame m : FrameSetPacket} {id : ℕ}
    (hg : g.Sound fun f => f.compoundId = id ∧ f ∈ L ∧ f.isFragment = true)
    (hfull : g.full = true) (hr : frame.reliability = .ok .reliableOrdered)
    (hmatch : g.Matches frame) (hm : g.merge = .ok m) : WholeMessage L m := by
  have hkeys : ∀ i f, g.frames.lookup i = some f → i < g.compoundSize := by
    intro i f hf
    obtain ⟨hi, ⟨hlt, -⟩, -⟩ := hg.stored i f hf
    rwa [← hi]
  obtain ⟨hne, hsize⟩ : g.compoundSize ≠ 0 ∧ size g.frames = g.compoundSize := by
    simpa [Fragment.full] using hfull
  have hmode : Reliability.ofU8 ((g.flags &&& 224) >>> 5) = .ok .reliableOrdered := by
    rw [← hmatch.2.2.2.2]; exact hr
  obtain ⟨last, -, hmerge⟩ := merge_eq hfull hkeys hmode
  cases hm.symm.trans hmerge
  refine ⟨(merge_indexes hmerge).2.2, .inr ?_⟩
  have : Nonempty FrameSetPacket := ⟨frame⟩
  choose! fragment hfragment using fun i hi => lookup_of_full hsize hkeys (i := i) hi
  refine ⟨(List.range g.compoundSize).map fragment, ⟨by simpa using hne, id, fun i f hf => ?_⟩, ?_⟩
  · obtain ⟨j, hj, rfl⟩ : ∃ j, (List.range g.compoundSize)[i]? = some j ∧ fragment j = f := by
      simpa using hf
    obtain ⟨hlt, rfl⟩ := List.getElem?_eq_some_iff.mp hj
    rw [List.getElem_range] at *
    have hi : i < g.compoundSize := by simpa using hlt
    obtain ⟨hidx, ⟨-, hcs, -⟩, hid, hmem, hfrag⟩ := hg.stored i _ (hfragment i hi)
    exact ⟨hmem, hfrag, hid, hidx, by simpa using hcs⟩
  · simp only [List.map_map]
    refine congrArg _ (List.map_congr_left fun i hi => ?_)
    simp [hfragment i (List.mem_range.mp hi)]

/-! ### The invariant -/

/-- Everything the queue holds is made of frames of `L`. -/
structure Inv (L : List FrameSetPacket) (q : RecvQ) : Prop where
  packets : ∀ k f, q.packets.lookup k = some f → WholeMessage L f
  ordered : ∀ k f, q.orderedPackets.lookup k = some f → WholeMessage L f
  ready : ∀ f ∈ q.readyOrdered, WholeMessage L f
  fragments : q.fragmentQueue.Sound fun f => f ∈ L ∧ f.isFragment = true

section insert

variable {L : List FrameSetPacket} {q : RecvQ} {frame m : FrameSetPacket}

theorem Inv.mono {L' : List FrameSetPacket} (hsub : ∀ f ∈ L, f ∈ L') (h : Inv L q) : Inv L' q where
  packets k f hf := (h.packets k f hf).mono hsub
  ordered k f hf := (h.ordered k f hf).mono hsub
  ready f hf := (h.ready f hf).mono hsub
  fragments := h.fragments.mono fun f hf => ⟨hsub f hf.1, hf.2⟩

theorem Inv.release (h : Inv L q) {c : ℕ}
    (hl : q.orderedPackets.lookup (c, q.lastOrderedIndexes.get c) = some frame) :
    Inv L (q.release c frame) where
  packets := h.packets
  ordered k f hf := by
    simp only [RecvQ.release] at hf
    by_cases hk : k = (c, q.lastOrderedIndexes.get c)
    · rw [hk, AList.lookup_erase] at hf
      cases hf
    · rw [AList.lookup_erase_ne hk] at hf
      exact h.ordered k f hf
  ready f hf := by
    simp only [RecvQ.release, List.mem_append, List.mem_singleton] at hf
    rcases hf with hf | rfl
    · exact h.ready f hf
    · exact h.ordered _ _ hl
  fragments := h.fragments

theorem Inv.insertComplete (h : Inv L q) (hm : WholeMessage L m) (e : ℕ) :
    Inv L (q.insertComplete e m).2 := by
  unfold RecvQ.insertComplete
  split
  · exact h
  · split_ifs
    · exact h
    · refine (drain_induction (I := Inv L) m.orderChannel (fun q f hI hl => hI.release hl) _
        (q.ready m) rfl { h with ready := fun f hf => ?_ }).1
      simp only [RecvQ.ready, List.mem_append, List.mem_singleton] at hf
      rcases hf with hf | rfl
      · exact h.ready f hf
      · exact hm
    · refine { h with ordered := fun k f hf => ?_ }
      simp only [RecvQ.store] at hf
      by_cases hk : k = (m.orderChannel, m.orderedFrameIndex)
      · subst hk
        rw [AList.lookup_insert] at hf
        cases hf
        exact hm
      · rw [AList.lookup_insert_ne hk] at hf
        exact h.ordered k f hf

theorem Inv.insertOrdered (h : Inv L q) (hmem : frame ∈ L)
    (hr : frame.reliability = .ok .reliableOrdered) : Inv L (q.insertOrdered frame).2 := by
  unfold RecvQ.insertOrdered
  simp only
  split_ifs
  · exact h
  · exact h
  · unfold RecvQ.reassemble
    by_cases hf : frame.isFragment
    · have hstep := h.fragments.takeCompleted frame ⟨hmem, hf⟩
      rcases he : q.fragmentQueue.insertAndTakeCompleted frame with ⟨r, fragmentQueue⟩
      rw [he] at hstep
      obtain ⟨hs, hm⟩ := hstep
      have hq : Inv L { q with fragmentQueue } := { h with fragments := hs }
      simp only [hf, if_true]
      rcases r with e | _ | m
      · exact hq
      · exact hq
      · obtain ⟨g, hg, hfull, hmatch, hmerge⟩ := hm m rfl
        exact hq.insertComplete (merge_whole hg hfull hr hmatch hmerge) _
    · simp only [hf, Bool.false_eq_true, if_false]
      have hf' : frame.isFragment = false := by simpa using hf
      exact h.insertComplete ⟨hf', .inl ⟨frame, hmem, hf', rfl⟩⟩ _

/-- An insertion keeps the invariant when a fragment is an ordered frame. -/
theorem Inv.insert (h : Inv L q) (hmem : frame ∈ L)
    (hmode : frame.isFragment = true → frame.reliability = .ok .reliableOrdered) :
    Inv L (q.insert frame).2 := by
  refine insert_rule frame ?_ ?_ ?_ ?_ q h
  · intro q acks h
    exact { h with }
  · intro q b w h _
    exact { h with }
  · rintro q _ h ⟨packets, sequenced, rfl, hp⟩ hr
    refine { h with packets := fun k f hf => ?_ }
    rcases hp k f hf with hf | rfl
    · exact h.packets k f hf
    · have hf' : f.isFragment = false := by
        by_contra hc
        exact hr (hmode (by simpa using hc))
      exact ⟨hf', .inl ⟨f, hmem, hf', rfl⟩⟩
  · intro q h hr
    exact h.insertOrdered hmem hr

end insert

theorem Inv.flushInto {L : List FrameSetPacket} {q : RecvQ} (h : Inv L q) :
    Inv L q.flushInto.2 ∧ ∀ m ∈ q.flushInto.1, WholeMessage L m := by
  refine ⟨⟨fun k f hf => ?_, h.ordered, fun f hf => ?_, h.fragments⟩, ?_⟩
  · cases hf
  · cases hf
  · intro m hm
    rcases List.mem_append.mp hm with hm | hm
    · exact h.ready m hm
    · rw [RecvQ.sortedPackets, List.mem_insertionSort] at hm
      obtain ⟨e, he, rfl⟩ := List.mem_map.mp hm
      exact h.packets e.1 e.2 (mem_entries.mp he)

/-- The condition on the peer: fragments come in ordered frames. -/
def FragmentsOrdered (frames : List FrameSetPacket) : Prop :=
  ∀ f ∈ frames, f.isFragment = true → f.reliability = .ok .reliableOrdered

theorem Inv.receive {L : List FrameSetPacket} {s : Session} {frame : FrameSetPacket}
    (h : Inv L s.queue) (hout : ∀ m ∈ s.released, WholeMessage L m) (hmem : frame ∈ L)
    (hmode : frame.isFragment = true → frame.reliability = .ok .reliableOrdered) :
    Inv L (s.receive frame).queue ∧ ∀ m ∈ (s.receive frame).released, WholeMessage L m := by
  have hi := h.insert hmem hmode
  rcases he : s.queue.insert frame with ⟨_ | _, q⟩ <;> rw [he] at hi
  · rw [Session.receive_error he]
    exact ⟨hi, hout⟩
  · rw [Session.receive_ok he]
    refine ⟨hi.flushInto.1, fun m hm => ?_⟩
    rcases List.mem_append.mp hm with hm | hm
    · exact hout m hm
    · exact hi.flushInto.2 m hm

theorem inv_new : Inv [] Session.new.queue where
  packets k f hf := by cases hf
  ordered k f hf := by cases hf
  ready f hf := by cases hf
  fragments := sound_empty _

theorem inv_run (frames : List FrameSetPacket) (h : FragmentsOrdered frames) :
    Inv frames (Session.run frames).queue ∧
      ∀ m ∈ (Session.run frames).released, WholeMessage frames m := by
  induction frames using List.reverseRecOn with
  | nil => exact ⟨inv_new, fun m hm => by cases hm⟩
  | append_singleton frames f ih =>
    obtain ⟨hq, hout⟩ := ih fun g hg => h g (by simp [hg])
    have hsub : ∀ g ∈ frames, g ∈ frames ++ [f] := fun g hg => by simp [hg]
    rw [Session.run_append]
    exact (hq.mono hsub).receive (fun m hm => (hout m hm).mono hsub) (by simp) (h f (by simp))

/-- **No partial message is released** by a peer that fragments only ordered messages. -/
theorem released_whole (frames : List FrameSetPacket) (h : FragmentsOrdered frames) :
    ∀ m ∈ (Session.run frames).released, WholeMessage frames m :=
  (inv_run frames h).2

/-- Two ordered fragments of one message, the second first. -/
def fragmentPair : List FrameSetPacket :=
  [(1, 0x02), (0, 0xfe)].map fun p => { FrameSetPacket.new .reliableOrdered [p.2] with
    flags := 0x70, reliableFrameIndex := p.1, compoundSize := 2, fragmentIndex := p.1 }

theorem released_whole_pair :
    FragmentsOrdered fragmentPair ∧ ∃ m, (Session.run fragmentPair).released = [m] ∧
      m.data.deref = [0xfe, 0x02] ∧ WholeMessage fragmentPair m := by
  have hf : FragmentsOrdered fragmentPair := by
    intro f hf _
    rcases List.mem_cons.mp hf with rfl | hf
    · rfl
    · rw [List.mem_singleton.mp hf]; rfl
  have hrun : (Session.run fragmentPair).released = [FrameSetPacket.new .reliableOrdered [0xfe, 0x02]] :=
    rfl
  refine ⟨hf, _, hrun, rfl, released_whole fragmentPair hf _ ?_⟩
  rw [hrun]
  exact List.mem_singleton_self _

/-- A datagram with the first of two fragments, in a frame of mode `Reliable`. -/
def loneFragment : Bytes := [0x84, 0, 0, 0, 0x50, 0, 8, 0, 0, 0, 0, 0, 0, 2, 0, 0, 0, 0, 0, 0, 0xfe]

/-- **A fragment is released as a message**: the arm `Reliable` does not look at the fragment
bit. -/
theorem released_fragment :
    ∃ frame, Codec.decodeInto loneFragment = .ok [frame] ∧ frame.reliability = .ok .reliable ∧
      frame.isFragment = true ∧ frame.compoundSize = 2 ∧ frame.fragmentIndex = 0 ∧
      (Session.run [frame]).released = [frame] ∧ ¬ WholeMessage [frame] frame := by
  refine ⟨_, rfl, rfl, rfl, rfl, rfl, rfl, ?_⟩
  rintro ⟨h, -⟩
  cases h

end RustRaknet.Recv.Whole
