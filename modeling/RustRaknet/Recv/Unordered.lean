import RustRaknet.Recv.Limits

/-! # Frames that are not ordered

What an insertion followed by a flush does with a frame of a mode other than `ReliableOrdered`. When
`packets` is empty, as it is after a flush, the frame is released at once (`insert_passes`) unless
the reliable window knows it or, for a sequenced frame, a newer one came (`Passes`). An ordered frame
leaves `packets` and the sequenced indexes alone (`insert_ordered`). -/

namespace RustRaknet.Recv

open RustRaknet.Frame RustRaknet.Sequence RustRaknet.Indexes RustRaknet.Lib.Keyed

/-- A sequenced frame is the newest of its channel. -/
def Newest (q : RecvQ) (r : Reliability) (frame : FrameSetPacket) : Prop :=
  r.isSequenced = true →
    frame.sequencedFrameIndex = q.sequencedFrameIndexes.get frame.orderChannel ∨
      newer frame.sequencedFrameIndex (q.sequencedFrameIndexes.get frame.orderChannel) = true

/-- The tests that a frame of the mode `r`, not ordered, has to pass. -/
structure Passes (q : RecvQ) (r : Reliability) (frame : FrameSetPacket) : Prop where
  window : r.isReliable = true →
    ∃ w, q.reliableWindow.accept frame.reliableFrameIndex = .ok (true, w)
  newest : Newest q r frame

/-- The sequenced indexes after a frame of the mode `r` passed. -/
def passed (q : RecvQ) (r : Reliability) (frame : FrameSetPacket) : ChannelIndexes :=
  if r.isSequenced then
    q.sequencedFrameIndexes.set frame.orderChannel (next frame.sequencedFrameIndex)
  else q.sequencedFrameIndexes

section insert

variable {q q' : RecvQ} {r : Reliability} {frame : FrameSetPacket}

theorem sortedPackets_empty (h : q.packets = ∅) : q.sortedPackets = [] := by
  unfold RecvQ.sortedPackets
  rw [h]
  rfl

theorem sortedPackets_insert (h : q.packets = ∅) (frame : FrameSetPacket) :
    RecvQ.sortedPackets { q with packets := q.packets.insert frame.sequenceNumber frame } =
      [frame] := by
  unfold RecvQ.sortedPackets
  rw [h]
  rfl

theorem orInsert_empty (h : q.packets = ∅) (frame : FrameSetPacket) :
    q.orInsert frame = { q with packets := q.packets.insert frame.sequenceNumber frame } := by
  unfold RecvQ.orInsert
  rw [h]
  rfl

/-- The queue after a frame was dispatched: the frame is released, or nothing is. -/
structure Released (q : RecvQ) (r : Reliability) (frame : FrameSetPacket) (passes : Prop)
    (q' : RecvQ) : Prop where
  ready : q'.readyOrdered = q.readyOrdered
  pass : passes → q'.sortedPackets = [frame] ∧ q'.sequencedFrameIndexes = passed q r frame
  drop : ¬ passes → q'.sortedPackets = [] ∧ q'.sequencedFrameIndexes = q.sequencedFrameIndexes

/-- What is released after a frame of the mode `r` was let in by the window. -/
theorem dispatch_unordered (frame : FrameSetPacket) (h : q.packets = ∅)
    (hr : r ≠ .reliableOrdered) :
    Released q r frame (Newest q r frame) (q.dispatch r frame).2 := by
  have hplain : r.isSequenced = false →
      (q.dispatch r frame).2 =
        { q with packets := q.packets.insert frame.sequenceNumber frame } := by
    intro hs
    cases r with
    | unreliable => exact orInsert_empty h frame
    | reliable => rfl
    | reliableOrdered => exact absurd rfl hr
    | unreliableSequenced | reliableSequenced => cases hs
  cases hs : r.isSequenced with
  | false =>
    rw [hplain hs]
    refine ⟨rfl, fun _ => ⟨sortedPackets_insert h frame, ?_⟩, fun hno => absurd (fun he => ?_) hno⟩
    · unfold passed
      rw [hs, if_neg Bool.false_ne_true]
    · exact absurd (hs.symm.trans he) Bool.false_ne_true
  | true =>
    have hdispatch : (q.dispatch r frame).2 = q.insertSequenced frame := by
      cases r with
      | unreliableSequenced | reliableSequenced => rfl
      | unreliable | reliable | reliableOrdered => cases hs
    rw [hdispatch]
    unfold RecvQ.insertSequenced
    simp only
    split_ifs with hcurrent
    · rw [orInsert_empty h]
      refine ⟨rfl, fun _ => ⟨sortedPackets_insert h frame, ?_⟩,
        fun hno => absurd (fun _ => hcurrent) hno⟩
      unfold passed
      rw [hs, if_pos rfl]
    · exact ⟨rfl, fun hyes => absurd (hyes hs) hcurrent, fun _ => ⟨sortedPackets_empty h, rfl⟩⟩

/-- **A frame that is not ordered** is released at once when it passes, and is dropped otherwise. -/
theorem insert_passes (h : q.packets = ∅) (hmode : frame.reliability = .ok r)
    (hr : r ≠ .reliableOrdered) (hok : q.insert frame = (.ok (), q')) :
    Released q r frame (Passes q r frame) q' := by
  rw [insert_eq hmode] at hok
  cases hrel : r.isReliable with
  | false =>
    rw [hrel, if_neg Bool.false_ne_true] at hok
    obtain ⟨hready, hpass, hdrop⟩ := dispatch_unordered (q := { q with
      sequenceNumberAckset := q.sequenceNumberAckset.insert frame.sequenceNumber }) frame h hr
    rw [hok] at hready hpass hdrop
    refine ⟨hready, fun hp => hpass hp.newest, fun hp => hdrop fun hn => hp ⟨fun he => ?_, hn⟩⟩
    exact absurd (hrel.symm.trans he) Bool.false_ne_true
  | true =>
    rw [hrel, if_pos rfl] at hok
    rcases haccept : q.reliableWindow.accept frame.reliableFrameIndex with e | ⟨_ | _, w⟩
    · rw [haccept] at hok
      cases congrArg Prod.fst hok
    · rw [haccept] at hok
      obtain rfl := (Prod.mk.inj hok).2
      refine ⟨rfl, fun hp => ?_, fun _ => ⟨sortedPackets_empty h, rfl⟩⟩
      obtain ⟨w', hw⟩ := hp.window hrel
      rw [haccept] at hw
      cases hw
    · rw [haccept] at hok
      simp only [if_true] at hok
      obtain ⟨hready, hpass, hdrop⟩ := dispatch_unordered (q := { q with
        sequenceNumberAckset := q.sequenceNumberAckset.insert frame.sequenceNumber
        reliableWindow := w }) frame h hr
      rw [hok] at hready hpass hdrop
      exact ⟨hready, fun hp => hpass hp.newest,
        fun hp => hdrop fun hn => hp ⟨fun _ => ⟨w, haccept⟩, hn⟩⟩

theorem insert_ordered (hmode : frame.reliability = .ok .reliableOrdered) :
    (q.insert frame).2.packets = q.packets ∧
      (q.insert frame).2.sequencedFrameIndexes = q.sequencedFrameIndexes := by
  let I : RecvQ → Prop := fun q' => q'.packets = q.packets ∧
    q'.sequencedFrameIndexes = q.sequencedFrameIndexes
  have hordered : ∀ q', I q' → I (q'.insertOrdered frame).2 :=
    insertOrdered_rule frame (fun _ _ h => h) (fun _ _ h => h) (fun _ _ _ h => h) fun _ _ h => h
  exact insert_rule (I := I) frame (fun _ _ h => h) (fun _ _ _ h _ => h)
    (fun _ _ _ _ hne => absurd hmode hne) (fun q' h _ => hordered q' h) q ⟨rfl, rfl⟩

end insert

end RustRaknet.Recv
