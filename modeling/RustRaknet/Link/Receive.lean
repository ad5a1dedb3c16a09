import RustRaknet.Link.Carry
import RustRaknet.Recv.Limits
import RustRaknet.Recv.Order

/-! # The receive queue against the log

What the receive queue holds when the frames at the positions `A` have arrived: the window stands for
`A`, the complete messages of every channel are handed out up to the first that is not complete and
stored beyond it, and every message of which some but not all fragments are in `A` has a group with
those fragments. One more frame of the log, whose position is within half a turn of the first one
missing, keeps it so (`Receives.insert`), unless the queue rejects it, which it does for three
reasons (`Takes`): the position is outside the receive window, or the fragment or the complete
message finds no room. -/

namespace RustRaknet.Link

open RustRaknet.Send RustRaknet.Frame RustRaknet.Lib.Serial RustRaknet.Recv RustRaknet.Sequence
open RustRaknet.Reassembly (Compound Fragment FragmentQ takeCompleted_piece)

/-- The frame is the message of rank `o` on the channel `c`. -/
structure IsMessage (limit : ℕ) (log : List Message) (c o : ℕ) (f : FrameSetPacket) : Prop where
  mode : f.reliability = .ok .reliableOrdered
  channel : f.orderChannel = c
  message : ∃ (k : ℕ) (m : Message), log[k]? = some m ∧ On c m ∧
    (before limit log k).ordered c = o ∧ f.data.deref = m.payload

/-- The fragments of the message `k` that are in `A`. -/
def parts (limit : ℕ) (log : List Message) (A : Finset ℕ) (k : ℕ) (m : Message) : Finset ℕ :=
  (Finset.range (m.count limit)).filter fun i => (before limit log k).reliable + i ∈ A

/-- Some but not all fragments of the message `k` are in `A`. -/
structure Open (limit : ℕ) (log : List Message) (A : Finset ℕ) (k : ℕ) (m : Message) : Prop where
  message : log[k]? = some m
  fragmented : m.Fragmented limit
  some : (parts limit log A k m).Nonempty
  missing : ¬ Complete limit log A k m

/-- The groups are those of the open messages. -/
structure Groups (limit : ℕ) (log : List Message) (A : Finset ℕ)
    (fragments : AList fun _ : ℕ => Fragment) : Prop where
  group : ∀ id g, fragments.lookup id = some g → ∃ k m, Open limit log A k m ∧
    (compoundOf limit log k m).id = id ∧
    (compoundOf limit log k m).Group (parts limit log A k m) g
  opened : ∀ k m, Open limit log A k m →
    ∃ g, fragments.lookup (compoundOf limit log k m).id = some g

/-- What the queue holds of the messages. -/
structure Holds (limit : ℕ) (log : List Message) (A : Finset ℕ) (q : RecvQ) : Prop where
  ordered : Buffered (IsMessage limit log) (done limit log A) q
  groups : Groups limit log A q.fragmentQueue.fragments

/-! ### Fragments -/

section parts

variable {limit : ℕ} {log : List Message} {A : Finset ℕ} {k k' : ℕ} {m m' : Message} {i : ℕ}

theorem complete_iff_parts :
    Complete limit log A k m ↔ parts limit log A k m = Finset.range (m.count limit) := by
  unfold Complete parts
  rw [Finset.filter_eq_self]
  simp only [Finset.mem_range]

theorem mem_parts : i ∈ parts limit log A k m ↔
    i < m.count limit ∧ (before limit log k).reliable + i ∈ A := by
  simp [parts]

theorem parts_insert_self (log : List Message) (hi : i < m.count limit) :
    parts limit log (insert ((before limit log k).reliable + i) A) k m =
      insert i (parts limit log A k m) := by
  ext j
  simp only [mem_parts, Finset.mem_insert]
  constructor
  · rintro ⟨hj, he | hmem⟩
    · exact .inl (by omega)
    · exact .inr ⟨hj, hmem⟩
  · rintro (rfl | ⟨hj, hmem⟩)
    · exact ⟨hi, .inl rfl⟩
    · exact ⟨hj, .inr hmem⟩

theorem parts_insert (hpos : 0 < limit) (hk : log[k]? = some m)
    (hr : m.reliability.isReliable = true) (hi : i < m.count limit) (hk' : log[k']? = some m')
    (hr' : m'.reliability.isReliable = true) (hne : k' ≠ k) :
    parts limit log (insert ((before limit log k).reliable + i) A) k' m' =
      parts limit log A k' m' := by
  ext j
  simp only [mem_parts, Finset.mem_insert]
  constructor
  · rintro ⟨hj, he | hmem⟩
    · exact absurd (position_inj hpos hk' hr' hk hr hj hi he).1 hne
    · exact ⟨hj, hmem⟩
  · rintro ⟨hj, hmem⟩
    exact ⟨hj, .inr hmem⟩

theorem Open.isReliable (h : Open limit log A k m) : m.reliability.isReliable = true := by
  rw [h.fragmented.1]
  rfl

theorem open_insert (hpos : 0 < limit) (hk : log[k]? = some m)
    (hr : m.reliability.isReliable = true) (hi : i < m.count limit) (hne : k' ≠ k) :
    Open limit log (insert ((before limit log k).reliable + i) A) k' m' ↔
      Open limit log A k' m' := by
  constructor
  · rintro ⟨hk', hf, hsome, hmissing⟩
    have hr' : m'.reliability.isReliable = true := by rw [hf.1]; rfl
    rw [parts_insert hpos hk hr hi hk' hr' hne] at hsome
    rw [complete_insert hpos hk hr hk' hr' hi hne] at hmissing
    exact ⟨hk', hf, hsome, hmissing⟩
  · rintro ⟨hk', hf, hsome, hmissing⟩
    have hr' : m'.reliability.isReliable = true := by rw [hf.1]; rfl
    rw [← parts_insert (A := A) hpos hk hr hi hk' hr' hne] at hsome
    rw [← complete_insert hpos hk hr hk' hr' hi hne] at hmissing
    exact ⟨hk', hf, hsome, hmissing⟩

end parts

/-! ### The groups of open messages -/

section groups

variable {limit : ℕ} {log : List Message} {A : Finset ℕ} {k : ℕ} {m : Message} {i : ℕ}
  {fragments : AList fun _ : ℕ => Fragment}

/-- A frame of the log that has not arrived and is in the receive window. -/
structure Fresh (limit : ℕ) (log : List Message) (A : Finset ℕ) (k : ℕ) (m : Message) (i : ℕ) :
    Prop where
  message : log[k]? = some m
  lt : i < m.count limit
  new : (before limit log k).reliable + i ∉ A
  near : (before limit log k).reliable + i < mex A + 65536

theorem Fresh.missing (h : Fresh limit log A k m i) : ¬ Complete limit log A k m := fun hc =>
  h.new (hc i h.lt)

theorem Open.eq_of_id (hpos : 0 < limit) (hwindow : ∀ p ∈ A, p < mex A + 65536)
    (hfresh : Fresh limit log A k m i) (hf : m.Fragmented limit) {k' : ℕ} {m' : Message}
    (ho : Open limit log A k' m')
    (he : (compoundOf limit log k' m').id = (compoundOf limit log k m).id) : k' = k ∧ m' = m := by
  obtain ⟨j, hj⟩ := ho.some
  obtain rfl := compound_inj hpos ho.message ho.fragmented hfresh.message hf
    (hwindow _ (mem_parts.mp hj).2) hfresh.near ho.missing hfresh.missing he
  exact ⟨rfl, Option.some.inj (ho.message.symm.trans hfresh.message)⟩

theorem Groups.entry (h : Groups limit log A fragments) (hpos : 0 < limit)
    (hwindow : ∀ p ∈ A, p < mex A + 65536) (hfresh : Fresh limit log A k m i)
    (hf : m.Fragmented limit) :
    fragments.lookup (compoundOf limit log k m).id = none ∧ parts limit log A k m = ∅ ∨
      ∃ g, fragments.lookup (compoundOf limit log k m).id = some g ∧
        (compoundOf limit log k m).Group (parts limit log A k m) g := by
  rcases hl : fragments.lookup (compoundOf limit log k m).id with _ | g
  · refine .inl ⟨rfl, ?_⟩
    by_contra hne
    obtain ⟨g, hg⟩ := h.opened k m ⟨hfresh.message, hf, Finset.nonempty_iff_ne_empty.mpr hne,
      hfresh.missing⟩
    rw [hl] at hg
    cases hg
  · obtain ⟨k', m', ho, hid, hg⟩ := h.group _ g hl
    obtain ⟨rfl, rfl⟩ := ho.eq_of_id hpos hwindow hfresh hf hid
    exact .inr ⟨g, rfl, hg⟩

theorem Groups.keep (h : Groups limit log A fragments) (hpos : 0 < limit) (hk : log[k]? = some m)
    (hr : m.reliability.isReliable = true) (hi : i < m.count limit) (hf : ¬ m.Fragmented limit) :
    Groups limit log (insert ((before limit log k).reliable + i) A) fragments := by
  have hne : ∀ {k' m'}, log[k']? = some m' → m'.Fragmented limit → k' ≠ k := by
    rintro k' m' hk' hf' rfl
    exact hf (Option.some.inj (hk.symm.trans hk') ▸ hf')
  refine ⟨fun id g hg => ?_, fun k' m' ho => ?_⟩
  · obtain ⟨k', m', ho, hid, hgroup⟩ := h.group id g hg
    have hne' := hne ho.message ho.fragmented
    refine ⟨k', m', (open_insert hpos hk hr hi hne').mpr ho, hid, ?_⟩
    rwa [parts_insert hpos hk hr hi ho.message ho.isReliable hne']
  · exact h.opened k' m' ((open_insert hpos hk hr hi (hne ho.message ho.fragmented)).mp ho)

section fragment

variable (h : Groups limit log A fragments) (hpos : 0 < limit)
  (hwindow : ∀ p ∈ A, p < mex A + 65536) (hfresh : Fresh limit log A k m i)
  (hf : m.Fragmented limit)

include h hpos hwindow hfresh hf

omit hwindow in
theorem Groups.other {id : ℕ} {g : Fragment} (hg : fragments.lookup id = some g)
    (hid : id ≠ (compoundOf limit log k m).id) :
    ∃ k' m', Open limit log (insert ((before limit log k).reliable + i) A) k' m' ∧
      (compoundOf limit log k' m').id = id ∧ (compoundOf limit log k' m').Group
        (parts limit log (insert ((before limit log k).reliable + i) A) k' m') g := by
  have hr : m.reliability.isReliable = true := by rw [hf.1]; rfl
  obtain ⟨k', m', ho, rfl, hgroup⟩ := h.group id g hg
  have hne : k' ≠ k := by
    rintro rfl
    exact hid (by rw [Option.some.inj (ho.message.symm.trans hfresh.message)])
  refine ⟨k', m', (open_insert hpos hfresh.message hr hfresh.lt hne).mpr ho, rfl, ?_⟩
  rwa [parts_insert hpos hfresh.message hr hfresh.lt ho.message ho.isReliable hne]

theorem Groups.otherOpened {k' : ℕ} {m' : Message} (hne : k' ≠ k)
    (ho : Open limit log (insert ((before limit log k).reliable + i) A) k' m') :
    (compoundOf limit log k' m').id ≠ (compoundOf limit log k m).id ∧
      ∃ g, fragments.lookup (compoundOf limit log k' m').id = some g := by
  have hr : m.reliability.isReliable = true := by rw [hf.1]; rfl
  have ho' := (open_insert hpos hfresh.message hr hfresh.lt hne).mp ho
  exact ⟨fun hid => hne (ho'.eq_of_id hpos hwindow hfresh hf hid).1, h.opened k' m' ho'⟩

/-- A fragment extends the group of its message. -/
theorem Groups.extend {g : Fragment}
    (hg : (compoundOf limit log k m).Group (insert i (parts limit log A k m)) g)
    (hmissing : ¬ Complete limit log (insert ((before limit log k).reliable + i) A) k m) :
    Groups limit log (insert ((before limit log k).reliable + i) A)
      (fragments.insert (compoundOf limit log k m).id g) := by
  have hparts := parts_insert_self log (A := A) (k := k) hfresh.lt
  have hopen : Open limit log (insert ((before limit log k).reliable + i) A) k m :=
    ⟨hfresh.message, hf, ⟨i, by rw [hparts]; exact Finset.mem_insert_self _ _⟩, hmissing⟩
  refine ⟨fun id g' hg' => ?_, fun k' m' ho => ?_⟩
  · by_cases hid : id = (compoundOf limit log k m).id
    · subst hid
      rw [AList.lookup_insert, Option.some.injEq] at hg'
      subst hg'
      exact ⟨k, m, hopen, rfl, by rwa [hparts]⟩
    · rw [AList.lookup_insert_ne hid] at hg'
      exact h.other hpos hfresh hf hg' hid
  · by_cases hne : k' = k
    · subst hne
      obtain rfl := Option.some.inj (ho.message.symm.trans hfresh.message)
      exact ⟨g, AList.lookup_insert _⟩
    · obtain ⟨hid, g', hg'⟩ := h.otherOpened hpos hwindow hfresh hf hne ho
      exact ⟨g', by rw [AList.lookup_insert_ne hid, hg']⟩

/-- The last fragment closes the group of its message. -/
theorem Groups.close
    (hcomplete : Complete limit log (insert ((before limit log k).reliable + i) A) k m) :
    Groups limit log (insert ((before limit log k).reliable + i) A)
      (fragments.erase (compoundOf limit log k m).id) := by
  refine ⟨fun id g hg => ?_, fun k' m' ho => ?_⟩
  · have hid : id ≠ (compoundOf limit log k m).id := by
      rintro rfl
      rw [AList.lookup_erase] at hg
      cases hg
    rw [AList.lookup_erase_ne hid] at hg
    exact h.other hpos hfresh hf hg hid
  · have hne : k' ≠ k := by
      rintro rfl
      obtain rfl := Option.some.inj (ho.message.symm.trans hfresh.message)
      exact ho.missing hcomplete
    obtain ⟨hid, g, hg⟩ := h.otherOpened hpos hwindow hfresh hf hne ho
    exact ⟨g, by rw [AList.lookup_erase_ne hid, hg]⟩

end fragment

end groups

/-! ### One frame -/

section insert

variable {limit : ℕ} {log : List Message} {A : Finset ℕ} {q : RecvQ} {k : ℕ} {m : Message} {i : ℕ}
  {frame : FrameSetPacket}

theorem done_same (hpos : 0 < limit) (hk : log[k]? = some m)
    (hr : m.reliability.isReliable = true) (hi : i < m.count limit)
    (h : m.reliability = .reliableOrdered →
      ¬ Complete limit log (insert ((before limit log k).reliable + i) A) k m) :
    done limit log (insert ((before limit log k).reliable + i) A) = done limit log A := by
  funext c
  rw [done_insert hpos hk hr hi, if_neg fun hc => h hc.1.1 hc.2]

theorem done_update (hpos : 0 < limit) (hk : log[k]? = some m)
    (hm : m.reliability = .reliableOrdered) (hi : i < m.count limit)
    (h : Complete limit log (insert ((before limit log k).reliable + i) A) k m) :
    done limit log (insert ((before limit log k).reliable + i) A) =
      Function.update (done limit log A) m.channel
        (insert ((before limit log k).ordered m.channel) (done limit log A m.channel)) := by
  funext c
  rw [done_insert hpos hk (by rw [hm]; rfl) hi]
  by_cases hc : c = m.channel
  · subst hc
    rw [if_pos ⟨⟨hm, rfl⟩, h⟩, Function.update_self]
  · rw [if_neg fun hon => hc hon.1.2.symm, Function.update_of_ne hc]

/-- Why the queue takes a new frame of the log. -/
structure Takes (limit : ℕ) (log : List Message) (A : Finset ℕ) (q : RecvQ) (k : ℕ) (m : Message)
    (i : ℕ) (frame : FrameSetPacket) : Prop where
  near : (before limit log k).reliable + i < mex A + 65536
  fragment : m.Fragmented limit → q.fragmentQueue.Admits frame
  room : m.reliability = .reliableOrdered →
    Complete limit log (insert ((before limit log k).reliable + i) A) k m →
    Room q m.payload.length

/-- What one frame hands out: the next messages of one channel. -/
structure Hands (limit : ℕ) (log : List Message) (A A' : Finset ℕ) (c : ℕ)
    (fs : List FrameSetPacket) : Prop where
  handed : Handed (IsMessage limit log c) (mex (done limit log A c)) fs
  moved : mex (done limit log A' c) = mex (done limit log A c) + fs.length
  others : ∀ c' ≠ c, mex (done limit log A' c') = mex (done limit log A c')

/-- The queue after a frame of the log was taken. -/
structure Taken (limit : ℕ) (log : List Message) (A A' : Finset ℕ) (q q' : RecvQ) : Prop where
  holds : Holds limit log A' q'
  hands : ∃ c fs, q'.readyOrdered = q.readyOrdered ++ fs ∧ Hands limit log A A' c fs
  window : q'.reliableWindow = q.reliableWindow

theorem Hands.nothing {A' : Finset ℕ} (h : done limit log A' = done limit log A) (c : ℕ) :
    Hands limit log A A' c [] :=
  ⟨trivial, by rw [h]; rfl, fun c' _ => by rw [h]⟩

/-- A complete message of the log is handed out or stored. -/
theorem Holds.insertComplete {A' : Finset ℕ} {c o : ℕ} (frame : FrameSetPacket)
    (hordered : Buffered (IsMessage limit log) (done limit log A) q)
    (hgroups : Groups limit log A' q.fragmentQueue.fragments)
    (hdone : done limit log A' = Function.update (done limit log A) c
      (insert o (done limit log A c)))
    (hmessage : IsMessage limit log c o frame) (hindex : frame.orderedFrameIndex = o % 16777216)
    (hnew : o ∉ done limit log A c) (hnear : o < mex (done limit log A c) + 65536) :
    (Room q frame.data.len → ∃ q',
      q.insertComplete (q.lastOrderedIndexes.get c) frame = (.ok (), q') ∧
      Taken limit log A A' q q' ∧ q'.packets = q.packets) ∧
    (¬ Room q frame.data.len →
      (q.insertComplete (q.lastOrderedIndexes.get c) frame).1 = .error .packetParseError) := by
  obtain ⟨hok, herror⟩ := hordered.insertComplete hmessage.channel hindex hmessage hnew hnear
  refine ⟨fun hroom => ?_, herror⟩
  obtain ⟨q', fs, he, hready, hhanded, hmex, hbuffered⟩ := hok hroom
  obtain ⟨hfragments, hwindow, hpackets⟩ :=
    Limits.insertComplete_frame q (q.lastOrderedIndexes.get c) frame
  rw [he] at hfragments hwindow hpackets
  refine ⟨q', he, ⟨⟨by rwa [hdone], by rwa [hfragments]⟩, ⟨c, fs, hready, hhanded, ?_, ?_⟩,
    hwindow⟩, hpackets⟩
  · rw [hdone, Function.update_self, hmex]
  · intro c' hc'
    rw [hdone, Function.update_of_ne hc']

theorem rank_window {e o : ℕ} (hle : e ≤ o) (hlt : o < e + 65536) :
    newer (e % 16777216) (o % 16777216) = false ∧
      distance (o % 16777216) (e % 16777216) < receiveWindow := by
  refine ⟨?_, ?_⟩
  · rw [Bool.eq_false_iff, ne_eq, newer_iff]
    rcases Nat.eq_or_lt_of_le hle with rfl | h
    · simp [distance_self]
    · rw [distance_mod_of_lt h (by omega)]
      omega
  · rw [distance_mod_of_le hle (by omega)]
    unfold receiveWindow
    omega

/-- What the queue does with a new frame of an ordered message. -/
def Answers (limit : ℕ) (log : List Message) (A : Finset ℕ) (q : RecvQ) (k : ℕ) (m : Message) (i : ℕ)
    (frame : FrameSetPacket) (result : Except RaknetError Unit × RecvQ) : Prop :=
  (Takes limit log A q k m i frame → ∃ q', result = (.ok (), q') ∧
    Taken limit log A (insert ((before limit log k).reliable + i) A) q q' ∧
    q'.packets = q.packets) ∧
  (¬ Takes limit log A q k m i frame → ∃ e, result.1 = .error e)

section ordered

variable (h : Holds limit log A q) (hadm : Admissible limit m)
  (hwindow : ∀ p ∈ A, p < mex A + 65536) (hfresh : Fresh limit log A k m i)
  (hcarries : Carries limit log k m i frame) (hm : m.reliability = .reliableOrdered)

include hadm hfresh hm

theorem Fresh.rank : (before limit log k).ordered m.channel ∉ done limit log A m.channel ∧
    (before limit log k).ordered m.channel < mex (done limit log A m.channel) + 65536 :=
  ⟨fun hmem => hfresh.missing ((rank_mem_done hadm.pos hfresh.message ⟨hm, rfl⟩).mp hmem),
    rank_near hadm.pos hfresh.near⟩

include h hcarries

theorem Holds.enters : q.insertOrdered frame = (match q.reassemble frame with
    | (.error e, q) => (.error e, q)
    | (.ok none, q) => (.ok (), q)
    | (.ok (some f), q') => q'.insertComplete (q.lastOrderedIndexes.get m.channel) f) := by
  obtain ⟨hnew, hnear⟩ := hfresh.rank hadm hm
  obtain ⟨hnewer, hdistance⟩ := rank_window (mex_le hnew) hnear
  unfold RecvQ.insertOrdered
  rw [hcarries.channel hm, hcarries.rank hm, h.ordered.expected m.channel]
  exact (if_neg (by simp [hnewer])).trans (if_neg (not_le.mpr hdistance))

theorem Holds.insertSingle (hf : ¬ m.Fragmented limit) :
    Answers limit log A q k m i frame (q.insertOrdered frame) := by
  obtain ⟨hnew, hnear⟩ := hfresh.rank hadm hm
  have hon : On m.channel m := ⟨hm, rfl⟩
  have hfragment : ¬ frame.isFragment = true := fun hfr => hf (hcarries.isFragment.mp hfr)
  have hreassemble : q.reassemble frame = (.ok (some frame), q) := by
    unfold RecvQ.reassemble
    rw [if_neg hfragment]
  have hc : Complete limit log (insert ((before limit log k).reliable + i) A) k m := by
    intro j hj
    have := hfresh.lt
    rw [count_single hf] at this hj
    obtain rfl : j = i := by omega
    exact Finset.mem_insert_self _ _
  have hlen : frame.data.len = m.payload.length := by rw [FramePayload.len, hcarries.whole hf]
  obtain ⟨hok, herror⟩ := Holds.insertComplete frame h.ordered
    (h.groups.keep hadm.pos hfresh.message hon.isReliable hfresh.lt hf)
    (done_update hadm.pos hfresh.message hm hfresh.lt hc)
    ⟨hm ▸ hcarries.mode, hcarries.channel hm, k, m, hfresh.message, hon, rfl, hcarries.whole hf⟩
    (hcarries.rank hm) hnew hnear
  rw [h.enters hadm hfresh hcarries hm, hreassemble]
  rw [hlen] at hok herror
  refine ⟨fun htakes => hok (htakes.room hm hc), fun hno => ⟨_, herror fun hroom => hno ?_⟩⟩
  exact ⟨hfresh.near, fun hf' => absurd hf' hf, fun _ _ => hroom⟩

include hwindow

theorem Holds.insertFragment (hsound : q.fragmentQueue.Sound fun _ => True)
    (hf : m.Fragmented limit) : Answers limit log A q k m i frame (q.insertOrdered frame) := by
  obtain ⟨hnew, hnear⟩ := hfresh.rank hadm hm
  have hon : On m.channel m := ⟨hm, rfl⟩
  have hpos := hadm.pos
  have hreassemble : q.reassemble frame = ((q.fragmentQueue.insertAndTakeCompleted frame).1,
      { q with fragmentQueue := (q.fragmentQueue.insertAndTakeCompleted frame).2 }) := by
    unfold RecvQ.reassemble
    rw [if_pos (hcarries.isFragment.mpr hf)]
  have hcomplete : Complete limit log (insert ((before limit log k).reliable + i) A) k m ↔
      insert i (parts limit log A k m) = Finset.range (m.count limit) := by
    rw [complete_iff_parts, parts_insert_self log hfresh.lt]
  rw [h.enters hadm hfresh hcarries hm, hreassemble]
  rcases takeCompleted_piece hsound (hcarries.piece hf) (h.groups.entry hpos hwindow hfresh hf)
      (fun hi => hfresh.new (mem_parts.mp hi).2) with ⟨hno, he⟩ | ⟨ha, hopen, g, hg, he⟩ |
    ⟨ha, hall, merged, fq, hmerged, he, hfq⟩
  · refine ⟨fun htakes => absurd (htakes.fragment hf) hno, fun _ => ⟨.packetParseError, ?_⟩⟩
    rw [he]
  · have hmissing := mt hcomplete.mp hopen
    have hdone := done_same (A := A) hpos hfresh.message hon.isReliable hfresh.lt fun _ => hmissing
    rw [he]
    refine ⟨fun _ => ⟨_, rfl, ⟨⟨?_, ?_⟩, ⟨m.channel, [], by simp, .nothing hdone _⟩, rfl⟩, rfl⟩,
      fun hno => absurd ⟨hfresh.near, fun _ => ha, fun _ hc => absurd hc hmissing⟩ hno⟩
    · rw [hdone]
      exact h.ordered.congr rfl rfl
    · exact h.groups.extend hpos hwindow hfresh hf hg hmissing
  · have hc := hcomplete.mpr hall
    have hlen : merged.data.len = m.payload.length := by
      rw [FramePayload.len, hmerged.data, compoundOf_whole hpos hf]
    obtain ⟨hok, herror⟩ := Holds.insertComplete (A := A)
      (q := { q with fragmentQueue := fq }) merged
      (h.ordered.congr rfl rfl) (hfq ▸ h.groups.close hpos hwindow hfresh hf hc)
      (done_update hpos hfresh.message hm hfresh.lt hc)
      ⟨hmerged.mode, hmerged.channel, k, m, hfresh.message, hon, rfl,
        hmerged.data.trans (compoundOf_whole hpos hf)⟩ hmerged.index hnew hnear
    rw [hlen] at hok herror
    rw [he]
    refine ⟨fun htakes => ?_, fun hno => ⟨_, herror fun hroom => hno ?_⟩⟩
    · obtain ⟨hcount, hbytes⟩ := htakes.room hm hc
      obtain ⟨q', he', ⟨hholds, hhands, hwin⟩, hpackets⟩ := hok ⟨hcount, hbytes⟩
      exact ⟨q', he', ⟨hholds, hhands, hwin⟩, hpackets⟩
    · exact ⟨hfresh.near, fun _ => ha, fun _ _ => ⟨hroom.count, hroom.bytes⟩⟩

/-- **A new frame of an ordered message.** -/
theorem Holds.insertOrdered (hsound : q.fragmentQueue.Sound fun _ => True) :
    Answers limit log A q k m i frame (q.insertOrdered frame) := by
  by_cases hf : m.Fragmented limit
  · exact h.insertFragment hadm hwindow hfresh hcarries hm hsound hf
  · exact h.insertSingle hadm hfresh hcarries hm hf

end ordered

end insert

end RustRaknet.Link
