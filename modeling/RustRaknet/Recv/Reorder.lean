import RustRaknet.Recv.Assembly
import RustRaknet.Recv.Queue
import RustRaknet.Send.Sharing

/-! # Fragments in any order

The fragments of a message arrive in any order, more than once, and between those of other messages.
`Compound.Held` says what the reassembly knows of one message: the set of fragments that have come.
A fragment that came before leaves the set, another one adds to it, and the last one that was
missing gives back the message and the bytes that were charged for it. What other frames do does not
touch the set (`reassembly_any_order`). -/

namespace RustRaknet.Reassembly

open RustRaknet.Frame RustRaknet.Codec RustRaknet.Lib.Keyed RustRaknet.Lib.Result
open RustRaknet.Recv (Decoded)
open RustRaknet.Send (SendQ Message Build unindexed insertPayload_cut)

/-! ### Frames of the decoder -/

/-- What the reassembly may rely on: a mode, and an index inside of the compound. -/
structure Valid (f : FrameSetPacket) : Prop where
  mode : ∃ r, f.reliability = .ok r
  inside : f.compoundSize ≠ 0 → f.fragmentIndex < f.compoundSize

theorem valid_of_decoded {f : FrameSetPacket} (h : Decoded f) : Valid f := by
  obtain ⟨s, -, hencodable⟩ := h.encodable
  obtain ⟨r, hr, hwire⟩ := hencodable.onWire
  refine ⟨⟨r, hr⟩, fun hsize => ?_⟩
  by_cases hfragment : f.isFragment = true
  · exact ((validate_ok.mp hencodable.valid).2.2.1 hfragment).2
  · have hzero := hwire.compoundSize
    simp only [Fits, hfragment, Bool.false_eq_true, if_false] at hzero
    exact absurd hzero hsize

section valid

variable {q : FragmentQ} {frame : FrameSetPacket}

/-- **Merging never fails** on a compound of decoded frames that is full. -/
theorem merge_of_sound {P : FrameSetPacket → Prop} {g : Fragment} (h : g.Sound P)
    (hP : ∀ f, P f → Valid f) (hfull : g.full = true) : ∃ m, g.merge = .ok m := by
  have hne : g.compoundSize ≠ 0 ∧ size g.frames = g.compoundSize := by
    simpa [Fragment.full] using hfull
  have hkeys : ∀ i f, g.frames.lookup i = some f → i < g.compoundSize := by
    intro i f hf
    obtain ⟨rfl, hmatches, -⟩ := h.stored i f hf
    exact hmatches.1
  obtain ⟨f, hf⟩ := lookup_of_full hne.2 hkeys (Nat.pos_of_ne_zero hne.1)
  obtain ⟨-, hmatches, hPf⟩ := h.stored 0 f hf
  obtain ⟨r, hr⟩ := (hP f hPf).mode
  have hmode : Reliability.ofU8 ((g.flags &&& 224) >>> 5) = .ok r := by
    have hflags : f.flags &&& 224 = g.flags &&& 224 := hmatches.2.2.2.2
    rw [← hflags]
    exact hr
  obtain ⟨last, -, hmerge⟩ := merge_eq hfull hkeys hmode
  exact ⟨_, hmerge⟩

theorem matches_of_new (hvalid : Valid frame) (ha : q.Admits frame)
    (hnone : q.fragments.lookup frame.compoundId = none) : (q.entry frame).Matches frame := by
  unfold FragmentQ.entry
  rw [hnone]
  exact ⟨hvalid.inside ha.compoundSize_ne, rfl, rfl, rfl, rfl⟩

/-- The same compounds and the same bytes. -/
structure FragmentQ.Same (q q' : FragmentQ) : Prop where
  fragments : ∀ id, q'.fragments.lookup id = q.fragments.lookup id
  bytes : q'.bytes = q.bytes
  fault : q'.fault = q.fault

/-- **A decoded frame that is rejected leaves no trace.** -/
theorem rejected_same (h : q.Sound Valid) (hvalid : Valid frame) {e : RaknetError} {q' : FragmentQ}
    (herror : q.insertAndTakeCompleted frame = (.error e, q')) : q.Same q' := by
  rcases takeCompleted_cases h frame with ⟨q₁, he, hn, hq₁⟩ | ⟨-, -, -, he⟩ | ⟨-, -, -, -, he⟩ |
    ⟨ha, hm, hl, hf, he⟩
  · rw [he] at herror
    obtain rfl : q₁ = q' := congrArg Prod.snd herror
    rcases hq₁ with rfl | ⟨ha, rfl⟩
    · exact ⟨fun _ => rfl, rfl, rfl⟩
    · -- the limits let it pass, so it does not match a compound that was there before
      have hmiss : ¬ (q.entry frame).Matches frame := hn.resolve_left (not_not.mpr ha)
      obtain ⟨g, hg⟩ : ∃ g, q.fragments.lookup frame.compoundId = some g := by
        by_contra hnone
        refine hmiss (matches_of_new hvalid ha ?_)
        exact Option.eq_none_iff_forall_ne_some.mpr fun g hg => hnone ⟨g, hg⟩
      have hentry : q.entry frame = g := by
        unfold FragmentQ.entry
        rw [hg]
        rfl
      refine ⟨fun id => ?_, rfl, rfl⟩
      by_cases hid : id = frame.compoundId
      · rw [hid, hg, hentry]
        exact AList.lookup_insert _
      · exact AList.lookup_insert_ne hid
  · rw [he] at herror
    cases herror
  · rw [he] at herror
    cases herror
  · obtain ⟨hg, -⟩ := h.entry ha.compoundSize_ne
    obtain ⟨m, hmerge⟩ := merge_of_sound (hg.add hm ⟨rfl, hvalid⟩ hl) (fun f hf => hf.2) hf
    rw [he, hmerge] at herror
    cases herror

end valid

/-! ### One message -/

/-- The queue knows the fragments `s` of the message, and has charged for them. -/
def Compound.Held (d : Compound) (s : Finset ℕ) (q : FragmentQ) : Prop :=
  q.fragments.lookup d.id = none ∧ s = ∅ ∨
    ∃ g, q.fragments.lookup d.id = some g ∧ d.Group s g ∧
      g.bytes = ∑ j ∈ s, ((d.piece j).length + 128)

section held

variable {q : FragmentQ} {frame : FrameSetPacket} {d : Compound} {s : Finset ℕ} {j : ℕ}

theorem Compound.Held.entry (h : d.Held s q) (hpiece : d.Piece j frame) :
    d.Group s (q.entry frame) ∧
      (q.entry frame).bytes = ∑ j ∈ s, ((d.piece j).length + 128) := by
  unfold FragmentQ.entry
  rw [hpiece.id]
  rcases h with ⟨hnone, rfl⟩ | ⟨g, hg, hgroup, hbytes⟩
  · rw [hnone]
    exact ⟨hpiece.new, rfl⟩
  · rw [hg]
    exact ⟨hgroup, hbytes⟩

theorem Compound.Held.other (h : d.Held s q) (hsound : q.Sound Valid)
    (hne : frame.compoundId ≠ d.id) : d.Held s (q.insertAndTakeCompleted frame).2 := by
  have hlookup : (q.insertAndTakeCompleted frame).2.fragments.lookup d.id =
      q.fragments.lookup d.id := by
    rcases takeCompleted_cases hsound frame with ⟨q₁, he, -, rfl | ⟨-, rfl⟩⟩ | ⟨-, -, -, he⟩ |
      ⟨-, -, -, -, he⟩ | ⟨-, -, -, -, he⟩ <;> rw [he]
    · exact AList.lookup_insert_ne hne.symm
    · exact AList.lookup_insert_ne hne.symm
    · exact AList.lookup_insert_ne hne.symm
    · exact AList.lookup_erase_ne hne.symm
  unfold Compound.Held
  rw [hlookup]
  exact h

/-- A fragment that came before changes nothing. -/
theorem Compound.Held.again (h : d.Held s q) (hsound : q.Sound Valid) (hpiece : d.Piece j frame)
    (ha : q.Admits frame) (hj : j ∈ s) :
    (q.insertAndTakeCompleted frame).1 = .ok none ∧
      d.Held s (q.insertAndTakeCompleted frame).2 := by
  obtain ⟨hgroup, hbytes⟩ := h.entry hpiece
  obtain ⟨f, hf⟩ := (hgroup.mem j).mp hj
  rw [← hpiece.fragment] at hf
  rcases takeCompleted_cases hsound frame with ⟨q₁, -, hn, -⟩ | ⟨-, -, -, he⟩ | ⟨-, -, hl, -⟩ |
    ⟨-, -, hl, -⟩
  · exact absurd (hpiece.matches hgroup) (hn.resolve_left (not_not.mpr ha))
  · rw [he]
    refine ⟨rfl, .inr ⟨_, ?_, hgroup, hbytes⟩⟩
    rw [hpiece.id]
    exact AList.lookup_insert _
  · rw [hl] at hf
    cases hf
  · rw [hl] at hf
    cases hf

theorem Compound.Piece.charge (hpiece : d.Piece j frame) :
    Fragment.charge frame = (d.piece j).length + 128 := by
  unfold Fragment.charge FramePayload.len
  rw [hpiece.data]

/-- A new fragment extends the set, or completes the message: its bytes are given back. -/
theorem Compound.Held.more (h : d.Held s q) (hsound : q.Sound Valid) (hpiece : d.Piece j frame)
    (ha : q.Admits frame) (hj : j ∉ s) :
    (insert j s ≠ Finset.range d.size ∧ (q.insertAndTakeCompleted frame).1 = .ok none ∧
      d.Held (insert j s) (q.insertAndTakeCompleted frame).2) ∨
    (insert j s = Finset.range d.size ∧ ∃ m, d.Merged m ∧
      (q.insertAndTakeCompleted frame).1 = .ok (some m) ∧
      (q.insertAndTakeCompleted frame).2.fragments.lookup d.id = none ∧
      (q.insertAndTakeCompleted frame).2.bytes + ∑ j ∈ s, ((d.piece j).length + 128) = q.bytes) := by
  obtain ⟨hgroup, hbytes⟩ := h.entry hpiece
  have hadd := hgroup.add hpiece
  have hfull := hadd.full_iff ⟨j, Finset.mem_insert_self _ _⟩
  have hnone : (q.entry frame).frames.lookup frame.fragmentIndex = none := by
    rw [hpiece.fragment, Option.eq_none_iff_forall_ne_some]
    exact fun f hf => hj ((hgroup.mem j).mpr ⟨f, hf⟩)
  rcases takeCompleted_cases hsound frame with ⟨q₁, -, hn, -⟩ | ⟨-, -, ⟨f, hf⟩, -⟩ |
    ⟨-, -, -, hf, he⟩ | ⟨-, -, -, hf, he⟩
  · exact absurd (hpiece.matches hgroup) (hn.resolve_left (not_not.mpr ha))
  · rw [hnone] at hf
    cases hf
  · rw [he]
    refine .inl ⟨fun hall => ?_, rfl, .inr ⟨_, ?_, hadd, ?_⟩⟩
    · rw [hfull.mpr hall] at hf
      cases hf
    · rw [hpiece.id]
      exact AList.lookup_insert _
    · rw [Finset.sum_insert hj, ← hpiece.charge, ← hbytes]
      exact Nat.add_comm _ _
  · have hall := hfull.mp hf
    obtain ⟨m, hm, hmerged⟩ := Compound.Group.merge (hall ▸ hadd)
      ((Nat.zero_le j).trans_lt hpiece.lt)
    rw [he, hm]
    refine .inr ⟨hall, m, hmerged, rfl, ?_, ?_⟩
    · rw [hpiece.id]
      exact AList.lookup_erase _ _
    · -- the bytes of the group are part of those of the queue
      have htotal := FragmentQ.total_entry q frame (Fragment.new 0 0 0 0)
      rw [← hsound.bytes_eq] at htotal
      simp only [Fragment.new] at htotal
      rw [← hbytes]
      show q.bytes - (q.entry frame).bytes + (q.entry frame).bytes = q.bytes
      omega

end held

/-! ### Arrivals -/

/-- The queue after the frames of a list. -/
def assemble (q : FragmentQ) (l : List FrameSetPacket) : FragmentQ :=
  l.foldl (fun q f => (q.insertAndTakeCompleted f).2) q

theorem assemble_append (q : FragmentQ) (l : List FrameSetPacket) (f : FrameSetPacket) :
    assemble q (l ++ [f]) = ((assemble q l).insertAndTakeCompleted f).2 := by
  simp [assemble]

/-- The frame passes the limits on bytes and compounds. -/
def FragmentQ.Room (q : FragmentQ) (f : FrameSetPacket) : Prop :=
  q.bytes + Fragment.charge f ≤ maxBytes ∧
    (q.fragments.lookup f.compoundId = none → size q.fragments < 1024)

/-- The fields of a fragment that its receiver reads, whatever datagram it came in. -/
structure Copy (f g : FrameSetPacket) : Prop where
  flags : g.flags = f.flags
  compoundSize : g.compoundSize = f.compoundSize
  compoundId : g.compoundId = f.compoundId
  fragmentIndex : g.fragmentIndex = f.fragmentIndex
  orderChannel : g.orderChannel = f.orderChannel
  orderedFrameIndex : g.orderedFrameIndex = f.orderedFrameIndex
  data : g.data.deref = f.data.deref

/-- All `n` fragments of the compound are in the list. -/
def Complete (id n : ℕ) (l : List FrameSetPacket) : Prop :=
  ∀ i < n, ∃ f ∈ l, f.compoundId = id ∧ f.fragmentIndex = i

/-- The fragments of the compound `id` in any order, as often as they come before all `n` are there,
between decoded frames of other compounds, and within the limits of the queue. -/
structure Arrivals (id n : ℕ) (fragments : List FrameSetPacket) (q : FragmentQ)
    (l : List FrameSetPacket) : Prop where
  decoded : ∀ f ∈ l, Decoded f
  own : ∀ f ∈ l, f.compoundId = id → ∃ p ∈ fragments, Copy p f
  room : ∀ l' f, l' ++ [f] <+: l → f.compoundId = id → (assemble q l').Room f
  before : ∀ l' f, l' ++ [f] <+: l → f.compoundId = id → ¬ Complete id n l'

theorem Arrivals.init {id n : ℕ} {fragments : List FrameSetPacket} {q : FragmentQ}
    {l : List FrameSetPacket} {f : FrameSetPacket} (h : Arrivals id n fragments q (l ++ [f])) :
    Arrivals id n fragments q l where
  decoded g hg := h.decoded g (List.mem_append_left _ hg)
  own g hg := h.own g (List.mem_append_left _ hg)
  room l' g hl := h.room l' g (hl.trans (List.prefix_append _ _))
  before l' g hl := h.before l' g (hl.trans (List.prefix_append _ _))

theorem assemble_sound {q : FragmentQ} (hq : q.Sound Valid) {l : List FrameSetPacket}
    (hl : ∀ f ∈ l, Decoded f) : (assemble q l).Sound Valid := by
  induction l using List.reverseRecOn with
  | nil => exact hq
  | append_singleton l f ih =>
    rw [assemble_append]
    have hvalid := valid_of_decoded (hl f (List.mem_append_right _ List.mem_cons_self))
    exact ((ih fun g hg => hl g (List.mem_append_left _ hg)).takeCompleted f hvalid).1

/-- The fragments of a compound that have come. -/
def seen (id : ℕ) (l : List FrameSetPacket) : Finset ℕ :=
  ((l.filter fun f => f.compoundId = id).map FrameSetPacket.fragmentIndex).toFinset

section arrivals

variable {d : Compound} {fragments : List FrameSetPacket} {q : FragmentQ} {l : List FrameSetPacket}
  {f : FrameSetPacket}

theorem mem_seen {id i : ℕ} : i ∈ seen id l ↔ ∃ f ∈ l, f.compoundId = id ∧ f.fragmentIndex = i := by
  simp [seen, and_assoc]

theorem seen_other (h : f.compoundId ≠ d.id) : seen d.id (l ++ [f]) = seen d.id l := by
  simp [seen, List.filter_append, h]

theorem seen_own (h : f.compoundId = d.id) :
    seen d.id (l ++ [f]) = insert f.fragmentIndex (seen d.id l) := by
  ext i
  simp [seen, List.filter_append, h, eq_comm]

variable (hpieces : ∀ p ∈ fragments, ∀ f, Copy p f → d.Piece f.fragmentIndex f)

include hpieces

theorem Arrivals.piece (h : Arrivals d.id d.size fragments q l) (hf : f ∈ l)
    (hid : f.compoundId = d.id) : d.Piece f.fragmentIndex f := by
  obtain ⟨p, hp, hcopy⟩ := h.own f hf hid
  exact hpieces p hp f hcopy

theorem Arrivals.complete_iff (h : Arrivals d.id d.size fragments q l) :
    Complete d.id d.size l ↔ seen d.id l = Finset.range d.size := by
  constructor
  · intro hcomplete
    ext i
    rw [mem_seen, Finset.mem_range]
    constructor
    · rintro ⟨f, hf, hid, rfl⟩
      exact (h.piece hpieces hf hid).lt
    · exact hcomplete i
  · intro hseen i hi
    exact mem_seen.mp (hseen ▸ Finset.mem_range.mpr hi)

theorem Arrivals.admits (h : Arrivals d.id d.size fragments q (l ++ [f]))
    (hid : f.compoundId = d.id) (hsize : d.size ≤ maxFragments) : (assemble q l).Admits f := by
  have hpiece := h.piece hpieces (List.mem_append_right _ List.mem_cons_self) hid
  obtain ⟨hbytes, hcount⟩ := h.room l f (List.prefix_refl _) hid
  have hlt := hpiece.lt
  refine ⟨?_, ?_, hbytes, hcount⟩
  · rw [hpiece.size]
    omega
  · rw [hpiece.size]
    exact hsize

/-- **Until it is complete, the queue knows exactly the fragments that have come.** -/
theorem Arrivals.held (hq : q.Sound Valid) (hnone : q.fragments.lookup d.id = none)
    (hsize : d.size ≤ maxFragments) (h : Arrivals d.id d.size fragments q l)
    (hcomplete : ¬ Complete d.id d.size l) : d.Held (seen d.id l) (assemble q l) := by
  induction l using List.reverseRecOn with
  | nil => exact .inl ⟨hnone, rfl⟩
  | append_singleton l f ih =>
    have hsound := assemble_sound hq h.init.decoded
    have hbefore : ¬ Complete d.id d.size l := by
      intro hl
      refine hcomplete fun i hi => ?_
      obtain ⟨g, hg, hgi⟩ := hl i hi
      exact ⟨g, List.mem_append_left _ hg, hgi⟩
    have hheld := ih h.init hbefore
    rw [assemble_append]
    by_cases hid : f.compoundId = d.id
    · have hpiece := h.piece hpieces (List.mem_append_right _ List.mem_cons_self) hid
      have ha := h.admits hpieces hid hsize
      rw [seen_own hid]
      by_cases hj : f.fragmentIndex ∈ seen d.id l
      · rw [Finset.insert_eq_of_mem hj]
        exact (hheld.again hsound hpiece ha hj).2
      · rcases hheld.more hsound hpiece ha hj with ⟨-, -, hmore⟩ | ⟨hall, -⟩
        · exact hmore
        · refine absurd ((h.complete_iff hpieces).mpr ?_) hcomplete
          rw [seen_own hid, hall]
    · rw [seen_other hid]
      exact hheld.other hsound hid

end arrivals

/-! ### A message of the send queue -/

/-- The compound that a sender makes of a message. -/
def compoundAt (sender : SendQ) (m : Message) : Compound where
  id := sender.compoundId
  size := m.count ((sender.mtu : ℕ) - 60)
  channel := m.channel
  index := sender.orderedFrameIndexes.get m.channel
  piece i := (m.payload.drop (i * ((sender.mtu : ℕ) - 60))).take ((sender.mtu : ℕ) - 60)

/-- The new frames of an insertion are the pieces of the compound. -/
theorem piece_of_insert {B : Build} {sender sender' : SendQ} {m : Message}
    (hinsert : sender.insertPayload B m = .ok sender')
    (hcut : m.Fragmented ((sender.mtu : ℕ) - 60)) :
    ∀ p ∈ (sender'.packets.drop sender.packets.length).map Send.QueuedFrame.frame, ∀ f, Copy p f →
      (compoundAt sender m).Piece f.fragmentIndex f := by
  intro p hp f hcopy
  obtain ⟨hmtu, hcount, fs, hpackets, hframes⟩ := insertPayload_cut hinsert hcut
  rw [hpackets, List.drop_left] at hp
  obtain ⟨k, hk, rfl⟩ := List.mem_map.mp hp
  have hmem : unindexed k.frame ∈ fs.map fun f => unindexed f.frame := List.mem_map_of_mem hk
  rw [hframes] at hmem
  obtain ⟨i, hi, hframe⟩ := List.mem_map.mp hmem
  have hlt := List.mem_range.mp hi
  have hlimit : (sender.mtu : ℕ) - 60 < 65536 := by
    have := sender.mtu.isLt
    omega
  have hfields : ∀ {α : Type} (field : FrameSetPacket → α),
      (∀ g, field (unindexed g) = field g) → field k.frame =
        field (sender.fragmentFrame m ((sender.mtu : ℕ) - 60)
          (m.count ((sender.mtu : ℕ) - 60)) i) := by
    intro α field hfield
    rw [← hfield k.frame, ← hframe, hfield]
  have hindex : f.fragmentIndex = i :=
    hcopy.fragmentIndex.trans (hfields FrameSetPacket.fragmentIndex fun _ => rfl)
  refine ⟨?_, ?_, ?_, ?_, rfl, by rw [hindex]; exact hlt, ?_, ?_⟩
  · exact hcopy.compoundId.trans (hfields FrameSetPacket.compoundId fun _ => rfl)
  · exact hcopy.compoundSize.trans (hfields FrameSetPacket.compoundSize fun _ => rfl)
  · exact hcopy.orderChannel.trans (hfields FrameSetPacket.orderChannel fun _ => rfl)
  · exact hcopy.orderedFrameIndex.trans (hfields FrameSetPacket.orderedFrameIndex fun _ => rfl)
  · rw [hcopy.flags, hfields FrameSetPacket.flags fun _ => rfl]
    simp [SendQ.fragmentFrame, Reliability.toU8]
  · rw [hcopy.data, hindex, hfields FrameSetPacket.data fun _ => rfl,
      SendQ.fragmentFrame_data sender m _ hlimit (hlt.trans_le hcount), SendQ.deref_view]
    rfl

theorem compoundAt_whole {sender : SendQ} {m : Message}
    (hpos : 0 < (sender.mtu : ℕ) - 60) (hcut : m.Fragmented ((sender.mtu : ℕ) - 60)) :
    (compoundAt sender m).whole = m.payload := by
  unfold Compound.whole compoundAt
  rw [Link.flatten_pieces, List.take_of_length_le (Link.length_le_count hpos hcut)]

/-- A compound of decoded frames that has become full is merged. -/
theorem insert_merges {q : FragmentQ} (h : q.Sound Valid) {f : FrameSetPacket} (hf : Valid f)
    {charge : ℕ} {g : Fragment} (hinsert : (q.entry f).insert f = .ok (charge, g))
    (hfull : g.full = true) : ∃ merged, g.merge = .ok merged := by
  by_cases hsize : f.compoundSize = 0
  · -- such a frame matches no compound
    have hmiss : ¬ (q.entry f).Matches f := by
      rintro ⟨hlt, hsame, -⟩
      rw [← hsame, hsize] at hlt
      exact Nat.not_lt_zero _ hlt
    unfold Fragment.insert at hinsert
    split_ifs at hinsert with hdone
    obtain ⟨-, rfl⟩ := Prod.mk.inj (Except.ok.inj hinsert)
    rcases hlookup : q.fragments.lookup f.compoundId with _ | g'
    · unfold FragmentQ.entry at hdone
      rw [hlookup] at hdone
      simp [Fragment.full, Fragment.new, hsize] at hdone
    · have hentry : q.entry f = g' := by
        unfold FragmentQ.entry
        rw [hlookup]
        rfl
      rw [hentry, (h.group _ _ hlookup).2] at hdone
      cases hdone
  · obtain ⟨hsound, hopen⟩ := h.entry hsize
    unfold Fragment.insert at hinsert
    rw [if_neg (by simp [hopen])] at hinsert
    obtain ⟨hmatches, hinsert⟩ := guard_eq_ok.mp hinsert
    rcases hlookup : (q.entry f).frames.lookup f.fragmentIndex with _ | g'
    · rw [hlookup] at hinsert
      obtain ⟨-, rfl⟩ := Prod.mk.inj (Except.ok.inj hinsert)
      exact merge_of_sound (hsound.add (not_not.mp hmatches) ⟨rfl, hf⟩ hlookup) (fun f hf => hf.2)
        hfull
    · rw [hlookup] at hinsert
      obtain ⟨-, rfl⟩ := Prod.mk.inj (Except.ok.inj hinsert)
      rw [hopen] at hfull
      cases hfull

/-- **Reassembly does not depend on the order of arrival.** From every state that decoded frames
have led to: a full compound is merged, and a decoded frame that is rejected leaves the state as it
was. The fragments of a message that the send queue has cut give nothing until the last one that was
missing arrives. It gives the message with the channel and the index of the sender, and what was
charged for the others is given back. -/
theorem reassembly_any_order (earlier : List FrameSetPacket) (hearlier : ∀ f ∈ earlier, Decoded f) :
    (∀ f, Decoded f →
      (∀ charge g, ((assemble .empty earlier).entry f).insert f = .ok (charge, g) →
        g.full = true → ∃ merged, g.merge = .ok merged) ∧
      ∀ e q', (assemble .empty earlier).insertAndTakeCompleted f = (.error e, q') →
        (assemble .empty earlier).Same q') ∧
    ∀ (B : Build) (sender sender' : SendQ) (m : Message),
      sender.insertPayload B m = .ok sender' → m.Fragmented ((sender.mtu : ℕ) - 60) →
      (assemble .empty earlier).fragments.lookup sender.compoundId = none →
      ∀ l f, Arrivals sender.compoundId (compoundAt sender m).size
        ((sender'.packets.drop sender.packets.length).map Send.QueuedFrame.frame)
        (assemble .empty earlier) (l ++ [f]) → f.compoundId = sender.compoundId →
      ∃ result q', (assemble (assemble .empty earlier) l).insertAndTakeCompleted f =
          (.ok result, q') ∧
        (¬ Complete sender.compoundId (compoundAt sender m).size (l ++ [f]) → result = none) ∧
        (Complete sender.compoundId (compoundAt sender m).size (l ++ [f]) → ∃ merged,
          result = some merged ∧ merged.reliability = .ok .reliableOrdered ∧
          merged.data.deref = m.payload ∧ merged.orderChannel = m.channel ∧
          merged.orderedFrameIndex = sender.orderedFrameIndexes.get m.channel ∧
          q'.fragments.lookup sender.compoundId = none ∧
          q'.bytes + ∑ i ∈ (Finset.range (compoundAt sender m).size).erase f.fragmentIndex,
            (((compoundAt sender m).piece i).length + 128) =
              (assemble (assemble .empty earlier) l).bytes) := by
  have hstart := assemble_sound (sound_empty Valid) hearlier
  refine ⟨fun f hf => ⟨fun charge g => insert_merges hstart (valid_of_decoded hf),
    fun e q' => rejected_same hstart (valid_of_decoded hf)⟩, ?_⟩
  · intro B sender sender' m hinsert hcut hnone l f harrivals hid
    obtain ⟨hmtu, hcount, -⟩ := insertPayload_cut hinsert hcut
    have hpieces := piece_of_insert hinsert hcut
    have hwhole := compoundAt_whole (by omega) hcut
    have hsound := assemble_sound hstart harrivals.init.decoded
    have hbefore := harrivals.before l f (List.prefix_refl _) hid
    have hheld : (compoundAt sender m).Held _ _ :=
      Arrivals.held hpieces hstart hnone hcount harrivals.init hbefore
    have hpiece := harrivals.piece hpieces (List.mem_append_right _ List.mem_cons_self) hid
    have hadmits := harrivals.admits hpieces hid hcount
    have hcomplete := harrivals.complete_iff hpieces
    have hcomplete' := harrivals.init.complete_iff hpieces
    have hseen := seen_own (d := compoundAt sender m) (l := l) hid
    by_cases hj : f.fragmentIndex ∈ seen (compoundAt sender m).id l
    · -- a fragment that came before: it does not complete the message
      obtain ⟨hresult, -⟩ := hheld.again hsound hpiece hadmits hj
      have hopen : ¬ Complete sender.compoundId (compoundAt sender m).size (l ++ [f]) := by
        intro hall
        refine hbefore (hcomplete'.mpr ?_)
        rw [← hcomplete.mp hall, hseen, Finset.insert_eq_of_mem hj]
      exact ⟨none, _, Prod.ext hresult rfl, fun _ => rfl, fun hall => absurd hall hopen⟩
    · rcases hheld.more hsound hpiece hadmits hj with ⟨hmissing, hresult, -⟩ |
        ⟨hall, merged, hmerged, hresult, hgone, hbytes⟩
      · refine ⟨none, _, Prod.ext hresult rfl, fun _ => rfl, fun hall => absurd ?_ hmissing⟩
        exact hseen.symm.trans (hcomplete.mp hall)
      · refine ⟨some merged, _, Prod.ext hresult rfl, fun hopen => ?_, fun _ => ?_⟩
        · exact absurd (hcomplete.mpr (hseen.trans hall)) hopen
        · refine ⟨merged, rfl, hmerged.mode, by rw [hmerged.data, hwhole], hmerged.channel,
            hmerged.index, hgone, ?_⟩
          rw [← hall, Finset.erase_insert hj]
          exact hbytes

/-! ### Two fragments -/

instance (id n : ℕ) (l : List FrameSetPacket) : Decidable (Complete id n l) := by
  unfold Complete; infer_instance

instance (q : FragmentQ) (f : FrameSetPacket) : Decidable (q.Room f) := by
  unfold FragmentQ.Room; infer_instance

/-- A message that a connection with an MTU of 100 cuts in two. -/
def halves : Message := ⟨.reliableOrdered, Send.primaryChannel, List.replicate 60 7, false⟩

/-- Its fragments, as they are decoded. -/
def half (mtu : Fin 65536) (i : ℕ) : FrameSetPacket :=
  asDecoded { (SendQ.new mtu).fragmentFrame halves 40 2 i with reliableFrameIndex := i }

theorem half_decoded {i : ℕ} (hi : i < 2) : Decoded (half 100 i) := by
  refine ⟨(serializeGroupInto [half 100 i]).toOption.getD [], [half 100 i], ?_, List.mem_cons_self⟩
  interval_cases i <;> decide +kernel

theorem prefix_three {α : Type*} {a b c x : α} {l : List α} (h : l ++ [x] <+: [a, b, c]) :
    (l = [] ∧ x = a) ∨ (l = [a] ∧ x = b) ∨ (l = [a, b] ∧ x = c) := by
  rcases l with _ | ⟨y, _ | ⟨z, _ | ⟨w, l⟩⟩⟩ <;>
    simp only [List.nil_append, List.cons_append, List.cons_prefix_cons, List.prefix_nil,
      List.nil_prefix, and_true] at h
  · exact .inl ⟨rfl, h⟩
  · obtain ⟨rfl, rfl⟩ := h
    exact .inr (.inl ⟨rfl, rfl⟩)
  · obtain ⟨rfl, rfl, rfl⟩ := h
    exact .inr (.inr ⟨rfl, rfl⟩)
  · exact absurd h.2.2.2 (by simp)

/-- The second fragment comes first, and once more. -/
theorem halves_arrive {q : SendQ} (hpackets : q.packets.map (fun f => asDecoded f.frame) =
    [half 100 0, half 100 1]) : Arrivals 0 2 ((q.packets.drop 0).map Send.QueuedFrame.frame) .empty
      ([half 100 1, half 100 1] ++ [half 100 0]) where
  decoded f hf := by
    simp only [List.cons_append, List.nil_append, List.mem_cons, List.not_mem_nil, or_false] at hf
    rcases hf with rfl | rfl | rfl
    · exact half_decoded (by decide)
    · exact half_decoded (by decide)
    · exact half_decoded (by decide)
  own f hf _ := by
    have hmem : f ∈ q.packets.map fun f => asDecoded f.frame := by
      rw [hpackets]
      simp only [List.cons_append, List.nil_append, List.mem_cons, List.not_mem_nil, or_false] at hf ⊢
      tauto
    obtain ⟨k, hk, rfl⟩ := List.mem_map.mp hmem
    exact ⟨k.frame, List.mem_map_of_mem hk, ⟨rfl, rfl, rfl, rfl, rfl, rfl, rfl⟩⟩
  room l f hl _ := by
    rcases prefix_three hl with ⟨rfl, rfl⟩ | ⟨rfl, rfl⟩ | ⟨rfl, rfl⟩ <;> decide +kernel
  before l f hl _ := by
    rcases prefix_three hl with ⟨rfl, rfl⟩ | ⟨rfl, rfl⟩ | ⟨rfl, rfl⟩ <;> decide +kernel

theorem reassembly_any_order_halves :
    ∃ merged q', (assemble .empty [half 100 1, half 100 1]).insertAndTakeCompleted (half 100 0) =
      (.ok (some merged), q') ∧ merged.data.deref = List.replicate 60 7 := by
  have hpackets : ((SendQ.new 100).insertPayload (.insertion false false) halves).toOption.map
      (fun q => q.packets.map fun f => asDecoded f.frame) = some [half 100 0, half 100 1] := by
    decide +kernel
  cases hinsert : (SendQ.new 100).insertPayload (.insertion false false) halves with
  | error e =>
    rw [hinsert] at hpackets
    cases hpackets
  | ok q =>
    rw [hinsert] at hpackets
    obtain ⟨result, q', hresult, -, hmerged⟩ :=
      (reassembly_any_order [] (fun f hf => absurd hf List.not_mem_nil)).2 _ _ _ _ hinsert
        (by decide) rfl _ _ (halves_arrive (Option.some.inj hpackets)) rfl
    obtain ⟨merged, rfl, -, hdata, -⟩ := hmerged (by decide +kernel)
    exact ⟨merged, q', hresult, hdata⟩

end RustRaknet.Reassembly
