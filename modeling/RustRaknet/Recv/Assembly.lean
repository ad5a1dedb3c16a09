import RustRaknet.Reassembly

/-! # One compound

What the reassembly does with the fragments of one message. A `Compound` is the message as its
fragments show it; a group of the queue stands for the set of its fragments that have come
(`Compound.Group`). One more fragment extends the set, and the last one gives back the message. -/

namespace RustRaknet.Reassembly

open RustRaknet.Frame RustRaknet.Lib.Keyed

/-- A message that is cut: what its fragments agree on, and the bytes of each. -/
structure Compound where
  id : ℕ
  size : ℕ
  channel : ℕ
  index : ℕ
  piece : ℕ → Bytes

namespace Compound

variable {d : Compound} {s : Finset ℕ} {g : Fragment} {j : ℕ} {frame : FrameSetPacket}

/-- The bytes of the message. -/
def whole (d : Compound) : Bytes := ((List.range d.size).map d.piece).flatten

/-- The frame is the fragment `j` of the message. -/
structure Piece (d : Compound) (j : ℕ) (frame : FrameSetPacket) : Prop where
  id : frame.compoundId = d.id
  size : frame.compoundSize = d.size
  channel : frame.orderChannel = d.channel
  index : frame.orderedFrameIndex = d.index
  fragment : frame.fragmentIndex = j
  lt : j < d.size
  mode : frame.flags &&& 0xe0 = 0x60
  data : frame.data.deref = d.piece j

/-- The group holds the fragments `s` of the message. -/
structure Group (d : Compound) (s : Finset ℕ) (g : Fragment) : Prop where
  size : g.compoundSize = d.size
  channel : g.orderChannel = d.channel
  index : g.orderedFrameIndex = d.index
  mode : g.flags &&& 0xe0 = 0x60
  mem : ∀ j, j ∈ s ↔ ∃ f, g.frames.lookup j = some f
  data : ∀ j f, g.frames.lookup j = some f → f.data.deref = d.piece j
  lt : ∀ j ∈ s, j < d.size

/-- The complete message. -/
structure Merged (d : Compound) (m : FrameSetPacket) : Prop where
  mode : m.reliability = .ok .reliableOrdered
  channel : m.orderChannel = d.channel
  index : m.orderedFrameIndex = d.index
  data : m.data.deref = d.whole

theorem Piece.matches (h : d.Piece j frame) (hg : d.Group s g) : g.Matches frame :=
  ⟨by rw [h.fragment, hg.size]; exact h.lt, by rw [h.size, hg.size], by rw [h.channel, hg.channel],
    by rw [h.index, hg.index], by rw [h.mode, hg.mode]⟩

theorem Piece.new (h : d.Piece j frame) : d.Group ∅ (Fragment.new frame.flags frame.compoundSize
    frame.orderedFrameIndex frame.orderChannel) :=
  ⟨h.size, h.channel, h.index, h.mode, fun j => by simp [Fragment.new],
    fun j f hf => by simp [Fragment.new] at hf, by simp⟩

theorem Group.add (hg : d.Group s g) (h : d.Piece j frame) : d.Group (insert j s) (g.add frame) := by
  refine { hg with mem := fun i => ?_, data := fun i f hf => ?_, lt := fun i hi => ?_ }
  · simp only [Fragment.add, h.fragment, Finset.mem_insert]
    by_cases hi : i = j
    · subst hi
      simp
    · simp [hi, AList.lookup_insert_ne hi, hg.mem]
  · simp only [Fragment.add, h.fragment] at hf
    by_cases hi : i = j
    · subst hi
      rw [AList.lookup_insert, Option.some.injEq] at hf
      rw [← hf, h.data]
    · rw [AList.lookup_insert_ne hi] at hf
      exact hg.data i f hf
  · rcases Finset.mem_insert.mp hi with rfl | hi
    · exact h.lt
    · exact hg.lt i hi

theorem Group.card (hg : d.Group s g) : Lib.Keyed.size g.frames = s.card := by
  have hs : g.frames.keys.toFinset = s := by
    ext i
    rw [List.mem_toFinset, ← AList.mem_keys, ← AList.lookup_isSome, hg.mem, Option.isSome_iff_exists]
  rw [← hs, List.toFinset_card_of_nodup g.frames.keys_nodup]
  simp [Lib.Keyed.size, AList.keys, List.keys]

theorem Group.full_iff (hg : d.Group s g) (hs : s.Nonempty) :
    g.full = true ↔ s = Finset.range d.size := by
  have hsub : s ⊆ Finset.range d.size := fun i hi => Finset.mem_range.mpr (hg.lt i hi)
  obtain ⟨i, hi⟩ := hs
  have hpos : 0 < d.size := (Nat.zero_le i).trans_lt (hg.lt i hi)
  simp only [Fragment.full, hg.size, hg.card, Bool.and_eq_true, bne_iff_ne, ne_eq, beq_iff_eq]
  constructor
  · rintro ⟨-, hcard⟩
    exact Finset.eq_of_subset_of_card_le hsub (by simp [hcard])
  · intro he
    exact ⟨hpos.ne', by rw [he, Finset.card_range]⟩

theorem Group.merge (hg : d.Group (Finset.range d.size) g) (hpos : 0 < d.size) :
    ∃ m, g.merge = .ok m ∧ d.Merged m := by
  have hfull : g.full = true := (hg.full_iff ⟨0, Finset.mem_range.mpr hpos⟩).mpr rfl
  have hkeys : ∀ i f, g.frames.lookup i = some f → i < g.compoundSize := fun i f hf => by
    rw [hg.size]
    exact hg.lt i ((hg.mem i).mpr ⟨f, hf⟩)
  have hmode : g.flags &&& 224 = 96 := hg.mode
  obtain ⟨last, -, hm⟩ := merge_eq (r := .reliableOrdered) hfull hkeys (by rw [hmode]; rfl)
  refine ⟨_, hm, ?_, hg.channel, hg.index, ?_⟩
  · simp [FrameSetPacket.reliability, FrameSetPacket.new, FrameSetPacket.fromPayload]
  simp only [FrameSetPacket.new, FrameSetPacket.fromPayload, deref_owned, whole, hg.size, chunks]
  congr 1
  refine List.map_congr_left fun i hi => ?_
  obtain ⟨f, hf⟩ := (hg.mem i).mp (Finset.mem_range.mpr (List.mem_range.mp hi))
  simp [hf, hg.data i f hf]

end Compound

/-! ### One more fragment -/

section assemble

variable {P : FrameSetPacket → Prop} {q : FragmentQ} {frame : FrameSetPacket} {d : Compound}
  {s : Finset ℕ} {j : ℕ}

theorem entry_group (hpiece : d.Piece j frame)
    (hentry : q.fragments.lookup d.id = none ∧ s = ∅ ∨
      ∃ g, q.fragments.lookup d.id = some g ∧ d.Group s g) : d.Group s (q.entry frame) := by
  unfold FragmentQ.entry
  rw [hpiece.id]
  rcases hentry with ⟨hl, rfl⟩ | ⟨g, hl, hg⟩
  · rw [hl]
    exact hpiece.new
  · rw [hl]
    exact hg

/-- **A new fragment** is rejected by the limits of the queue, extends the group of its message, or
completes the message. -/
theorem takeCompleted_piece (h : q.Sound P) (hpiece : d.Piece j frame)
    (hentry : q.fragments.lookup d.id = none ∧ s = ∅ ∨
      ∃ g, q.fragments.lookup d.id = some g ∧ d.Group s g) (hj : j ∉ s) :
    (¬ q.Admits frame ∧ (q.insertAndTakeCompleted frame).1 = .error .packetParseError) ∨
    (q.Admits frame ∧ insert j s ≠ Finset.range d.size ∧ ∃ g, d.Group (insert j s) g ∧
      q.insertAndTakeCompleted frame = (.ok none, { q with
        fragments := q.fragments.insert d.id g
        bytes := q.bytes + Fragment.charge frame })) ∨
    (q.Admits frame ∧ insert j s = Finset.range d.size ∧ ∃ m q', d.Merged m ∧
      q.insertAndTakeCompleted frame = (.ok (some m), q') ∧
      q'.fragments = q.fragments.erase d.id) := by
  have hg := entry_group hpiece hentry
  have hmatch := hpiece.matches hg
  have hadd := hg.add hpiece
  have hfull := hadd.full_iff ⟨j, Finset.mem_insert_self _ _⟩
  have hnone : (q.entry frame).frames.lookup frame.fragmentIndex = none := by
    rw [hpiece.fragment, Option.eq_none_iff_forall_ne_some]
    exact fun f hf => hj ((hg.mem j).mpr ⟨f, hf⟩)
  rcases takeCompleted_cases h frame with ⟨q', e, hn, -⟩ | ⟨-, -, ⟨f, hf⟩, -⟩ | ⟨ha, -, -, hf, e⟩ |
    ⟨ha, -, -, hf, e⟩
  · exact .inl ⟨hn.resolve_right fun hn => hn hmatch, by rw [e]⟩
  · rw [hnone] at hf
    cases hf
  · refine .inr (.inl ⟨ha, fun he => ?_, _, hadd, ?_⟩)
    · rw [hfull.mpr he] at hf
      cases hf
    · rw [e, hpiece.id]
  · have hall := hfull.mp hf
    obtain ⟨m, hm, hmerged⟩ := Compound.Group.merge (hall ▸ hadd)
      ((Nat.zero_le j).trans_lt hpiece.lt)
    exact .inr (.inr ⟨ha, hall, m, _, hmerged, by rw [e, hm]; rfl, by rw [hpiece.id]⟩)

end assemble

end RustRaknet.Reassembly
