import RustRaknet.Link.Catalogue

/-! # What a frame carries

A frame of the log as the receiver sees it: its indexes are the numbers of the catalogue modulo the
width of their fields, and its body is the message or the piece of it that the fragment index tells.
The pieces of a message that is cut give back the message. -/

namespace RustRaknet.Link

open RustRaknet.Send RustRaknet.Frame RustRaknet.Lib.Serial
open RustRaknet.Reassembly (Compound)

/-- A message that the queue accepts: it fits a frame or may be cut. -/
structure Admissible (limit : ℕ) (m : Message) : Prop where
  pos : 0 < limit
  lt : limit < 65536
  fits : m.Fragmented limit ∨ m.payload.length ≤ limit
  count_le : m.count limit ≤ 65536

/-- The compound of a message that is cut. -/
def compoundOf (limit : ℕ) (log : List Message) (k : ℕ) (m : Message) : Compound where
  id := (before limit log k).compound % 65536
  size := m.count limit
  channel := m.channel
  index := (before limit log k).ordered m.channel % 16777216
  piece j := (m.payload.drop (j * limit)).take limit

/-- The frame `i` of the message `k`. -/
structure Carries (limit : ℕ) (log : List Message) (k : ℕ) (m : Message) (i : ℕ)
    (frame : FrameSetPacket) : Prop where
  lt : i < m.count limit
  mode : frame.reliability = .ok m.reliability
  index : m.reliability.isReliable = true →
    frame.reliableFrameIndex = ((before limit log k).reliable + i) % 16777216
  isFragment : frame.isFragment = true ↔ m.Fragmented limit
  channel : m.reliability = .reliableOrdered → frame.orderChannel = m.channel
  rank : m.reliability = .reliableOrdered →
    frame.orderedFrameIndex = (before limit log k).ordered m.channel % 16777216
  whole : ¬ m.Fragmented limit → frame.data.deref = m.payload
  piece : m.Fragmented limit → (compoundOf limit log k m).Piece i frame

/-! ### Pieces -/

theorem flatten_pieces {α : Type*} (l : List α) (n : ℕ) :
    ∀ count, ((List.range count).map fun j => (l.drop (j * n)).take n).flatten = l.take (count * n)
  | 0 => by simp
  | count + 1 => by
    rw [List.range_succ, List.map_append, List.flatten_append, flatten_pieces l n count,
      Nat.succ_mul, List.take_add]
    simp

theorem length_le_count {limit : ℕ} {m : Message} (hpos : 0 < limit) (h : m.Fragmented limit) :
    m.payload.length ≤ m.count limit * limit := by
  obtain ⟨hr, hlt⟩ := h
  unfold Message.count SendQ.frameCount
  rw [if_pos ⟨hr, hlt⟩]
  have hdiv := Nat.div_add_mod (m.payload.length + limit - 1) limit
  have hmod := Nat.mod_lt (m.payload.length + limit - 1) hpos
  rw [Nat.mul_comm] at hdiv
  omega

theorem compoundOf_whole {limit : ℕ} {log : List Message} {k : ℕ} {m : Message} (hpos : 0 < limit)
    (h : m.Fragmented limit) : (compoundOf limit log k m).whole = m.payload := by
  unfold Compound.whole compoundOf
  rw [flatten_pieces, List.take_of_length_le (length_le_count hpos h)]

theorem fragment_deref {limit number : ℕ} {c : Counters} {m : Message} (h : Admissible limit m)
    {i : ℕ} (hi : i < m.count limit) :
    (m.fragment limit number c i).data.deref = (m.payload.drop (i * limit)).take limit := by
  have hlen : min limit (m.payload.length - i * limit) < 65536 :=
    (Nat.min_le_left _ _).trans_lt h.lt
  have hstart : i * limit < 4294967296 := by
    have hle : i * limit ≤ 65536 * limit := Nat.mul_le_mul_right _ (hi.le.trans h.count_le)
    have := h.lt
    omega
  have htake : (m.payload.drop (i * limit)).take (min limit (m.payload.length - i * limit)) =
      (m.payload.drop (i * limit)).take limit := by
    rw [← List.length_drop, ← List.take_take, List.take_length]
  unfold Message.fragment
  simp only [FrameSetPacket.fromPayload]
  split_ifs
  · exact htake
  · rw [FramePayload.deref, Nat.mod_eq_of_lt hstart, Nat.mod_eq_of_lt hlen, htake]

/-! ### The frames of the log -/

section accepted

variable {limit : ℕ} {log : List Message} {k : ℕ} {m : Message}

theorem mem_accepted {f : QueuedFrame} : f ∈ accepted limit log →
    ∃ (k : ℕ) (m : Message), log[k]? = some m ∧ f ∈ m.frames limit k (before limit log k) := by
  induction log using List.reverseRecOn with
  | nil => exact fun h => by cases h
  | append_singleton log m ih =>
    intro h
    rw [accepted_append] at h
    rcases List.mem_append.mp h with h | h
    · obtain ⟨k, m', hk, hf⟩ := ih h
      have hlt := (List.getElem?_eq_some_iff.mp hk).1
      refine ⟨k, m', ?_, ?_⟩
      · rw [List.getElem?_append_left hlt, hk]
      · rwa [before_append m hlt.le]
    · refine ⟨log.length, m, by simp, ?_⟩
      rwa [before_append m le_rfl, before_length]

theorem single_carries (h : Admissible limit m) (hf : ¬ m.Fragmented limit) :
    Carries limit log k m 0 (m.single (before limit log k)) where
  lt := by rw [count_single hf]; exact Nat.one_pos
  mode := by simp [Message.single, FrameSetPacket.reliability, FrameSetPacket.fromPayload]
  index hr := by simp [Message.single, hr]
  isFragment := by simp [single_isFragment, hf]
  channel hr := by simp [Message.single, hr, Reliability.isOrdered]
  rank hr := by simp [Message.single, hr, Reliability.isOrdered]
  whole _ := single_deref ((h.fits.resolve_left hf).trans_lt h.lt) _
  piece hf' := absurd hf' hf

theorem fragment_carries (h : Admissible limit m) (hf : m.Fragmented limit) (number : ℕ) {i : ℕ}
    (hi : i < m.count limit) :
    Carries limit log k m i (m.fragment limit number (before limit log k) i) where
  lt := hi
  mode := by
    rw [hf.1]
    simp [Message.fragment, FrameSetPacket.reliability, FrameSetPacket.fromPayload]
  index _ := rfl
  isFragment := by simp [fragment_isFragment, hf]
  channel _ := rfl
  rank _ := rfl
  whole hf' := absurd hf hf'
  piece _ := ⟨rfl, rfl, rfl, rfl, rfl, hi, by simp [Message.fragment, Reliability.toU8],
    fragment_deref h hi⟩

/-- **Every frame of the log carries its message.** -/
theorem accepted_carries (h : ∀ m ∈ log, Admissible limit m) {f : QueuedFrame}
    (hf : f ∈ accepted limit log) :
    ∃ m, log[f.message]? = some m ∧
      Carries limit log f.message m f.frame.fragmentIndex f.frame := by
  obtain ⟨k, m, hk, hmem⟩ := mem_accepted hf
  have hadm := h m (List.mem_of_getElem? hk)
  unfold Message.frames at hmem
  split_ifs at hmem with hfrag
  · obtain ⟨i, hi, rfl⟩ := List.mem_map.mp hmem
    exact ⟨m, hk, fragment_carries hadm hfrag k (List.mem_range.mp hi)⟩
  · rw [List.mem_singleton.mp hmem]
    refine ⟨m, hk, ?_⟩
    have hzero : (m.single (before limit log k)).fragmentIndex = 0 := rfl
    rw [hzero]
    exact single_carries hadm hfrag

/-- What is seen of a frame does not depend on its datagram and on how its payload is stored. -/
theorem Carries.congr {i : ℕ} {f f' : FrameSetPacket} (h : Carries limit log k m i f)
    (hflags : f'.flags = f.flags) (hindex : f'.reliableFrameIndex = f.reliableFrameIndex)
    (hchannel : f'.orderChannel = f.orderChannel)
    (hrank : f'.orderedFrameIndex = f.orderedFrameIndex)
    (hcompound : f'.compoundId = f.compoundId ∧ f'.compoundSize = f.compoundSize ∧
      f'.fragmentIndex = f.fragmentIndex)
    (hdata : f'.data.deref = f.data.deref) : Carries limit log k m i f' where
  lt := h.lt
  mode := by
    rw [← h.mode]
    simp only [FrameSetPacket.reliability, hflags]
  index hr := hindex.trans (h.index hr)
  isFragment := by
    rw [← h.isFragment]
    simp only [FrameSetPacket.isFragment, hflags]
  channel hr := hchannel.trans (h.channel hr)
  rank hr := hrank.trans (h.rank hr)
  whole hf := hdata.trans (h.whole hf)
  piece hf := by
    obtain ⟨h1, h2, h3, h4, h5, h6, h7, h8⟩ := h.piece hf
    exact ⟨hcompound.1.trans h1, hcompound.2.1.trans h2, hchannel.trans h3, hrank.trans h4,
      hcompound.2.2.trans h5, h6, hflags ▸ h7, hdata.trans h8⟩

end accepted

end RustRaknet.Link
