import RustRaknet.Recv.Queue

/-! # Ordered delivery

What `ordered_packets` and the expected indexes of `RecvQ` are for. On every channel the complete
messages have unbounded ranks 0, 1, 2, …; `S c` is the set of ranks that are complete on the channel
`c`, and the queue has handed out those below the least missing one. Indexes are ranks modulo 2^24,
and as long as no rank is 65,536 or more ahead of the least missing one they are as good as ranks.

The frames are known by a predicate: `P c o f` says that `f` is the message of rank `o` on `c`. -/

namespace RustRaknet.Recv

open RustRaknet.Frame RustRaknet.Sequence RustRaknet.Indexes RustRaknet.Lib.Keyed
  RustRaknet.Lib.Serial
open RustRaknet.Reassembly (maxBytes)

/-! ### The buffer -/

/-- The queue has handed out the first `n c` messages of every channel `c`, all of them in `S c`, and
stores the other messages of `S c`. -/
structure Buffers (P : ℕ → ℕ → FrameSetPacket → Prop) (S : ℕ → Finset ℕ) (n : ℕ → ℕ) (q : RecvQ) :
    Prop where
  expected : ∀ c, q.lastOrderedIndexes.get c = n c % 16777216
  below : ∀ c, ∀ o < n c, o ∈ S c
  near : ∀ c, ∀ o ∈ S c, o < n c + 65536
  stored : ∀ c i f, q.orderedPackets.lookup (c, i) = some f →
    ∃ o ∈ S c, n c ≤ o ∧ i = o % 16777216 ∧ P c o f
  storing : ∀ c, ∀ o ∈ S c, n c ≤ o → ∃ f, q.orderedPackets.lookup (c, o % 16777216) = some f

/-- The frames are the messages of rank `n`, `n + 1`, … -/
def Handed (P : ℕ → FrameSetPacket → Prop) : ℕ → List FrameSetPacket → Prop
  | _, [] => True
  | n, f :: fs => P n f ∧ Handed P (n + 1) fs

theorem Handed.concat {P : ℕ → FrameSetPacket → Prop} {f : FrameSetPacket} :
    ∀ {fs : List FrameSetPacket} {n : ℕ}, Handed P n fs → P (n + fs.length) f →
      Handed P n (fs ++ [f])
  | [], n, _, hf => ⟨by simpa using hf, trivial⟩
  | g :: fs, n, h, hf => by
    refine ⟨h.1, h.2.concat ?_⟩
    rw [List.length_cons] at hf
    rwa [Nat.add_assoc, Nat.add_comm 1]

theorem rank_eq {n o o' : ℕ} (h : n ≤ o) (h' : n ≤ o') (hlt : o < n + 65536) (hlt' : o' < n + 65536)
    (he : o % 16777216 = o' % 16777216) : o = o' :=
  eq_of_mod_eq he (by omega) (by omega)

section buffer

variable {P : ℕ → ℕ → FrameSetPacket → Prop} {S : ℕ → Finset ℕ} {n : ℕ → ℕ} {q : RecvQ}
  {frame : FrameSetPacket} {c : ℕ}

theorem Buffers.congr {q' : RecvQ} (h : Buffers P S n q)
    (hindexes : q'.lastOrderedIndexes = q.lastOrderedIndexes)
    (hpackets : q'.orderedPackets = q.orderedPackets) : Buffers P S n q' :=
  ⟨fun c => by rw [hindexes]; exact h.expected c, h.below, h.near,
    fun c i f hf => h.stored c i f (by rwa [← hpackets]),
    fun c o ho hle => by rw [hpackets]; exact h.storing c o ho hle⟩

theorem Buffers.mono {P' : ℕ → ℕ → FrameSetPacket → Prop} (hP : ∀ c o f, P c o f → P' c o f)
    (h : Buffers P S n q) : Buffers P' S n q :=
  ⟨h.expected, h.below, h.near, fun c i f hf => by
    obtain ⟨o, ho, hle, hi, hPf⟩ := h.stored c i f hf
    exact ⟨o, ho, hle, hi, hP c o f hPf⟩, h.storing⟩

theorem Buffers.head (h : Buffers P S n q)
    (hl : q.orderedPackets.lookup (c, q.lastOrderedIndexes.get c) = some frame) :
    n c ∈ S c ∧ P c (n c) frame := by
  obtain ⟨o, ho, hle, he, hP⟩ := h.stored c _ frame hl
  rw [h.expected c] at he
  have := rank_eq le_rfl hle (by omega) (h.near c o ho) he
  subst this
  exact ⟨ho, hP⟩

/-- One turn of the loop hands out one more message. -/
theorem Buffers.release (h : Buffers P S n q)
    (hl : q.orderedPackets.lookup (c, q.lastOrderedIndexes.get c) = some frame) :
    Buffers P S (Function.update n c (n c + 1)) (q.release c frame) := by
  obtain ⟨hmem, -⟩ := h.head hl
  have hexpected := h.expected c
  refine ⟨fun c' => ?_, fun c' o ho => ?_, fun c' o ho => ?_, fun c' i f hf => ?_,
    fun c' o ho hle => ?_⟩
  · simp only [RecvQ.release, ChannelIndexes.get_set, Function.update_apply]
    split_ifs
    · rw [hexpected, next_mod]
    · exact h.expected c'
  · by_cases hc : c' = c
    · subst hc
      rw [Function.update_self] at ho
      rcases Nat.lt_succ_iff_lt_or_eq.mp ho with ho | rfl
      · exact h.below c' o ho
      · exact hmem
    · rw [Function.update_of_ne hc] at ho
      exact h.below c' o ho
  · have := h.near c' o ho
    rw [Function.update_apply]
    split_ifs with hc
    · rw [hc] at this
      omega
    · exact this
  · have hne : (c', i) ≠ (c, q.lastOrderedIndexes.get c) := by
      intro he
      have hf' : (q.orderedPackets.erase (c, q.lastOrderedIndexes.get c)).lookup (c', i) = some f :=
        hf
      rw [he, AList.lookup_erase] at hf'
      cases hf'
    simp only [RecvQ.release, AList.lookup_erase_ne hne] at hf
    obtain ⟨o, ho, hle, rfl, hP⟩ := h.stored c' i f hf
    refine ⟨o, ho, ?_, rfl, hP⟩
    rw [Function.update_apply]
    split_ifs with hc
    · subst hc
      have : o ≠ n c' := fun he => hne (by rw [hexpected, he])
      omega
    · exact hle
  · have hle' : n c' ≤ o := by
      rw [Function.update_apply] at hle
      split_ifs at hle with hc
      · rw [hc]
        omega
      · exact hle
    obtain ⟨f, hf⟩ := h.storing c' o ho hle'
    refine ⟨f, ?_⟩
    simp only [RecvQ.release]
    rw [AList.lookup_erase_ne, hf]
    rintro he
    obtain ⟨rfl, he⟩ := Prod.mk.inj he
    rw [hexpected] at he
    have := rank_eq hle' le_rfl (h.near c' o ho) (by omega) he
    rw [Function.update_self] at hle
    omega

/-- **The loop** hands out the messages from the expected one to the least missing one. -/
theorem Buffers.drain (h : Buffers P S n q) (c : ℕ) :
    ∃ fs, (RecvQ.drain c (size q.orderedPackets) q).readyOrdered = q.readyOrdered ++ fs ∧
      Handed (P c) (n c) fs ∧ n c + fs.length ∉ S c ∧
      Buffers P S (Function.update n c (n c + fs.length))
        (RecvQ.drain c (size q.orderedPackets) q) := by
  have hstep : ∀ q' f, (∃ fs, q'.readyOrdered = q.readyOrdered ++ fs ∧ Handed (P c) (n c) fs ∧
      Buffers P S (Function.update n c (n c + fs.length)) q') →
      q'.orderedPackets.lookup (c, q'.lastOrderedIndexes.get c) = some f →
      ∃ fs, (q'.release c f).readyOrdered = q.readyOrdered ++ fs ∧ Handed (P c) (n c) fs ∧
        Buffers P S (Function.update n c (n c + fs.length)) (q'.release c f) := by
    rintro q' f ⟨fs, hready, hhanded, hbuffers⟩ hl
    have hhead := (hbuffers.head hl).2
    have hrelease := hbuffers.release hl
    rw [Function.update_self] at hhead hrelease
    refine ⟨fs ++ [f], ?_, hhanded.concat hhead, ?_⟩
    · simp [RecvQ.release, hready]
    · rw [Function.update_idem, Nat.add_assoc] at hrelease
      rwa [List.length_append, List.length_singleton]
  obtain ⟨⟨fs, hready, hhanded, hbuffers⟩, hnone⟩ := drain_induction c hstep _ q rfl
    ⟨[], by simp, trivial, by simpa using h⟩
  refine ⟨fs, hready, hhanded, fun hmem => ?_, hbuffers⟩
  obtain ⟨f, hf⟩ := hbuffers.storing c _ hmem (by simp)
  rw [hbuffers.expected c, Function.update_self, hf] at hnone
  cases hnone

end buffer

/-! ### A complete message -/

section complete

variable {P : ℕ → ℕ → FrameSetPacket → Prop} {S : ℕ → Finset ℕ} {q : RecvQ}
  {frame : FrameSetPacket} {o : ℕ}

/-- All messages before the least missing one are handed out. -/
abbrev Buffered (P : ℕ → ℕ → FrameSetPacket → Prop) (S : ℕ → Finset ℕ) (q : RecvQ) : Prop :=
  Buffers P S (fun c => mex (S c)) q

theorem Buffered.ready (h : Buffered P S q) {c : ℕ} (hc : frame.orderChannel = c)
    (hnew : mex (S c) = o) :
    Buffers P (Function.update S c (insert o (S c)))
      (Function.update (fun c => mex (S c)) c (o + 1)) (q.ready frame) := by
  subst hc hnew
  have hnot := mex_notMem (S frame.orderChannel)
  refine ⟨fun c => ?_, fun c o ho => ?_, fun c o ho => ?_, fun c i f hf => ?_, fun c o ho hle => ?_⟩
  · simp only [RecvQ.ready, ChannelIndexes.get_set, Function.update_apply]
    split_ifs
    · rw [h.expected, next_mod]
    · exact h.expected c
  all_goals
    by_cases hc : c = frame.orderChannel
    on_goal 1 => subst hc
    on_goal 2 => rw [Function.update_of_ne hc] at *
  · rw [Function.update_self] at ho ⊢
    rcases Nat.lt_succ_iff_lt_or_eq.mp ho with ho | rfl
    · exact Finset.mem_insert_of_mem (h.below _ o ho)
    · exact Finset.mem_insert_self _ _
  · exact h.below c o ho
  · rw [Function.update_self] at ho ⊢
    rcases Finset.mem_insert.mp ho with rfl | ho
    · omega
    · have := h.near _ o ho
      omega
  · exact h.near c o ho
  · rw [Function.update_self, Function.update_self]
    obtain ⟨o, ho, hle, hi, hP⟩ := h.stored _ i f hf
    have : o ≠ mex (S frame.orderChannel) := fun he => hnot (he ▸ ho)
    exact ⟨o, Finset.mem_insert_of_mem ho, by omega, hi, hP⟩
  · rw [Function.update_of_ne hc]
    exact h.stored c i f hf
  · rw [Function.update_self] at ho hle
    rcases Finset.mem_insert.mp ho with rfl | ho
    · omega
    · exact h.storing _ o ho (by omega)
  · exact h.storing c o ho hle

theorem Buffered.store (h : Buffered P S q) {c : ℕ} (hc : frame.orderChannel = c)
    (hindex : frame.orderedFrameIndex = o % 16777216) (hP : P c o frame) (hlt : mex (S c) < o)
    (hnear : o < mex (S c) + 65536) :
    Buffered P (Function.update S c (insert o (S c))) (q.store frame) := by
  subst hc
  have hmex : mex (insert o (S frame.orderChannel)) = mex (S frame.orderChannel) :=
    mex_insert_of_ne hlt.ne'
  refine ⟨fun c => ?_, fun c o' ho => ?_, fun c o' ho => ?_, fun c i f hf => ?_,
    fun c o' ho hle => ?_⟩
  all_goals
    by_cases hc : c = frame.orderChannel
    on_goal 1 => subst hc
    on_goal 2 => simp only [Function.update_of_ne hc] at *
  · rw [Function.update_self, hmex]
    exact h.expected _
  · exact h.expected c
  · rw [Function.update_self, hmex] at ho
    rw [Function.update_self]
    exact Finset.mem_insert_of_mem (h.below _ o' ho)
  · exact h.below c o' ho
  · rw [Function.update_self] at ho ⊢
    rw [hmex]
    rcases Finset.mem_insert.mp ho with rfl | ho
    · exact hnear
    · exact h.near _ o' ho
  · exact h.near c o' ho
  · rw [Function.update_self, hmex]
    by_cases hi : i = o % 16777216
    · subst hi
      simp only [RecvQ.store, hindex, AList.lookup_insert, Option.some.injEq] at hf
      subst hf
      exact ⟨o, Finset.mem_insert_self _ _, hlt.le, rfl, hP⟩
    · have hne : (frame.orderChannel, i) ≠ (frame.orderChannel, o % 16777216) := fun he =>
        hi (Prod.mk.inj he).2
      simp only [RecvQ.store, hindex, AList.lookup_insert_ne hne] at hf
      obtain ⟨o', ho', hle, he, hP'⟩ := h.stored _ i f hf
      exact ⟨o', Finset.mem_insert_of_mem ho', hle, he, hP'⟩
  · have hne : (c, i) ≠ (frame.orderChannel, frame.orderedFrameIndex) := fun he =>
      hc (Prod.mk.inj he).1
    simp only [RecvQ.store, AList.lookup_insert_ne hne] at hf
    exact h.stored c i f hf
  · rw [Function.update_self] at ho hle
    rw [hmex] at hle
    simp only [RecvQ.store, hindex]
    by_cases he : o' % 16777216 = o % 16777216
    · exact ⟨frame, by rw [he, AList.lookup_insert]⟩
    · have hne : (frame.orderChannel, o' % 16777216) ≠ (frame.orderChannel, o % 16777216) :=
        fun h => he (Prod.mk.inj h).2
      rw [AList.lookup_insert_ne hne]
      rcases Finset.mem_insert.mp ho with rfl | ho
      · exact absurd rfl he
      · exact h.storing _ o' ho hle
  · have hne : (c, o' % 16777216) ≠ (frame.orderChannel, frame.orderedFrameIndex) := fun he =>
      hc (Prod.mk.inj he).1
    simp only [RecvQ.store, AList.lookup_insert_ne hne]
    exact h.storing c o' ho hle

/-- The queue has room for one more ordered message of the given length. -/
structure Room (q : RecvQ) (length : ℕ) : Prop where
  count : size q.orderedPackets + q.readyOrdered.length < 65536
  bytes : q.orderedBytes + q.readyBytes + length ≤ maxBytes

/-- **A new message** is handed out with those that waited for it, or stored. -/
theorem Buffered.insertComplete (h : Buffered P S q) {c : ℕ} (hc : frame.orderChannel = c)
    (hindex : frame.orderedFrameIndex = o % 16777216) (hP : P c o frame) (hnew : o ∉ S c)
    (hnear : o < mex (S c) + 65536) :
    (Room q frame.data.len → ∃ q' fs, q.insertComplete (q.lastOrderedIndexes.get c) frame = (.ok (), q') ∧
      q'.readyOrdered = q.readyOrdered ++ fs ∧ Handed (P c) (mex (S c)) fs ∧
      mex (insert o (S c)) = mex (S c) + fs.length ∧
      Buffered P (Function.update S c (insert o (S c))) q') ∧
    (¬ Room q frame.data.len → (q.insertComplete (q.lastOrderedIndexes.get c) frame).1 =
      .error .packetParseError) := by
  have hle : mex (S c) ≤ o := mex_le hnew
  have hnone : q.orderedPackets.lookup (frame.orderChannel, frame.orderedFrameIndex) = none := by
    rw [hc, hindex, Option.eq_none_iff_forall_ne_some]
    intro f hf
    obtain ⟨o', ho', hle', he, -⟩ := h.stored c _ f hf
    have := rank_eq hle hle' hnear (h.near c o' ho') he
    exact hnew (this ▸ ho')
  unfold RecvQ.insertComplete
  simp only [hnone]
  refine ⟨fun hroom => ?_, fun hroom => ?_⟩
  · rw [if_neg (by have := hroom.count; have := hroom.bytes; unfold receiveWindow; omega)]
    rw [hindex, h.expected c]
    split_ifs with he
    · obtain rfl : o = mex (S c) := rank_eq hle le_rfl hnear (by omega) he
      obtain ⟨fs, hready, hhanded, hmissing, hbuffers⟩ := (h.ready hc rfl).drain c
      rw [Function.update_self] at hhanded hmissing hbuffers
      rw [Function.update_idem] at hbuffers
      rw [Function.update_self] at hmissing
      have hmex : mex (insert (mex (S c)) (S c)) = mex (S c) + 1 + fs.length := by
        refine mex_eq hmissing fun i hi => ?_
        have := hbuffers.below c i (by rwa [Function.update_self])
        rwa [Function.update_self] at this
      refine ⟨_, frame :: fs, by rw [hc], ?_, ⟨hP, hhanded⟩, ?_, ?_⟩
      · rw [hready]
        simp [RecvQ.ready]
      · rw [hmex, List.length_cons]
        omega
      · have hn : Function.update (fun c => mex (S c)) c (mex (S c) + 1 + fs.length) =
            fun c' => mex (Function.update S c (insert (mex (S c)) (S c)) c') := by
          funext c'
          by_cases hc' : c' = c
          · subst hc'
            rw [Function.update_self, Function.update_self, hmex]
          · rw [Function.update_of_ne hc', Function.update_of_ne hc']
        rwa [hn] at hbuffers
    · have hlt : mex (S c) < o := lt_of_le_of_ne hle fun h => he (by rw [h])
      exact ⟨_, [], rfl, by simp [RecvQ.store], trivial, by rw [mex_insert_of_ne hlt.ne']; rfl,
        h.store hc hindex hP hlt hnear⟩
  · rw [if_pos]
    by_contra hc'
    push Not at hc'
    exact hroom ⟨hc'.1, hc'.2⟩

end complete

end RustRaknet.Recv
