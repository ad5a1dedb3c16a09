import RustRaknet.Frame
import RustRaknet.Lib.Keyed
import RustRaknet.Lib.Result

/-! # Reassembly

`fragment.rs`: the fragments of one compound are collected in a `Fragment` until all are there, and
merged. `FragmentQ` holds the incomplete compounds by their 16-bit identifier. The time stamps that
`expired` reads are left out.

A subtraction on an unsigned counter that would go below zero sets `fault`: the source panics there
when overflow checks are on, and wraps otherwise. -/

namespace RustRaknet.Reassembly

open RustRaknet.Frame RustRaknet.Lib.Keyed RustRaknet.Lib.Result

/-- `MAX_FRAGMENTS`. -/
def maxFragments : ℕ := 65536

/-- The byte limit of a receive queue, 64 MiB. -/
def maxBytes : ℕ := 64 * 1024 * 1024

/-- Frames by a numeric key. -/
abbrev FrameMap := AList fun _ : ℕ => FrameSetPacket

/-! ### One compound -/

/-- `Fragment`. -/
structure Fragment where
  flags : ℕ
  compoundSize : ℕ
  orderedFrameIndex : ℕ
  orderChannel : ℕ
  frames : FrameMap
  bytes : ℕ

namespace Fragment

/-- `Fragment::new`. -/
def new (flags compoundSize orderedFrameIndex orderChannel : ℕ) : Fragment :=
  ⟨flags, compoundSize, orderedFrameIndex, orderChannel, ∅, 0⟩

/-- `Fragment::full`. -/
def full (g : Fragment) : Bool := g.compoundSize != 0 && size g.frames == g.compoundSize

/-- What a frame must share with the compound it is put into. -/
def Matches (g : Fragment) (frame : FrameSetPacket) : Prop :=
  frame.fragmentIndex < g.compoundSize ∧ frame.compoundSize = g.compoundSize ∧
    frame.orderChannel = g.orderChannel ∧ frame.orderedFrameIndex = g.orderedFrameIndex ∧
    frame.flags &&& 0xe0 = g.flags &&& 0xe0

instance (g : Fragment) (frame : FrameSetPacket) : Decidable (g.Matches frame) := by
  unfold Matches; infer_instance

/-- What a stored fragment is charged. -/
def charge (frame : FrameSetPacket) : ℕ := frame.data.len + 128

/-- The compound with one more fragment. -/
def add (g : Fragment) (frame : FrameSetPacket) : Fragment :=
  { g with frames := g.frames.insert frame.fragmentIndex frame, bytes := g.bytes + charge frame }

/-- `Fragment::insert`: the bytes charged for the frame, and the compound with it. -/
def insert (g : Fragment) (frame : FrameSetPacket) : Except RaknetError (ℕ × Fragment) :=
  if g.full then .ok (0, g)
  else if ¬ g.Matches frame then .error .packetParseError
  else
    match g.frames.lookup frame.fragmentIndex with
    | none => .ok (charge frame, g.add frame)
    | some _ => .ok (0, g)

/-- `Fragment::merge`. The lengths are summed first, which fails when a fragment is missing. -/
def merge (g : Fragment) : Except RaknetError FrameSetPacket := do
  if ¬ g.full then .error .packetParseError else
  if g.compoundSize = 0 then .error .packetParseError else
  match g.frames.lookup (g.compoundSize - 1) with
  | none => .error .packetParseError
  | some last =>
    match (List.range g.compoundSize).foldlM
        (fun total index => (g.frames.lookup index).map fun frame => total + frame.data.len) 0 with
    | none => .error .packetSizeExceedMTU
    | some _ =>
      let data ← (List.range g.compoundSize).foldlM (fun data index =>
        match g.frames.lookup index with
        | none => .error .packetParseError
        | some frame => .ok (data ++ frame.data.deref)) []
      let reliability ← Reliability.ofU8 ((g.flags &&& 224) >>> 5)
      .ok { FrameSetPacket.new reliability data with
        orderedFrameIndex := g.orderedFrameIndex
        orderChannel := g.orderChannel
        sequenceNumber := last.sequenceNumber }

end Fragment

/-! ### The queue of compounds -/

/-- `FragmentQ`. -/
structure FragmentQ where
  fragments : AList fun _ : ℕ => Fragment
  bytes : ℕ
  fault : Bool

namespace FragmentQ

/-- `FragmentQ::default`. -/
def empty : FragmentQ := ⟨∅, 0, false⟩

/-- The compound a frame belongs to, made from the frame itself when it is the first. -/
def entry (q : FragmentQ) (frame : FrameSetPacket) : Fragment :=
  (q.fragments.lookup frame.compoundId).getD
    (Fragment.new frame.flags frame.compoundSize frame.orderedFrameIndex frame.orderChannel)

/-- `FragmentQ::insert_frame`. The compound is made before the frame is checked against it. -/
def insertFrame (q : FragmentQ) (frame : FrameSetPacket) : Except RaknetError ℕ × FragmentQ :=
  if frame.compoundSize = 0 ∨ maxFragments < frame.compoundSize ∨
      maxBytes < q.bytes + Fragment.charge frame ∨
      (1024 ≤ size q.fragments ∧ q.fragments.lookup frame.compoundId = none) then
    (.error .packetParseError, q)
  else
    let g := q.entry frame
    match g.insert frame with
    | .error e => (.error e, { q with fragments := q.fragments.insert frame.compoundId g })
    | .ok (bytes, g) =>
      (.ok frame.compoundId,
        { q with fragments := q.fragments.insert frame.compoundId g, bytes := q.bytes + bytes })

/-- `FragmentQ::insert_and_take_completed`. -/
def insertAndTakeCompleted (q : FragmentQ) (frame : FrameSetPacket) :
    Except RaknetError (Option FrameSetPacket) × FragmentQ :=
  match q.insertFrame frame with
  | (.error e, q) => (.error e, q)
  | (.ok compoundId, q) =>
    match q.fragments.lookup compoundId with
    | some g =>
      if g.full then
        (g.merge.map some,
          { fragments := q.fragments.erase compoundId
            bytes := q.bytes - g.bytes
            fault := q.fault || decide (q.bytes < g.bytes) })
      else (.ok none, q)
    | none => (.ok none, q)

end FragmentQ

/-! ### Merging a full compound -/

/-- The fragments of a compound in order. -/
def chunks (g : Fragment) (n : ℕ) : List Bytes :=
  (List.range n).map fun i => ((g.frames.lookup i).map fun f => f.data.deref).getD []

theorem foldlM_total {g : Fragment} (w : FrameSetPacket → ℕ) :
    ∀ (l : List ℕ) (t : ℕ), (∀ i ∈ l, ∃ f, g.frames.lookup i = some f) →
      ∃ t', l.foldlM (fun total index => (g.frames.lookup index).map fun f => total + w f) t =
        some t'
  | [], t, _ => ⟨t, rfl⟩
  | i :: l, t, h => by
    obtain ⟨f, hf⟩ := h i (by simp)
    obtain ⟨t', ht'⟩ := foldlM_total w l (t + w f) fun j hj => h j (List.mem_cons_of_mem _ hj)
    exact ⟨t', by simp [hf, ht']⟩

theorem foldlM_data {g : Fragment} :
    ∀ (l : List ℕ) (data : Bytes), (∀ i ∈ l, ∃ f, g.frames.lookup i = some f) →
      l.foldlM (fun data index =>
        match g.frames.lookup index with
        | none => (.error .packetParseError : Except RaknetError Bytes)
        | some frame => .ok (data ++ frame.data.deref)) data =
      .ok (data ++
        (l.map fun i => ((g.frames.lookup i).map fun f => f.data.deref).getD []).flatten)
  | [], data, _ => by simp; rfl
  | i :: l, data, h => by
    obtain ⟨f, hf⟩ := h i (by simp)
    have ih := foldlM_data l (data ++ f.data.deref) fun j hj => h j (List.mem_cons_of_mem _ hj)
    simp only [List.foldlM_cons, hf, ok_bind, ih]
    simp [hf]

/-- **Merging never fails on a full compound**: its fragments are there, so it is the
concatenation of them. -/
theorem merge_eq {g : Fragment} {r : Reliability} (hfull : g.full = true)
    (hkeys : ∀ i f, g.frames.lookup i = some f → i < g.compoundSize)
    (hr : Reliability.ofU8 ((g.flags &&& 224) >>> 5) = .ok r) :
    ∃ last, g.frames.lookup (g.compoundSize - 1) = some last ∧
      g.merge = .ok { FrameSetPacket.new r (chunks g g.compoundSize).flatten with
        orderedFrameIndex := g.orderedFrameIndex
        orderChannel := g.orderChannel
        sequenceNumber := last.sequenceNumber } := by
  have hne : g.compoundSize ≠ 0 ∧ size g.frames = g.compoundSize := by
    simpa [Fragment.full] using hfull
  have hall : ∀ i ∈ List.range g.compoundSize, ∃ f, g.frames.lookup i = some f := fun i hi =>
    lookup_of_full hne.2 hkeys (List.mem_range.mp hi)
  obtain ⟨last, hlast⟩ := hall (g.compoundSize - 1) (List.mem_range.mpr (by omega))
  obtain ⟨t, ht⟩ := foldlM_total (fun f => f.data.len) (List.range g.compoundSize) 0 hall
  refine ⟨last, hlast, ?_⟩
  unfold Fragment.merge
  rw [if_neg (by simp [hfull]), if_neg hne.1, hlast]
  simp only [ht, foldlM_data _ [] hall, ok_bind, hr, List.nil_append]
  rfl

/-! ### The invariant of the reassembly -/

/-- A compound is sound: its fragments agree with it, each is a `P`, and they add up to its
bytes. -/
structure Fragment.Sound (P : FrameSetPacket → Prop) (g : Fragment) : Prop where
  bytes_eq : g.bytes = total Fragment.charge g.frames
  stored : ∀ i f, g.frames.lookup i = some f → f.fragmentIndex = i ∧ g.Matches f ∧ P f

/-- The queue is sound: its compounds are, they are few and small, and no counter went below
zero. -/
structure FragmentQ.Sound (P : FrameSetPacket → Prop) (q : FragmentQ) : Prop where
  bytes_eq : q.bytes = total Fragment.bytes q.fragments
  bytes_le : q.bytes ≤ maxBytes
  size_le : size q.fragments ≤ 1024
  fault : q.fault = false
  group : ∀ id g, q.fragments.lookup id = some g →
    g.Sound (fun f => f.compoundId = id ∧ P f) ∧ g.full = false

section invariant

variable {P : FrameSetPacket → Prop} {q : FragmentQ} {frame : FrameSetPacket}

theorem sound_empty (P : FrameSetPacket → Prop) : FragmentQ.empty.Sound P :=
  ⟨rfl, Nat.zero_le _, Nat.zero_le _, rfl, fun id g h => by cases h⟩

theorem Fragment.Sound.mono {Q : FrameSetPacket → Prop} {g : Fragment} (hPQ : ∀ f, P f → Q f)
    (h : g.Sound P) : g.Sound Q :=
  ⟨h.bytes_eq, fun i f hf => ⟨(h.stored i f hf).1, (h.stored i f hf).2.1,
    hPQ f (h.stored i f hf).2.2⟩⟩

theorem FragmentQ.Sound.mono {Q : FrameSetPacket → Prop} (hPQ : ∀ f, P f → Q f) (h : q.Sound P) :
    q.Sound Q :=
  ⟨h.bytes_eq, h.bytes_le, h.size_le, h.fault, fun id g hg =>
    ⟨(h.group id g hg).1.mono fun f hf => ⟨hf.1, hPQ f hf.2⟩, (h.group id g hg).2⟩⟩

theorem Fragment.sound_new (P : FrameSetPacket → Prop) (a b c d : ℕ) :
    (Fragment.new a b c d).Sound P :=
  ⟨rfl, fun i f h => by cases h⟩

theorem Fragment.Sound.add {g : Fragment} (h : g.Sound P) (hm : g.Matches frame) (hP : P frame)
    (hnew : g.frames.lookup frame.fragmentIndex = none) : (g.add frame).Sound P where
  bytes_eq := by
    simp only [Fragment.add, total_insert _ _ hnew, h.bytes_eq]
    omega
  stored i f hf := by
    by_cases hi : i = frame.fragmentIndex
    · subst hi
      simp only [Fragment.add, AList.lookup_insert, Option.some.injEq] at hf
      subst hf
      exact ⟨rfl, hm, hP⟩
    · simp only [Fragment.add, AList.lookup_insert_ne hi] at hf
      exact h.stored i f hf

theorem FragmentQ.Sound.entry (h : q.Sound P) (hs : frame.compoundSize ≠ 0) :
    (q.entry frame).Sound (fun f => f.compoundId = frame.compoundId ∧ P f) ∧
      (q.entry frame).full = false := by
  unfold FragmentQ.entry
  rcases hl : q.fragments.lookup frame.compoundId with _ | g
  · refine ⟨Fragment.sound_new _ _ _ _ _, ?_⟩
    simp only [Option.getD_none, Fragment.full, Fragment.new, size_empty]
    simp [hs.symm]
  · exact h.group _ _ hl

theorem FragmentQ.total_entry (q : FragmentQ) (frame : FrameSetPacket) (g : Fragment) :
    total Fragment.bytes (q.fragments.insert frame.compoundId g) + (q.entry frame).bytes =
      total Fragment.bytes q.fragments + g.bytes := by
  unfold FragmentQ.entry
  rcases hl : q.fragments.lookup frame.compoundId with _ | g'
  · rw [total_insert _ _ hl]
    simp only [Option.getD_none, Fragment.new]
    omega
  · exact total_replace _ _ hl

/-- The limits an accepted fragment has passed. -/
structure FragmentQ.Admits (q : FragmentQ) (frame : FrameSetPacket) : Prop where
  compoundSize_ne : frame.compoundSize ≠ 0
  compoundSize_le : frame.compoundSize ≤ maxFragments
  bytes_le : q.bytes + Fragment.charge frame ≤ maxBytes
  size_lt : q.fragments.lookup frame.compoundId = none → size q.fragments < 1024

theorem FragmentQ.size_entry (ha : q.Admits frame) (hs : size q.fragments ≤ 1024) (g : Fragment) :
    size (q.fragments.insert frame.compoundId g) ≤ 1024 := by
  rcases hl : q.fragments.lookup frame.compoundId with _ | g'
  · rw [size_insert _ hl]
    exact ha.size_lt hl
  · rw [size_replace _ hl]
    exact hs

/-- **What `insert_frame` does** in a queue without complete compounds. -/
theorem insertFrame_cases (q : FragmentQ) (frame : FrameSetPacket)
    (hfull : (q.entry frame).full = false) :
    (¬ q.Admits frame ∧ q.insertFrame frame = (.error .packetParseError, q)) ∨
    (q.Admits frame ∧ ¬ (q.entry frame).Matches frame ∧ q.insertFrame frame =
      (.error .packetParseError,
        { q with fragments := q.fragments.insert frame.compoundId (q.entry frame) })) ∨
    (q.Admits frame ∧ (q.entry frame).Matches frame ∧
      (∃ f, (q.entry frame).frames.lookup frame.fragmentIndex = some f) ∧
      q.insertFrame frame = (.ok frame.compoundId,
        { q with fragments := q.fragments.insert frame.compoundId (q.entry frame) })) ∨
    (q.Admits frame ∧ (q.entry frame).Matches frame ∧
      (q.entry frame).frames.lookup frame.fragmentIndex = none ∧
      q.insertFrame frame = (.ok frame.compoundId,
        { q with
          fragments := q.fragments.insert frame.compoundId ((q.entry frame).add frame)
          bytes := q.bytes + Fragment.charge frame })) := by
  unfold FragmentQ.insertFrame
  split_ifs with hlim
  · refine .inl ⟨fun ha => ?_, rfl⟩
    have := ha.compoundSize_le
    have := ha.bytes_le
    rcases hlim with h | h | h | ⟨h, hl⟩
    · exact ha.compoundSize_ne h
    · omega
    · omega
    · have := ha.size_lt hl; omega
  · push Not at hlim
    obtain ⟨h1, h2, h3, h4⟩ := hlim
    have ha : q.Admits frame := ⟨h1, h2, h3, fun hl => by
      by_contra hc
      exact h4 (by omega) hl⟩
    refine .inr ?_
    by_cases hm : (q.entry frame).Matches frame
    · refine .inr ?_
      rcases hl : (q.entry frame).frames.lookup frame.fragmentIndex with _ | f
      · refine .inr ⟨ha, hm, rfl, ?_⟩
        simp [Fragment.insert, hfull, hm, hl]
      · refine .inl ⟨ha, hm, ⟨f, rfl⟩, ?_⟩
        simp [Fragment.insert, hfull, hm, hl]
    · refine .inl ⟨ha, hm, ?_⟩
      simp [Fragment.insert, hfull, hm]

/-- **What `insert_and_take_completed` does** in a sound queue: it rejects the frame, or leaves its
compound incomplete, or completes the compound, takes it out and merges it. -/
theorem takeCompleted_cases (h : q.Sound P) (frame : FrameSetPacket) :
    (∃ q', q.insertAndTakeCompleted frame = (.error .packetParseError, q') ∧ (¬ q.Admits frame ∨
        ¬ (q.entry frame).Matches frame) ∧
      (q' = q ∨ q.Admits frame ∧
        q' = { q with fragments := q.fragments.insert frame.compoundId (q.entry frame) })) ∨
    (q.Admits frame ∧ (q.entry frame).Matches frame ∧
      (∃ f, (q.entry frame).frames.lookup frame.fragmentIndex = some f) ∧
      q.insertAndTakeCompleted frame = (.ok none,
        { q with fragments := q.fragments.insert frame.compoundId (q.entry frame) })) ∨
    (q.Admits frame ∧ (q.entry frame).Matches frame ∧
      (q.entry frame).frames.lookup frame.fragmentIndex = none ∧
      ((q.entry frame).add frame).full = false ∧
      q.insertAndTakeCompleted frame = (.ok none,
        { q with
          fragments := q.fragments.insert frame.compoundId ((q.entry frame).add frame)
          bytes := q.bytes + Fragment.charge frame })) ∨
    (q.Admits frame ∧ (q.entry frame).Matches frame ∧
      (q.entry frame).frames.lookup frame.fragmentIndex = none ∧
      ((q.entry frame).add frame).full = true ∧
      q.insertAndTakeCompleted frame = (((q.entry frame).add frame).merge.map some,
        { fragments := q.fragments.erase frame.compoundId
          bytes := q.bytes - (q.entry frame).bytes
          fault := false })) := by
  by_cases hs : frame.compoundSize = 0
  · refine .inl ⟨q, ?_, .inl fun ha => ha.compoundSize_ne hs, .inl rfl⟩
    simp [FragmentQ.insertAndTakeCompleted, FragmentQ.insertFrame, hs]
  obtain ⟨hg, hfull⟩ := h.entry hs
  have htotal := FragmentQ.total_entry q frame (Fragment.new 0 0 0 0)
  unfold FragmentQ.insertAndTakeCompleted
  rcases insertFrame_cases q frame hfull with ⟨hn, e⟩ | ⟨ha, hm, e⟩ | ⟨ha, hm, hl, e⟩ |
    ⟨ha, hm, hl, e⟩
  · exact .inl ⟨q, by rw [e], .inl hn, .inl rfl⟩
  · exact .inl ⟨_, by rw [e], .inr hm, .inr ⟨ha, rfl⟩⟩
  · refine .inr (.inl ⟨ha, hm, hl, ?_⟩)
    rw [e]
    simp only [AList.lookup_insert, hfull, Bool.false_eq_true, if_false]
  · refine .inr (.inr ?_)
    rw [e]
    simp only [AList.lookup_insert]
    cases hfull' : ((q.entry frame).add frame).full with
    | false => exact .inl ⟨ha, hm, hl, rfl, by simp⟩
    | true =>
      refine .inr ⟨ha, hm, hl, rfl, ?_⟩
      have hle : (q.entry frame).bytes ≤ q.bytes := by
        simp only [Fragment.new] at htotal
        rw [h.bytes_eq]
        omega
      have hsub : q.bytes + Fragment.charge frame - ((q.entry frame).add frame).bytes =
          q.bytes - (q.entry frame).bytes := by
        simp only [Fragment.add]; omega
      have hfault : ¬ q.bytes + Fragment.charge frame < ((q.entry frame).add frame).bytes := by
        simp only [Fragment.add]; omega
      simp only [if_true, erase_insert_self, hsub, h.fault, hfault, decide_false, Bool.or_false]

theorem FragmentQ.Sound.put (h : q.Sound P) (ha : q.Admits frame) {g : Fragment} {bytes : ℕ}
    (hg : g.Sound fun f => f.compoundId = frame.compoundId ∧ P f) (hfull : g.full = false)
    (hb : bytes + (q.entry frame).bytes = q.bytes + g.bytes) (hle : bytes ≤ maxBytes) :
    ({ q with fragments := q.fragments.insert frame.compoundId g, bytes } : FragmentQ).Sound P where
  bytes_eq := by
    have := FragmentQ.total_entry q frame g
    rw [← h.bytes_eq] at this
    simp only
    omega
  bytes_le := hle
  size_le := FragmentQ.size_entry ha h.size_le g
  fault := h.fault
  group id g' hl := by
    by_cases hid : id = frame.compoundId
    · subst hid
      simp only [AList.lookup_insert, Option.some.injEq] at hl
      subst hl
      exact ⟨hg, hfull⟩
    · simp only [AList.lookup_insert_ne hid] at hl
      exact h.group id g' hl

theorem FragmentQ.Sound.remove (h : q.Sound P) (frame : FrameSetPacket) :
    ({ fragments := q.fragments.erase frame.compoundId
       bytes := q.bytes - (q.entry frame).bytes
       fault := false } : FragmentQ).Sound P where
  bytes_eq := by
    have := FragmentQ.total_entry q frame (Fragment.new 0 0 0 0)
    simp only [total, AList.entries_insert, List.map_cons, List.sum_cons] at this
    simp only [Fragment.new] at this
    show q.bytes - (q.entry frame).bytes =
      ((q.fragments.entries.kerase frame.compoundId).map fun e => e.2.bytes).sum
    rw [h.bytes_eq]
    unfold total
    omega
  bytes_le := by have := h.bytes_le; simp only; omega
  size_le := by
    refine le_trans ?_ h.size_le
    rcases hl : q.fragments.lookup frame.compoundId with _ | g
    · show (q.fragments.entries.kerase frame.compoundId).length ≤ _
      rw [List.kerase_of_notMem_keys (AList.lookup_eq_none.mp hl)]
      exact le_rfl
    · rw [size_erase hl]; simp only; omega
  fault := rfl
  group id g hl := by
    by_cases hid : id = frame.compoundId
    · subst hid
      simp [AList.lookup_erase] at hl
    · simp only [AList.lookup_erase_ne hid] at hl
      exact h.group id g hl

/-- **The reassembly stays sound**, and what it completes is the merge of a sound compound that
the frame was the last fragment of. -/
theorem FragmentQ.Sound.takeCompleted (h : q.Sound P) (frame : FrameSetPacket) (hP : P frame) :
    (q.insertAndTakeCompleted frame).2.Sound P ∧
      ∀ m, (q.insertAndTakeCompleted frame).1 = .ok (some m) →
        ∃ g : Fragment, g.Sound (fun f => f.compoundId = frame.compoundId ∧ P f) ∧
          g.full = true ∧ g.Matches frame ∧ g.merge = .ok m := by
  rcases takeCompleted_cases h frame with ⟨q', e, -, hq'⟩ | ⟨ha, hm, hl, e⟩ | ⟨ha, hm, hl, hf, e⟩ |
    ⟨ha, hm, hl, hf, e⟩ <;> rw [e]
  · refine ⟨?_, fun m hm => by cases hm⟩
    rcases hq' with rfl | ⟨ha, rfl⟩
    · exact h
    · obtain ⟨hg, hfull⟩ := h.entry ha.compoundSize_ne
      exact h.put ha hg hfull rfl h.bytes_le
  · obtain ⟨hg, hfull⟩ := h.entry ha.compoundSize_ne
    exact ⟨h.put ha hg hfull rfl h.bytes_le, fun m hm => by cases hm⟩
  · obtain ⟨hg, hfull⟩ := h.entry ha.compoundSize_ne
    refine ⟨h.put ha (hg.add hm ⟨rfl, hP⟩ hl) hf ?_ ha.bytes_le, fun m hm => by cases hm⟩
    simp only [Fragment.add]; omega
  · obtain ⟨hg, hfull⟩ := h.entry ha.compoundSize_ne
    refine ⟨h.remove frame, fun m hmerge => ⟨_, hg.add hm ⟨rfl, hP⟩ hl, hf, hm, ?_⟩⟩
    obtain ⟨m', hm', heq⟩ := map_eq_ok.mp hmerge
    rw [hm', ← Option.some.inj heq]

end invariant

end RustRaknet.Reassembly
