import RustRaknet.Send.Conserve
import RustRaknet.Recv.Assembly
import RustRaknet.Lib.Serial

/-! # The catalogue of a log

The numbers of the messages and frames of a log, unbounded, as the sender gives them out. A frame has
a position among all reliable frames, a `ReliableOrdered` message a rank on its channel, a message
that is cut a compound number. Ranks grow no faster than positions and compound numbers at most half
as fast, so the receive window, which bounds positions, bounds the others too: that is why 24-bit
ranks and 16-bit compound numbers are enough.

`A` is a set of positions of frames, those that have arrived. -/

namespace RustRaknet.Link

open RustRaknet.Send RustRaknet.Frame RustRaknet.Lib.Serial
open RustRaknet.Reassembly (Compound)

/-! ### Counters along a log -/

/-- The message is `ReliableOrdered`, on the channel `c`. -/
def On (c : ℕ) (m : Message) : Prop := m.reliability = .reliableOrdered ∧ m.channel = c

instance (c : ℕ) (m : Message) : Decidable (On c m) := by unfold On; infer_instance

theorem On.isReliable {c : ℕ} {m : Message} (h : On c m) : m.reliability.isReliable = true := by
  rw [h.1]
  rfl

/-- The counters before the message `k`. -/
def before (limit : ℕ) (log : List Message) (k : ℕ) : Counters := counters limit (log.take k)

/-- How the counters of a log move: ranks no faster than positions, compounds half as fast. -/
structure Grows (a b : Counters) : Prop where
  reliable_le : a.reliable ≤ b.reliable
  ordered_le : ∀ c, a.ordered c ≤ b.ordered c
  ordered_slow : ∀ c, b.ordered c + a.reliable ≤ a.ordered c + b.reliable
  compound_le : a.compound ≤ b.compound
  compound_slow : 2 * b.compound + a.reliable ≤ 2 * a.compound + b.reliable

theorem Grows.refl (a : Counters) : Grows a a :=
  ⟨le_rfl, fun _ => le_rfl, fun _ => le_rfl, le_rfl, le_rfl⟩

theorem Grows.trans {a b c : Counters} (h : Grows a b) (h' : Grows b c) : Grows a c where
  reliable_le := h.reliable_le.trans h'.reliable_le
  ordered_le ch := (h.ordered_le ch).trans (h'.ordered_le ch)
  ordered_slow ch := by
    have := h.ordered_slow ch
    have := h'.ordered_slow ch
    omega
  compound_le := h.compound_le.trans h'.compound_le
  compound_slow := by
    have := h.compound_slow
    have := h'.compound_slow
    omega

theorem two_le_count {limit : ℕ} {m : Message} (hpos : 0 < limit) (h : m.Fragmented limit) :
    2 ≤ m.count limit := by
  obtain ⟨hr, hlt⟩ := h
  unfold Message.count SendQ.frameCount
  rw [if_pos ⟨hr, hlt⟩, Nat.le_div_iff_mul_le hpos]
  omega

theorem add_ordered (limit : ℕ) (a : Counters) (m : Message) (c : ℕ) :
    (a.add limit m).ordered c = a.ordered c + if On c m then 1 else 0 := by
  unfold Counters.add On
  by_cases hm : m.reliability = .reliableOrdered
  · by_cases hc : m.channel = c
    · subst hc
      simp [hm]
    · simp [hm, hc, Function.update_of_ne (Ne.symm hc)]
  · simp [hm]

theorem Grows.add {limit : ℕ} (hpos : 0 < limit) (a : Counters) (m : Message) :
    Grows a (a.add limit m) := by
  have hcount := count_pos m hpos
  refine ⟨Nat.le_add_right _ _, fun c => ?_, fun c => ?_, Nat.le_add_right _ _, ?_⟩
  · rw [add_ordered]
    exact Nat.le_add_right _ _
  · rw [add_ordered]
    simp only [Counters.add]
    split_ifs with hc hr
    · omega
    · exact absurd hc.isReliable hr
    · omega
    · omega
  · simp only [Counters.add]
    split_ifs with hf hr
    · have := two_le_count hpos hf
      omega
    · rw [hf.1] at hr
      exact absurd rfl hr
    · omega
    · omega

section counters

variable {limit : ℕ} {log : List Message} {k k' : ℕ} {m m' : Message} {c : ℕ}

theorem before_succ (limit : ℕ) (hk : log[k]? = some m) :
    before limit log (k + 1) = (before limit log k).add limit m := by
  unfold before
  rw [List.take_add_one, hk]
  exact counters_append limit _ m

theorem before_end (hk : log[k]? = none) : before limit log (k + 1) = before limit log k := by
  unfold before
  rw [List.take_add_one, hk]
  simp

theorem before_append (m : Message) (h : k ≤ log.length) :
    before limit (log ++ [m]) k = before limit log k := by
  unfold before
  rw [List.take_append_of_le_length h]

theorem before_length (limit : ℕ) (log : List Message) :
    before limit log log.length = counters limit log := by
  unfold before
  rw [List.take_length]

theorem before_grows (log : List Message) (hpos : 0 < limit) (h : k ≤ k') :
    Grows (before limit log k) (before limit log k') := by
  induction k', h using Nat.le_induction with
  | base => exact .refl _
  | succ k' _ ih =>
    refine ih.trans ?_
    rcases hk : log[k']? with _ | m
    · rw [before_end hk]
      exact .refl _
    · rw [before_succ limit hk]
      exact .add hpos _ m

theorem stretch (hpos : 0 < limit) (hk : log[k]? = some m) (hr : m.reliability.isReliable = true)
    (h : k < k') :
    (before limit log k).reliable + m.count limit ≤ (before limit log k').reliable := by
  have := (before_grows log hpos (Nat.succ_le_of_lt h)).reliable_le
  rw [before_succ limit hk] at this
  simpa [Counters.add, hr] using this

theorem position_inj (hpos : 0 < limit) (hk : log[k]? = some m)
    (hr : m.reliability.isReliable = true) (hk' : log[k']? = some m')
    (hr' : m'.reliability.isReliable = true) {i i' : ℕ} (hi : i < m.count limit)
    (hi' : i' < m'.count limit)
    (he : (before limit log k).reliable + i = (before limit log k').reliable + i') :
    k = k' ∧ i = i' := by
  rcases lt_trichotomy k k' with h | rfl | h
  · have := stretch hpos hk hr h
    omega
  · exact ⟨rfl, by omega⟩
  · have := stretch hpos hk' hr' h
    omega

theorem position_lt (hpos : 0 < limit) (hk : log[k]? = some m)
    (hr : m.reliability.isReliable = true) {i : ℕ} (hi : i < m.count limit) :
    (before limit log k).reliable + i < (counters limit log).reliable := by
  have hlt : k < log.length := (List.getElem?_eq_some_iff.mp hk).1
  have := stretch hpos hk hr hlt
  rw [before_length] at this
  omega

theorem rank_lt (hpos : 0 < limit) (hk : log[k]? = some m) (hm : On c m) (h : k < k') :
    (before limit log k).ordered c < (before limit log k').ordered c := by
  have := (before_grows log hpos (Nat.succ_le_of_lt h)).ordered_le c
  rw [before_succ limit hk, add_ordered, if_pos hm] at this
  omega

theorem rank_inj (hpos : 0 < limit) (hk : log[k]? = some m) (hm : On c m)
    (hk' : log[k']? = some m') (hm' : On c m')
    (he : (before limit log k).ordered c = (before limit log k').ordered c) : k = k' := by
  rcases lt_trichotomy k k' with h | h | h
  · have := rank_lt hpos hk hm h
    omega
  · exact h
  · have := rank_lt hpos hk' hm' h
    omega

theorem exists_rank {o : ℕ} : ∀ {n : ℕ}, o < (before limit log n).ordered c →
    ∃ k < n, ∃ m, log[k]? = some m ∧ On c m ∧ (before limit log k).ordered c = o
  | 0, h => by simp [before, counters, Counters.zero] at h
  | n + 1, h => by
    rcases hn : log[n]? with _ | m
    · rw [before_end hn] at h
      obtain ⟨k, hk, rest⟩ := exists_rank h
      exact ⟨k, by omega, rest⟩
    · by_cases ho : o < (before limit log n).ordered c
      · obtain ⟨k, hk, rest⟩ := exists_rank ho
        exact ⟨k, by omega, rest⟩
      · rw [before_succ limit hn, add_ordered] at h
        split_ifs at h with hm
        · exact ⟨n, Nat.lt_succ_self n, m, hn, hm, by omega⟩
        · omega

end counters

/-! ### Complete messages -/

/-- Every frame of the message `k` is in `A`. -/
def Complete (limit : ℕ) (log : List Message) (A : Finset ℕ) (k : ℕ) (m : Message) : Prop :=
  ∀ i < m.count limit, (before limit log k).reliable + i ∈ A

instance (limit : ℕ) (log : List Message) (A : Finset ℕ) (k : ℕ) (m : Message) :
    Decidable (Complete limit log A k m) := by unfold Complete; infer_instance

/-- The ranks of the complete messages of a channel. -/
def done (limit : ℕ) (log : List Message) (A : Finset ℕ) (c : ℕ) : Finset ℕ :=
  ((Finset.range log.length).filter fun k =>
    ∃ m ∈ log[k]?, On c m ∧ Complete limit log A k m).image
      fun k => (before limit log k).ordered c

section complete

variable {limit : ℕ} {log : List Message} {A : Finset ℕ} {k k' : ℕ} {m m' : Message} {c o : ℕ}

theorem mem_done : o ∈ done limit log A c ↔ ∃ k m, log[k]? = some m ∧ On c m ∧
    Complete limit log A k m ∧ (before limit log k).ordered c = o := by
  simp only [done, Finset.mem_image, Finset.mem_filter, Finset.mem_range, Option.mem_def]
  constructor
  · rintro ⟨k, ⟨-, m, hk, hm, hcomplete⟩, rfl⟩
    exact ⟨k, m, hk, hm, hcomplete, rfl⟩
  · rintro ⟨k, m, hk, hm, hcomplete, rfl⟩
    exact ⟨k, ⟨(List.getElem?_eq_some_iff.mp hk).1, m, hk, hm, hcomplete⟩, rfl⟩

theorem rank_mem_done (hpos : 0 < limit) (hk : log[k]? = some m) (hm : On c m) :
    (before limit log k).ordered c ∈ done limit log A c ↔ Complete limit log A k m := by
  rw [mem_done]
  constructor
  · rintro ⟨k', m', hk', hm', hcomplete, he⟩
    obtain rfl := rank_inj hpos hk' hm' hk hm he
    rw [hk] at hk'
    exact Option.some.inj hk' ▸ hcomplete
  · intro h
    exact ⟨k, m, hk, hm, h, rfl⟩

theorem exists_missing (h : ¬ Complete limit log A k m) :
    ∃ i < m.count limit, (before limit log k).reliable + i ∉ A ∧
      mex A ≤ (before limit log k).reliable + i := by
  unfold Complete at h
  push Not at h
  obtain ⟨i, hi, hnot⟩ := h
  exact ⟨i, hi, hnot, mex_le hnot⟩

/-- **Ranks stay in their window**: a message of which a frame is in the receive window is less than
65,536 ahead of the first message that is not complete. -/
theorem rank_near (hpos : 0 < limit) {i : ℕ}
    (hi : (before limit log k).reliable + i < mex A + 65536) :
    (before limit log k).ordered c < mex (done limit log A c) + 65536 := by
  by_contra hge
  push Not at hge
  obtain ⟨k₀, hlt, m₀, hk₀, hm₀, hrank⟩ := exists_rank
    (show mex (done limit log A c) < (before limit log k).ordered c by omega)
  have hmissing : ¬ Complete limit log A k₀ m₀ := fun hcomplete => by
    refine mex_notMem (done limit log A c) ?_
    rw [← hrank]
    exact (rank_mem_done hpos hk₀ hm₀).mpr hcomplete
  obtain ⟨i₀, hi₀, -, hmex⟩ := exists_missing hmissing
  have hslow := (before_grows log hpos (Nat.succ_le_of_lt hlt)).ordered_slow c
  have hrank' := congrArg (fun x : Counters => x.ordered c) (before_succ limit hk₀)
  have hbase := congrArg Counters.reliable (before_succ limit hk₀)
  simp only [add_ordered, if_pos hm₀] at hrank'
  simp only [Counters.add, hm₀.isReliable, if_true] at hbase
  rw [Nat.succ_eq_add_one, hrank', hbase] at hslow
  omega

/-- **Compound numbers stay apart**: two messages that are cut, of which a frame is in the receive
window and a frame is missing, have different compound identifiers. -/
theorem compound_inj (hpos : 0 < limit) (hk : log[k]? = some m) (hf : m.Fragmented limit)
    (hk' : log[k']? = some m') (hf' : m'.Fragmented limit) {i i' : ℕ}
    (hi : (before limit log k).reliable + i < mex A + 65536)
    (hi' : (before limit log k').reliable + i' < mex A + 65536)
    (hmissing : ¬ Complete limit log A k m) (hmissing' : ¬ Complete limit log A k' m')
    (he : (before limit log k).compound % 65536 = (before limit log k').compound % 65536) :
    k = k' := by
  have hlt : ∀ {k k' : ℕ} {m : Message} {i' : ℕ}, log[k]? = some m → m.Fragmented limit →
      (before limit log k').reliable + i' < mex A + 65536 → ¬ Complete limit log A k m →
      (before limit log k).compound % 65536 = (before limit log k').compound % 65536 →
      ¬ k < k' := by
    intro k k' m i' hk hf hi' hmissing he h
    obtain ⟨i₀, hi₀, -, hmex⟩ := exists_missing hmissing
    have hgrows := before_grows log hpos (Nat.succ_le_of_lt h)
    have hslow := hgrows.compound_slow
    have hle := hgrows.compound_le
    have hcompound := congrArg Counters.compound (before_succ limit hk)
    have hbase := congrArg Counters.reliable (before_succ limit hk)
    have hr : m.reliability.isReliable = true := by rw [hf.1]; rfl
    simp only [Counters.add, if_pos hf] at hcompound
    simp only [Counters.add, hr, if_true] at hbase
    rw [Nat.succ_eq_add_one, hcompound] at hle
    rw [Nat.succ_eq_add_one, hcompound, hbase] at hslow
    omega
  rcases lt_trichotomy k k' with h | h | h
  · exact absurd h (hlt hk hf hi' hmissing he)
  · exact h
  · exact absurd h (hlt hk' hf' hi hmissing' he.symm)

theorem complete_insert (hpos : 0 < limit) (hk : log[k]? = some m)
    (hr : m.reliability.isReliable = true) (hk' : log[k']? = some m')
    (hr' : m'.reliability.isReliable = true) {i : ℕ} (hi : i < m.count limit) (hne : k' ≠ k) :
    Complete limit log (insert ((before limit log k).reliable + i) A) k' m' ↔
      Complete limit log A k' m' := by
  refine forall_congr' fun j => forall_congr' fun hj => ?_
  rw [Finset.mem_insert]
  exact or_iff_right fun he => hne (position_inj hpos hk' hr' hk hr hj hi he).1

/-- The ranks that are complete with one more frame. -/
theorem done_insert (hpos : 0 < limit) (hk : log[k]? = some m)
    (hr : m.reliability.isReliable = true) {i : ℕ} (hi : i < m.count limit) (c : ℕ) :
    done limit log (insert ((before limit log k).reliable + i) A) c =
      if On c m ∧ Complete limit log (insert ((before limit log k).reliable + i) A) k m then
        insert ((before limit log k).ordered c) (done limit log A c)
      else done limit log A c := by
  have hmem : ∀ o, o ∈ done limit log (insert ((before limit log k).reliable + i) A) c ↔
      o ∈ done limit log A c ∨ (On c m ∧
        Complete limit log (insert ((before limit log k).reliable + i) A) k m ∧
        (before limit log k).ordered c = o) := by
    intro o
    simp only [mem_done]
    constructor
    · rintro ⟨k', m', hk', hm', hcomplete, he⟩
      by_cases hne : k' = k
      · subst hne
        obtain rfl := Option.some.inj (hk.symm.trans hk')
        exact .inr ⟨hm', hcomplete, he⟩
      · rw [complete_insert hpos hk hr hk' hm'.isReliable hi hne] at hcomplete
        exact .inl ⟨k', m', hk', hm', hcomplete, he⟩
    · rintro (⟨k', m', hk', hm', hcomplete, he⟩ | ⟨hm, hcomplete, he⟩)
      · exact ⟨k', m', hk', hm', fun j hj => Finset.mem_insert_of_mem (hcomplete j hj), he⟩
      · exact ⟨k, m, hk, hm, hcomplete, he⟩
  ext o
  rw [hmem]
  split_ifs with hc
  · rw [Finset.mem_insert]
    constructor
    · rintro (h | ⟨-, -, rfl⟩)
      · exact .inr h
      · exact .inl rfl
    · rintro (rfl | h)
      · exact .inr ⟨hc.1, hc.2, rfl⟩
      · exact .inl h
  · exact or_iff_left fun h => hc ⟨h.1, h.2.1⟩

end complete

/-! ### A longer log -/

section append

variable {limit : ℕ} {log : List Message} {A : Finset ℕ} {k : ℕ} {m m' : Message}

theorem getElem?_snoc : (log ++ [m])[k]? = some m' ↔
    log[k]? = some m' ∨ k = log.length ∧ m' = m := by
  rcases lt_trichotomy k log.length with h | rfl | h
  · rw [List.getElem?_append_left h]
    exact ⟨.inl, fun h' => h'.resolve_right fun h' => by omega⟩
  · simp [eq_comm]
  · rw [List.getElem?_eq_none (by simp; omega), List.getElem?_eq_none (by omega)]
    simp only [reduceCtorEq, false_or, false_iff, not_and]
    omega

theorem complete_append (m : Message) (hk : log[k]? = some m') :
    Complete limit (log ++ [m]) A k m' ↔ Complete limit log A k m' := by
  unfold Complete
  rw [before_append m (List.getElem?_eq_some_iff.mp hk).1.le]

theorem next_notMem (hbelow : ∀ p ∈ A, p < (counters limit log).reliable) (m : Message) (i : ℕ) :
    (before limit (log ++ [m]) log.length).reliable + i ∉ A := by
  intro hmem
  have := hbelow _ hmem
  rw [before_append m le_rfl, before_length] at this
  omega

theorem done_append (hpos : 0 < limit) (hbelow : ∀ p ∈ A, p < (counters limit log).reliable)
    (m : Message) (c : ℕ) : done limit (log ++ [m]) A c = done limit log A c := by
  ext o
  simp only [mem_done]
  constructor
  · rintro ⟨k, m', hk, hm', hcomplete, ho⟩
    rcases getElem?_snoc.mp hk with hk | ⟨rfl, rfl⟩
    · rw [before_append m (List.getElem?_eq_some_iff.mp hk).1.le] at ho
      exact ⟨k, m', hk, hm', (complete_append m hk).mp hcomplete, ho⟩
    · exact absurd (hcomplete 0 (count_pos _ hpos)) (next_notMem hbelow _ 0)
  · rintro ⟨k, m', hk, hm', hcomplete, ho⟩
    refine ⟨k, m', getElem?_snoc.mpr (.inl hk), hm', (complete_append m hk).mpr hcomplete, ?_⟩
    rw [before_append m (List.getElem?_eq_some_iff.mp hk).1.le, ho]

end append

end RustRaknet.Link
