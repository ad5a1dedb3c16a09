import RustRaknet.Link.Delivery

/-! # Why the receiver rejects a frame

The receiver rejects a frame of an honest sender for one of four reasons: its reliable index is
65,536 or more ahead of the first one missing, it is a fragment for which the reassembly has no room
or opens a group too many, or it completes an ordered message for which there is no room
(`Exceeds`). A duplicate is never rejected, nor is a frame whose ordered index is far ahead
while its reliable index is not: the ordered indexes of a channel advance more slowly. -/

namespace RustRaknet.Link

open RustRaknet.Send RustRaknet.Frame RustRaknet.Recv RustRaknet.Lib.Serial RustRaknet.Lib.Keyed
open RustRaknet.Sequence

/-! ### The ordered messages that wait -/

section stored

variable {limit : ℕ} {log : List Message} {A : Finset ℕ} {q : RecvQ}
  {released : List FrameSetPacket}

theorem stored_ahead (hpos : 0 < limit) (h : Buffered (IsMessage limit log) (done limit log A) q)
    {key : ℕ × ℕ} {f : FrameSetPacket} (hf : q.orderedPackets.lookup key = some f) :
    ∃ k m, log[k]? = some m ∧ On key.1 m ∧ key.2 = (before limit log k).ordered key.1 % 16777216 ∧
      (before limit log k).reliable ∈ A ∧ mex A < (before limit log k).reliable := by
  obtain ⟨o, ho, hle, hi, -⟩ := h.stored key.1 key.2 f hf
  obtain ⟨k, m, hk, hm, hcomplete, rfl⟩ := mem_done.mp ho
  have hne : mex (done limit log A key.1) ≠ (before limit log k).ordered key.1 := fun he =>
    mex_notMem _ (he ▸ ho)
  obtain ⟨k₀, hlt, m₀, hk₀, hm₀, hrank⟩ := exists_rank
    (show mex (done limit log A key.1) < (before limit log k).ordered key.1 by omega)
  have hmissing : ¬ Complete limit log A k₀ m₀ := fun hc =>
    mex_notMem (done limit log A key.1) (hrank ▸ (rank_mem_done hpos hk₀ hm₀).mpr hc)
  obtain ⟨i₀, hi₀, -, hmex⟩ := exists_missing hmissing
  have hstretch := stretch hpos hk₀ hm₀.isReliable hlt
  have hfirst := hcomplete 0 (count_pos m hpos)
  exact ⟨k, m, hk, hm, hi, hfirst, by omega⟩

/-- Fewer than 65,536 messages are stored. -/
theorem Receives.stored_lt (hpos : 0 < limit) (h : Receives limit log A q released) :
    size q.orderedPackets < 65536 := by
  have hex : ∀ key ∈ q.orderedPackets.keys, ∃ p, p ∈ A ∧ mex A < p ∧ ∃ k m, log[k]? = some m ∧
      On key.1 m ∧ key.2 = (before limit log k).ordered key.1 % 16777216 ∧
      (before limit log k).reliable = p := by
    intro key hkey
    obtain ⟨f, hf⟩ := Option.isSome_iff_exists.mp (AList.lookup_isSome.mpr hkey)
    obtain ⟨k, m, hk, hm, hi, hmem, hlt⟩ := stored_ahead hpos h.holds.ordered hf
    exact ⟨_, hmem, hlt, k, m, hk, hm, hi, rfl⟩
  choose! p hmem hlt hmessage using hex
  have hcard : q.orderedPackets.keys.toFinset.card ≤ (Finset.Ioo (mex A) (mex A + 65536)).card := by
    refine Finset.card_le_card_of_injOn p (fun key hkey => ?_) fun key hkey key' hkey' he => ?_
    · have hkey := List.mem_toFinset.mp hkey
      exact Finset.mem_coe.mpr (Finset.mem_Ioo.mpr ⟨hlt key hkey, h.window.near _ (hmem key hkey)⟩)
    · obtain ⟨k, m, hk, hm, hi, hp⟩ := hmessage key (List.mem_toFinset.mp hkey)
      obtain ⟨k', m', hk', hm', hi', hp'⟩ := hmessage key' (List.mem_toFinset.mp hkey')
      have hsame := position_inj hpos hk hm.isReliable hk' hm'.isReliable (count_pos m hpos)
        (count_pos m' hpos) (by omega)
      obtain rfl : k = k' := hsame.1
      obtain rfl : m = m' := Option.some.inj (hk.symm.trans hk')
      have hchannel : key.1 = key'.1 := hm.2.symm.trans hm'.2
      exact Prod.ext hchannel (by rw [hi, hi', hchannel])
  rw [List.toFinset_card_of_nodup q.orderedPackets.keys_nodup, Nat.card_Ioo] at hcard
  have hsize : size q.orderedPackets = q.orderedPackets.keys.length := by
    simp [size, AList.keys, List.keys]
  omega

end stored

/-! ### The limits -/

/-- A limit of the receiver that a frame of the log exceeds. -/
inductive Exceeds (l : Peers) (limit : ℕ) (frame : FrameSetPacket) (f : QueuedFrame) : Prop
  | window (hr : f.isReliable = true)
      (h : mex (l.taken limit) + 65536 ≤ f.position limit l.log)
  | volume (hr : f.isReliable = true) (hnew : f.position limit l.log ∉ l.taken limit)
      (hfragment : frame.isFragment = true)
      (h : 67108864 < l.receiver.fragmentQueue.bytes + (frame.data.len + 128))
  | groups (hr : f.isReliable = true) (hnew : f.position limit l.log ∉ l.taken limit)
      (hfragment : frame.isFragment = true)
      (hgroup : l.receiver.fragmentQueue.fragments.lookup frame.compoundId = none)
      (h : 1024 ≤ size l.receiver.fragmentQueue.fragments)
  | ordered (hr : f.isReliable = true) (hnew : f.position limit l.log ∉ l.taken limit)
      (m : Message) (hm : l.log[f.message]? = some m) (hmode : m.reliability = .reliableOrdered)
      (hcomplete : Complete limit l.log (insert (f.position limit l.log) (l.taken limit)) f.message m)
      (h : 67108864 < l.receiver.orderedBytes + m.payload.length)

section limits

variable {B : Build} {mtu : Fin 65536} {l : Peers} {frame : FrameSetPacket} {f : QueuedFrame}

theorem admits_iff {limit : ℕ} {log : List Message} {k i : ℕ} {m : Message}
    (hadm : Admissible limit m) (hcarries : Carries limit log k m i frame)
    (hf : m.Fragmented limit) (q : RecvQ) :
    q.fragmentQueue.Admits frame ↔
      q.fragmentQueue.bytes + (frame.data.len + 128) ≤ 67108864 ∧
        (q.fragmentQueue.fragments.lookup frame.compoundId = none →
          size q.fragmentQueue.fragments < 1024) := by
  have hpiece := hcarries.piece hf
  have hcount := hadm.count_le
  have hlt := hcarries.lt
  have hsize : frame.compoundSize = m.count limit := hpiece.size
  refine ⟨fun h => ⟨h.bytes_le, h.size_lt⟩, fun h => ⟨by omega, ?_, h.1, h.2⟩⟩
  show frame.compoundSize ≤ 65536
  omega

/-- **The receiver takes a frame of the log unless it exceeds a limit.** -/
theorem Linked.accepts_iff (h : Linked B mtu l) (hok : l.failed = false)
    (hx : Boxed ((mtu : ℕ) - 60) l.log (frame, f)) :
    l.Accepts ((mtu : ℕ) - 60) frame f ↔ ¬ Exceeds l ((mtu : ℕ) - 60) frame f := by
  have hreceives := h.receives hok
  obtain ⟨m, hk, hadm, hcarries, hr⟩ := hx.carries h.admissible
  have hposition : f.position ((mtu : ℕ) - 60) l.log =
      (before ((mtu : ℕ) - 60) l.log f.message).reliable + f.frame.fragmentIndex := rfl
  have hstored := hreceives.stored_lt hadm.pos
  constructor
  · intro ha hexceeds
    have htakes : ∀ hrel : f.isReliable = true,
        f.position ((mtu : ℕ) - 60) l.log ∉ l.taken ((mtu : ℕ) - 60) →
        Takes ((mtu : ℕ) - 60) l.log (l.taken ((mtu : ℕ) - 60)) l.receiver f.message m
          f.frame.fragmentIndex frame := fun hrel hnew => (ha hrel).resolve_left hnew m hk
    cases hexceeds with
    | window hrel hfar =>
      have hnew : f.position ((mtu : ℕ) - 60) l.log ∉ l.taken ((mtu : ℕ) - 60) := fun hmem => by
        have := hreceives.window.near _ hmem
        omega
      have := (htakes hrel hnew).near
      omega
    | volume hrel hnew hfragment hv =>
      have hf := hcarries.isFragment.mp hfragment
      have := ((admits_iff hadm hcarries hf _).mp ((htakes hrel hnew).fragment hf)).1
      omega
    | groups hrel hnew hfragment hgroup hg =>
      have hf := hcarries.isFragment.mp hfragment
      have := ((admits_iff hadm hcarries hf _).mp ((htakes hrel hnew).fragment hf)).2 hgroup
      omega
    | ordered hrel hnew m' hm' hmode hcomplete hb =>
      obtain rfl : m = m' := Option.some.inj (hk.symm.trans hm')
      have hroom : l.receiver.orderedBytes + l.receiver.readyBytes + m.payload.length ≤ 67108864 :=
        ((htakes hrel hnew).room hmode hcomplete).bytes
      omega
  · intro hno hrel
    by_cases hmem : f.position ((mtu : ℕ) - 60) l.log ∈ l.taken ((mtu : ℕ) - 60)
    · exact .inl hmem
    refine .inr fun m' hm' => ?_
    obtain rfl : m = m' := Option.some.inj (hk.symm.trans hm')
    refine ⟨?_, fun hf => (admits_iff hadm hcarries hf _).mpr ⟨?_, fun hgroup => ?_⟩,
      fun hmode hcomplete => ⟨?_, ?_⟩⟩
    · by_contra hfar
      exact hno (.window hrel (by omega))
    · by_contra hv
      exact hno (.volume hrel hmem (hcarries.isFragment.mpr hf) (by omega))
    · by_contra hg
      exact hno (.groups hrel hmem (hcarries.isFragment.mpr hf) hgroup (by omega))
    · rw [hreceives.ready]
      exact hstored
    · have hready : l.receiver.readyBytes = 0 := by
        rw [hreceives.limits.ordered.counted.readyBytes_eq, hreceives.ready]
        rfl
      by_contra hb
      refine hno (.ordered hrel hmem m hk hmode hcomplete ?_)
      rw [hready] at hb
      exact not_le.mp hb

/-- **One action** fails when the frame it inserts exceeds a limit. -/
theorem Linked.step_failed (h : Linked B mtu l) (a : Action)
    (htimely : a = .receive → l.Timely ((mtu : ℕ) - 60)) :
    (l.step B a).failed = true ↔ l.failed = true ∨ a = .receive ∧ l.failed = false ∧
      ∃ x, l.inbox.head? = some x ∧ Exceeds l ((mtu : ℕ) - 60) x.1 x.2 := by
  have hsend : ∀ op, (l.send B op).failed = l.failed := fun op => by
    unfold Peers.send
    split <;> rfl
  have hother : (l.step B a).failed = l.failed → a ≠ .receive → ((l.step B a).failed = true ↔
      l.failed = true ∨ a = .receive ∧ l.failed = false ∧
        ∃ x, l.inbox.head? = some x ∧ Exceeds l ((mtu : ℕ) - 60) x.1 x.2) := by
    intro he hne
    rw [he]
    exact ⟨.inl, fun h => h.resolve_right fun h => hne h.1⟩
  cases a with
  | send op => exact hother (hsend op) (by simp)
  | arrive i =>
    refine hother ?_ (by simp)
    simp only [Peers.step]
    split
    · unfold Peers.arrive
      split <;> rfl
    · rfl
  | receive =>
    simp only [Peers.step, true_and]
    split
    · next hinbox => simp [hinbox]
    · next frame f inbox hinbox =>
      have hpop : Linked B mtu { l with inbox } :=
        { h with inbox := fun x hx => h.inbox x (hinbox ▸ List.mem_cons_of_mem _ hx) }
      have hx := h.inbox (frame, f) (hinbox ▸ List.mem_cons_self)
      split_ifs with hfailed
      · exact ⟨fun _ => .inl hfailed, fun _ => hfailed⟩
      · have hok : l.failed = false := by simpa using hfailed
        have hanswer := (hpop.insert hx hok (htimely rfl (frame, f) (by simp [hinbox]))).2
        have haccepts : Peers.Accepts { l with inbox } ((mtu : ℕ) - 60) frame f ↔
            ¬ Exceeds l ((mtu : ℕ) - 60) frame f := h.accepts_iff hok hx
        rw [haccepts] at hanswer
        rw [← Bool.not_eq_false, hanswer, not_not]
        simp [hok, hinbox]
  | takeAck | takeNack => exact hother rfl (by simp)
  | feedback i tick =>
    refine hother ?_ (by simp)
    simp only [Peers.step]
    split
    · exact hsend _
    · rfl

end limits

/-- **The receiver of an honest peer fails exactly when a frame exceeds one of its limits.** -/
theorem failed_iff_exceeds (B : Build) (mtu : Fin 65536) (actions : List Action)
    (htimely : TimelyRun B mtu actions) :
    (runPeers B mtu actions).failed = true ↔ ∃ before after x,
      actions = before ++ .receive :: after ∧ (runPeers B mtu before).failed = false ∧
      (runPeers B mtu before).inbox.head? = some x ∧
      Exceeds (runPeers B mtu before) ((mtu : ℕ) - 60) x.1 x.2 := by
  induction actions using List.reverseRecOn with
  | nil =>
    refine ⟨fun h => Bool.noConfusion h, ?_⟩
    rintro ⟨before, after, x, he, -⟩
    simp at he
  | append_singleton actions a ih =>
    obtain ⟨hinit, hlast⟩ := htimely.init
    rw [runPeers_append, (linked_run B mtu actions hinit).step_failed a hlast, ih hinit]
    constructor
    · rintro (⟨before, after, x, rfl, h⟩ | ⟨rfl, hok, x, hx, h⟩)
      · exact ⟨before, after ++ [a], x, by simp, h⟩
      · exact ⟨actions, [], x, rfl, hok, hx, h⟩
    · rintro ⟨before, after, x, he, hok, hx, h⟩
      rcases Lib.Machine.snoc_eq_split.mp he with ⟨rfl, ha, -⟩ | ⟨after, -, he⟩
      · exact .inr ⟨ha.symm, hok, x, hx, h⟩
      · exact .inl ⟨before, after, x, he, hok, hx, h⟩

/-- No frame of the shuffled messages exceeds a limit. -/
theorem failed_iff_exceeds_shuffled :
    ¬ ∃ before after x, shuffled = before ++ .receive :: after ∧
      (runPeers (.insertion false false) 1400 before).failed = false ∧
      (runPeers (.insertion false false) 1400 before).inbox.head? = some x ∧
      Exceeds (runPeers (.insertion false false) 1400 before) 1340 x.1 x.2 := by
  have hiff := failed_iff_exceeds (.insertion false false) 1400 shuffled
    (timely_of_few _ _ _ (by decide +kernel))
  have hok : (runPeers (.insertion false false) 1400 shuffled).failed = false := by decide +kernel
  exact fun h => Bool.false_ne_true (hok.symm.trans (hiff.mpr h))

end RustRaknet.Link
