import RustRaknet.Link.Honest
import RustRaknet.Recv.Unordered

/-! # Reliable and sequenced messages

A `Reliable` message is delivered when a transmission of it first arrives, and never again. A
sequenced message, of either mode, is delivered at most once, and on every channel those delivered
come in the order in which they were sent (`delivered_once`). The receiver decides by the reliable
window, and for sequenced frames by one index for each channel; both are serial numbers, so a frame
must not be half a turn behind (`CurrentRun`, `Peers.CurrentSequenced`). -/

namespace RustRaknet.Link

open RustRaknet.Send RustRaknet.Frame RustRaknet.Recv RustRaknet.Sequence RustRaknet.Lib.Serial
open RustRaknet.Indexes (ChannelIndexes)

/-! ### The ranks of sequenced messages -/

/-- The message is sequenced, on the channel `c`. -/
def SequencedOn (c : ℕ) (m : Message) : Prop := m.reliability.isSequenced = true ∧ m.channel = c

instance (c : ℕ) (m : Message) : Decidable (SequencedOn c m) := by
  unfold SequencedOn; infer_instance

/-- The rank of the message `k` among the sequenced messages of the channel `c`. -/
abbrev sequencedRank (limit : ℕ) (log : List Message) (c k : ℕ) : ℕ :=
  (before limit log k).sequenced c

section ranks

variable {limit : ℕ} {log : List Message} {c k k' : ℕ} {m : Message}

theorem add_sequenced (limit : ℕ) (a : Counters) (m : Message) (c : ℕ) :
    (a.add limit m).sequenced c = a.sequenced c + if SequencedOn c m then 1 else 0 := by
  unfold Counters.add SequencedOn
  by_cases hm : m.reliability.isSequenced = true
  · by_cases hc : m.channel = c
    · subst hc
      simp [hm]
    · simp [hm, hc, Function.update_of_ne (Ne.symm hc)]
  · simp [hm]

theorem sequencedRank_le (limit : ℕ) (log : List Message) (c : ℕ) (h : k ≤ k') :
    sequencedRank limit log c k ≤ sequencedRank limit log c k' := by
  induction k', h using Nat.le_induction with
  | base => exact le_rfl
  | succ k' _ ih =>
    refine ih.trans ?_
    unfold sequencedRank
    rcases hk : log[k']? with _ | m
    · rw [before_end hk]
    · rw [before_succ limit hk, add_sequenced]
      exact Nat.le_add_right _ _

theorem lt_of_sequencedRank (h : sequencedRank limit log c k < sequencedRank limit log c k') :
    k < k' := by
  by_contra hle
  have := sequencedRank_le limit log c (not_lt.mp hle)
  omega

theorem sequencedRank_extend (more : List Message) (h : k ≤ log.length) :
    sequencedRank limit (log ++ more) c k = sequencedRank limit log c k := by
  unfold sequencedRank before
  rw [List.take_append_of_le_length h]

end ranks

/-- What a sequenced frame of the inbox carries besides its body. -/
theorem Boxed.sequenced {limit : ℕ} {log : List Message} {frame : FrameSetPacket} {f : QueuedFrame}
    {m : Message} (h : Boxed limit log (frame, f)) (hk : log[f.message]? = some m)
    (hm : m.reliability.isSequenced = true) :
    frame.orderChannel = m.channel ∧ frame.sequencedFrameIndex =
      sequencedRank limit log m.channel f.message % 16777216 := by
  obtain ⟨k, m', hk', hmem⟩ := mem_accepted h.frame
  have hmessage : f.body.message = k := frames_message limit hmem
  obtain rfl : f.message = k := hmessage
  obtain rfl := Option.some.inj (hk'.symm.trans hk)
  have hsingle : ¬ m'.Fragmented limit := fun hf => by
    rw [hf.1] at hm
    cases hm
  have hordered : m'.reliability.isOrdered = true := by
    cases hr : m'.reliability <;> rw [hr] at hm <;> first | rfl | cases hm
  unfold Message.frames at hmem
  rw [if_neg hsingle, List.mem_singleton] at hmem
  have hchannel := congrArg (fun g : QueuedFrame => g.frame.orderChannel) hmem
  have hindex := congrArg (fun g : QueuedFrame => g.frame.sequencedFrameIndex) hmem
  simp only [Message.single, hm, hordered, if_true] at hchannel hindex
  rw [show frame = Codec.asDecoded f.frame from h.decoded]
  exact ⟨hchannel, hindex⟩

/-! ### What is delivered -/

/-- The frame has the mode `r`. -/
def hasMode (r : Reliability) (f : FrameSetPacket) : Bool := decide (f.reliability = .ok r)

/-- The frame is sequenced, on the channel `c`. -/
def isSequencedOn (c : ℕ) (f : FrameSetPacket) : Bool :=
  match f.reliability with
  | .ok r => r.isSequenced && f.orderChannel == c
  | .error _ => false

/-- The numbers of the `Reliable` messages in the order in which they first arrived. -/
def Peers.firstArrivals (l : Peers) : List ℕ :=
  (l.arrived.map QueuedFrame.message).eraseDups.filter fun k =>
    (l.log[k]?).any fun m => decide (m.reliability = .reliable)

/-- The payload of the message `k`. -/
def payloadOf (log : List Message) (k : ℕ) : Bytes := ((log[k]?).map Message.payload).getD []

/-- The frame delivers the sequenced message `k` of the channel `c`. -/
def Delivers (log : List Message) (c k : ℕ) (f : FrameSetPacket) : Prop :=
  ∃ m, log[k]? = some m ∧ SequencedOn c m ∧ f.reliability = .ok m.reliability ∧
    f.data.deref = m.payload

/-- The rank after the last of the messages `ks`. -/
def nextRank (limit : ℕ) (log : List Message) (c : ℕ) (ks : List ℕ) : ℕ :=
  ks.getLast?.elim 0 fun k => sequencedRank limit log c k + 1

/-- The sequenced messages delivered on the channel `c` are `ks`, in the order of the log. -/
structure InSequence (limit : ℕ) (l : Peers) (c : ℕ) (ks : List ℕ) : Prop where
  increasing : ks.Pairwise (· < ·)
  delivered : List.Forall₂ (Delivers l.log c) ks (l.released.filter (isSequencedOn c))
  arrived : ∀ k ∈ ks, ∃ f ∈ l.arrived, f.message = k
  expected : l.receiver.sequencedFrameIndexes.get c = nextRank limit l.log c ks % 16777216

/-- What has been delivered of the messages that are not ordered. -/
structure Once (limit : ℕ) (l : Peers) : Prop where
  reliable : ((l.released.filter (hasMode .reliable)).map fun f => f.data.deref) =
    l.firstArrivals.map (payloadOf l.log)
  sequenced : ∀ c, ∃ ks, InSequence limit l c ks

/-- The next frame of the inbox, if it is sequenced, is less than 2^23 indexes behind every sequenced
frame that has arrived on its channel. -/
def Peers.CurrentSequenced (l : Peers) (limit : ℕ) : Prop :=
  ∀ x ∈ l.inbox.head?, ∀ m, l.log[x.2.message]? = some m → m.reliability.isSequenced = true →
    ∀ f ∈ l.arrived, ∀ m', l.log[f.message]? = some m' → SequencedOn m.channel m' →
      sequencedRank limit l.log m.channel f.message <
        sequencedRank limit l.log m.channel x.2.message + 8388608

theorem once_new (limit : ℕ) (mtu : Fin 65536) : Once limit (Peers.new mtu) where
  reliable := rfl
  sequenced c := ⟨[], .nil, .nil, fun k hk => (List.not_mem_nil hk).elim, by
    simp [Peers.new, RecvQ.new, nextRank]⟩

/-! ### Longer logs -/

section extend

variable {limit : ℕ} {l l' : Peers} {more : List Message}

theorem Delivers.extend {log : List Message} {c k : ℕ} {f : FrameSetPacket}
    (h : Delivers log c k f) (more : List Message) : Delivers (log ++ more) c k f := by
  obtain ⟨m, hk, rest⟩ := h
  refine ⟨m, ?_, rest⟩
  rw [List.getElem?_append_left (List.getElem?_eq_some_iff.mp hk).1, hk]

/-- Nothing changes for the receiver when the log grows. -/
theorem Once.extend (h : Once limit l) (hlog : l'.log = l.log ++ more)
    (harrived : l'.arrived = l.arrived) (hreleased : l'.released = l.released)
    (hreceiver : l'.receiver.sequencedFrameIndexes = l.receiver.sequencedFrameIndexes)
    (hlt : ∀ f ∈ l.arrived, f.message < l.log.length) : Once limit l' := by
  have hget : ∀ f ∈ l.arrived, l'.log[f.message]? = l.log[f.message]? := fun f hf => by
    rw [hlog, List.getElem?_append_left (hlt f hf)]
  have hmem : ∀ k ∈ (l.arrived.map QueuedFrame.message).eraseDups, l'.log[k]? = l.log[k]? := by
    intro k hk
    obtain ⟨f, hf, rfl⟩ := List.mem_map.mp (List.mem_eraseDups.mp hk)
    exact hget f hf
  refine ⟨?_, fun c => ?_⟩
  · have hfirst : l'.firstArrivals = l.firstArrivals := by
      unfold Peers.firstArrivals
      rw [harrived]
      exact List.filter_congr fun k hk => by rw [hmem k hk]
    rw [hreleased, h.reliable, hfirst]
    refine List.map_congr_left fun k hk => ?_
    unfold payloadOf
    rw [hmem k (List.mem_of_mem_filter hk)]
  · obtain ⟨ks, hincreasing, hdelivered, hks, hexpected⟩ := h.sequenced c
    refine ⟨ks, hincreasing, ?_, by rwa [harrived], ?_⟩
    · rw [hreleased, hlog]
      exact hdelivered.imp fun k f hf => hf.extend more
    · rw [hreceiver, hexpected, hlog]
      unfold nextRank
      rcases hlast : ks.getLast? with _ | k
      · rfl
      · obtain ⟨f, hf, rfl⟩ := hks k (List.mem_of_getLast? hlast)
        simp only [Option.elim_some]
        rw [sequencedRank_extend more (hlt f hf).le]

end extend

/-! ### One frame -/

/-- A serial number at most half a turn behind another that is taken for the same or a newer one is
not behind. -/
theorem le_of_newest {s next : ℕ} (h : next ≤ s + 8388608)
    (hnew : s % 16777216 = next % 16777216 ∨
      newer (s % 16777216) (next % 16777216) = true) : next ≤ s := by
  by_contra hlt
  have hdistance := distance_mod_of_lt (not_le.mp hlt) (by omega)
  rcases hnew with he | hnew
  · rw [he, distance_self] at hdistance
    omega
  · have := ((newer_iff _ _).mp hnew).2
    omega

section receive

variable {B : Build} {mtu : Fin 65536} {l : Peers} {frame : FrameSetPacket} {f : QueuedFrame}
  {m : Message} {i : ℕ} {q' : RecvQ}

/-- The frame is one of a message that has arrived before. -/
def Peers.Seen (l : Peers) (f : QueuedFrame) : Prop := ∃ g ∈ l.arrived, g.message = f.message

theorem firstArrivals_snoc (l' : Peers) (hlog : l'.log = l.log)
    (harrived : l'.arrived = l.arrived ++ [f]) (hk : l.log[f.message]? = some m) :
    (m.reliability = .reliable → ¬ l.Seen f → l'.firstArrivals = l.firstArrivals ++ [f.message]) ∧
      (¬ (m.reliability = .reliable ∧ ¬ l.Seen f) → l'.firstArrivals = l.firstArrivals) := by
  have hmem : l.Seen f ↔ f.message ∈ l.arrived.map QueuedFrame.message := by
    simp [Peers.Seen, List.mem_map]
  unfold Peers.firstArrivals
  rw [hlog, harrived, List.map_append, List.map_singleton, List.eraseDups_append, List.filter_append]
  by_cases hseen : l.Seen f
  · have hnone : [f.message].removeAll (l.arrived.map QueuedFrame.message) = [] := by
      simp only [List.removeAll, List.filter_cons, List.filter_nil]
      simp [hmem.mp hseen]
    rw [hnone]
    exact ⟨fun _ hno => absurd hseen hno, fun _ => by simp⟩
  · have hone : ([f.message].removeAll (l.arrived.map QueuedFrame.message)).eraseDups =
        [f.message] := by
      have hnot := mt hmem.mpr hseen
      have : [f.message].removeAll (l.arrived.map QueuedFrame.message) = [f.message] := by
        simp only [List.removeAll, List.filter_cons, List.filter_nil]
        simp [hnot]
      rw [this]
      rfl
    rw [hone]
    refine ⟨fun hr _ => by simp [hk, hr], fun hno => ?_⟩
    have hr : m.reliability ≠ .reliable := fun hr => hno ⟨hr, hseen⟩
    simp [hk, hr]

/-- A `Reliable` frame passes the window exactly when its message has not arrived before. -/
theorem Linked.passes_iff (h : Linked B mtu l) (hok : l.failed = false)
    (hx : Boxed ((mtu : ℕ) - 60) l.log (frame, f)) (hk : l.log[f.message]? = some m)
    (hr : m.reliability = .reliable)
    (htimely : mex (l.taken ((mtu : ℕ) - 60)) ≤ f.position ((mtu : ℕ) - 60) l.log + 8388608 ∧
      f.position ((mtu : ℕ) - 60) l.log < mex (l.taken ((mtu : ℕ) - 60)) + 8388608)
    (hinsert : l.receiver.insert frame = (.ok (), q')) :
    Passes l.receiver .reliable frame ↔ ¬ l.Seen f := by
  have hwindow := (h.receives hok).window
  obtain ⟨m', hk', -, hcarries, -⟩ := hx.carries h.admissible
  obtain rfl := Option.some.inj (hk'.symm.trans hk)
  have hrel : m'.reliability.isReliable = true := by rw [hr]; rfl
  have hcount : m'.count ((mtu : ℕ) - 60) = 1 := count_single fun hf => by simp [hf.1] at hr
  -- a message of this mode is one frame, so it has arrived when its position is taken
  have hseen : f.position ((mtu : ℕ) - 60) l.log ∈ l.taken ((mtu : ℕ) - 60) ↔ l.Seen f := by
    have hmem := h.mem_taken hk hrel hcarries.lt
    refine hmem.trans ⟨fun ⟨g, hg, he, _⟩ => ⟨g, hg, he⟩, fun ⟨g, hg, he⟩ => ⟨g, hg, he, ?_⟩⟩
    obtain ⟨m, hg', -, hc, -⟩ := (boxed_asDecoded (h.arrived g hg)).carries h.admissible
    rw [he, hk] at hg'
    obtain rfl := Option.some.inj hg'
    have hlt := hc.lt
    have hlt' := hcarries.lt
    omega
  have hindex : frame.reliableFrameIndex = f.position ((mtu : ℕ) - 60) l.log % 16777216 :=
    hcarries.index hrel
  rw [← hseen]
  constructor
  · intro hpass hmem
    obtain ⟨w, hw⟩ := hpass.window rfl
    rw [hindex, accept_seen hwindow htimely.1 hmem] at hw
    cases hw
  · intro hmem
    refine ⟨fun _ => ?_, fun hs => by cases hs⟩
    rw [hindex]
    by_cases hnear : f.position ((mtu : ℕ) - 60) l.log < mex (l.taken ((mtu : ℕ) - 60)) + 65536
    · obtain ⟨w, hw, -⟩ := accept_new hwindow hmem hnear
      exact ⟨w, hw⟩
    · have hfar := accept_far hwindow htimely.2 (not_lt.mp hnear)
      rw [insert_eq hcarries.mode, if_pos hrel, hindex, hfar] at hinsert
      cases congrArg Prod.fst hinsert

/-- What the flush after a frame releases besides ordered messages: nothing, or the frame. -/
inductive Peers.Releases (l : Peers) (f : QueuedFrame) (m : Message) (frame : FrameSetPacket)
    (q' : RecvQ) : Prop
  | nothing (packets : q'.sortedPackets = [])
      (indexes : q'.sequencedFrameIndexes = l.receiver.sequencedFrameIndexes)
      (seen : m.reliability = .reliable → l.Seen f)
  | frame (packets : q'.sortedPackets = [frame])
      (indexes : q'.sequencedFrameIndexes = passed l.receiver m.reliability frame)
      (newest : Newest l.receiver m.reliability frame)
      (unseen : m.reliability = .reliable → ¬ l.Seen f)

theorem Linked.releases (h : Linked B mtu l) (hok : l.failed = false)
    (hx : Boxed ((mtu : ℕ) - 60) l.log (frame, f)) (hk : l.log[f.message]? = some m)
    (htimely : l.InReach ((mtu : ℕ) - 60) f)
    (hinsert : l.receiver.insert frame = (.ok (), q')) : l.Releases f m frame q' := by
  obtain ⟨m', hk', -, hcarries, hrel⟩ := hx.carries h.admissible
  obtain rfl := Option.some.inj (hk'.symm.trans hk)
  have hpackets := (h.receives hok).packets
  by_cases hm : m'.reliability = .reliableOrdered
  · obtain ⟨hpackets', hindexes⟩ := insert_ordered (q := l.receiver) (hcarries.mode.trans (by rw [hm]))
    rw [hinsert] at hpackets' hindexes
    exact .nothing (sortedPackets_empty (hpackets'.trans hpackets)) hindexes fun hr => by
      simp [hm] at hr
  · obtain ⟨-, hpass, hdrop⟩ := insert_passes hpackets hcarries.mode hm hinsert
    have hiff : m'.reliability = .reliable →
        (Passes l.receiver m'.reliability frame ↔ ¬ l.Seen f) := fun hr => by
      rw [hr]
      exact h.passes_iff hok hx hk hr (htimely (by rw [hrel, hr]; rfl)) hinsert
    by_cases hp : Passes l.receiver m'.reliability frame
    · obtain ⟨hsorted, hindexes⟩ := hpass hp
      exact .frame hsorted hindexes hp.newest fun hr => (hiff hr).mp hp
    · obtain ⟨hsorted, hindexes⟩ := hdrop hp
      exact .nothing hsorted hindexes fun hr => by
        by_contra hseen
        exact hp ((hiff hr).mpr hseen)

theorem InSequence.keep {limit c : ℕ} {ks : List ℕ} (h : InSequence limit l c ks) {l' : Peers}
    (hlog : l'.log = l.log) (harrived : l'.arrived = l.arrived ++ [f])
    (hreleased : l'.released.filter (isSequencedOn c) = l.released.filter (isSequencedOn c))
    (hindex : l'.receiver.sequencedFrameIndexes.get c = l.receiver.sequencedFrameIndexes.get c) :
    InSequence limit l' c ks where
  increasing := h.increasing
  delivered := by
    rw [hreleased, hlog]
    exact h.delivered
  arrived k hk := by
    obtain ⟨g, hg, he⟩ := h.arrived k hk
    exact ⟨g, harrived ▸ List.mem_append_left _ hg, he⟩
  expected := by
    rw [hindex, hlog]
    exact h.expected

theorem InSequence.push {limit c : ℕ} {ks : List ℕ} (h : InSequence limit l c ks) {l' : Peers}
    (hlog : l'.log = l.log) (harrived : l'.arrived = l.arrived ++ [f])
    (hreleased : l'.released.filter (isSequencedOn c) =
      l.released.filter (isSequencedOn c) ++ [frame])
    (hindex : l'.receiver.sequencedFrameIndexes.get c =
      (sequencedRank limit l.log c f.message + 1) % 16777216)
    (hdelivers : Delivers l.log c f.message frame)
    (hrank : nextRank limit l.log c ks ≤ sequencedRank limit l.log c f.message) :
    InSequence limit l' c (ks ++ [f.message]) where
  increasing := by
    refine Lib.pairwise_snoc_of_last lt_trans h.increasing fun j hj => ?_
    have hlast : nextRank limit l.log c ks = sequencedRank limit l.log c j + 1 := by
      unfold nextRank
      rw [hj]
      rfl
    have hlt : sequencedRank limit l.log c j < sequencedRank limit l.log c f.message := by omega
    exact lt_of_sequencedRank hlt
  delivered := by
    rw [hreleased, hlog]
    exact List.rel_append h.delivered (.cons hdelivers .nil)
  arrived k hk := by
    rw [harrived]
    rcases List.mem_append.mp hk with hk | hk
    · obtain ⟨g, hg, he⟩ := h.arrived k hk
      exact ⟨g, List.mem_append_left _ hg, he⟩
    · exact ⟨f, by simp, (List.mem_singleton.mp hk).symm⟩
  expected := by
    rw [hindex, hlog]
    unfold nextRank
    simp

theorem handed_ordered {limit c : ℕ} {log : List Message} : ∀ {fs : List FrameSetPacket} {n : ℕ},
    Handed (IsMessage limit log c) n fs → ∀ g ∈ fs, g.reliability = .ok .reliableOrdered
  | [], _, _, g, hg => (List.not_mem_nil hg).elim
  | _ :: _, _, ⟨hf, hfs⟩, g, hg => by
    rcases List.mem_cons.mp hg with rfl | hg
    · exact hf.mode
    · exact handed_ordered hfs g hg

theorem Inserted.filter_released {limit : ℕ} {log : List Message} {A A' : Finset ℕ} {q : RecvQ}
    (h : Inserted limit log A A' q q') (hready : q.readyOrdered = []) (released : List FrameSetPacket)
    {p : FrameSetPacket → Bool} (hp : ∀ g, g.reliability = .ok .reliableOrdered → p g = false) :
    (released ++ q'.flushInto.1).filter p = released.filter p ++ q'.sortedPackets.filter p := by
  obtain ⟨c, fs, hfs, hhands⟩ := h.hands
  rw [hready, List.nil_append] at hfs
  have hnone : fs.filter p = [] := by
    refine List.filter_eq_nil_iff.mpr fun g hg => ?_
    simp [hp g (handed_ordered hhands.handed g hg)]
  simp only [RecvQ.flushInto, hfs, List.filter_append, hnone, List.nil_append]

theorem Boxed.delivers {limit c : ℕ} {log : List Message} {q : RecvQ}
    (h : Boxed limit log (frame, f)) (hcarries : Carries limit log f.message m i frame)
    (hk : log[f.message]? = some m) (hm : SequencedOn c m) :
    isSequencedOn c frame = true ∧ Delivers log c f.message frame ∧
      (passed q m.reliability frame).get c = (sequencedRank limit log c f.message + 1) % 16777216 ∧
      (Newest q m.reliability frame →
        sequencedRank limit log c f.message % 16777216 = q.sequencedFrameIndexes.get c ∨
          newer (sequencedRank limit log c f.message % 16777216)
            (q.sequencedFrameIndexes.get c) = true) := by
  obtain ⟨hs, rfl⟩ := hm
  obtain ⟨hchannel, hindex⟩ := h.sequenced hk hs
  have hsingle : ¬ m.Fragmented limit := fun hf => by
    rw [hf.1] at hs
    cases hs
  refine ⟨?_, ⟨m, hk, ⟨hs, rfl⟩, hcarries.mode, hcarries.whole hsingle⟩, ?_, fun hnew => ?_⟩
  · simp [isSequencedOn, hcarries.mode, hs, hchannel]
  · unfold passed
    rw [if_pos hs, hchannel, hindex, ChannelIndexes.get_set, if_pos rfl, next_mod]
  · have := hnew hs
    rwa [hchannel, hindex] at this

theorem Boxed.misses {limit c : ℕ} {log : List Message} (q : RecvQ)
    (h : Boxed limit log (frame, f)) (hcarries : Carries limit log f.message m i frame)
    (hk : log[f.message]? = some m) (hm : ¬ SequencedOn c m) :
    isSequencedOn c frame = false ∧
      (passed q m.reliability frame).get c = q.sequencedFrameIndexes.get c := by
  unfold passed
  cases hs : m.reliability.isSequenced with
  | false =>
    rw [if_neg Bool.false_ne_true]
    exact ⟨by simp [isSequencedOn, hcarries.mode, hs], rfl⟩
  | true =>
    obtain ⟨hchannel, -⟩ := h.sequenced hk hs
    have hne : (m.channel : ℕ) ≠ c := fun he => hm ⟨hs, he⟩
    rw [if_pos rfl, hchannel, ChannelIndexes.get_set_of_ne _ _ hne.symm]
    exact ⟨by simp [isSequencedOn, hcarries.mode, hchannel, hne], rfl⟩

theorem delivers_mem {c : ℕ} {log : List Message} {ks : List ℕ} {fs : List FrameSetPacket}
    (h : List.Forall₂ (Delivers log c) ks fs) :
    ∀ k ∈ ks, ∃ m, log[k]? = some m ∧ SequencedOn c m := by
  induction h with
  | nil => exact fun k hk => (List.not_mem_nil hk).elim
  | cons hf _ ih =>
    intro k hk
    rcases List.mem_cons.mp hk with rfl | hk
    · obtain ⟨m, hk, hm, -⟩ := hf
      exact ⟨m, hk, hm⟩
    · exact ih k hk

theorem InSequence.nextRank_le {limit c : ℕ} {ks : List ℕ} (h : InSequence limit l c ks)
    (hcurrent : ∀ g ∈ l.arrived, ∀ m', l.log[g.message]? = some m' → SequencedOn c m' →
      sequencedRank limit l.log c g.message < sequencedRank limit l.log c f.message + 8388608) :
    nextRank limit l.log c ks ≤ sequencedRank limit l.log c f.message + 8388608 := by
  unfold nextRank
  rcases hlast : ks.getLast? with _ | k
  · exact Nat.zero_le _
  · have hmem := List.mem_of_getLast? hlast
    obtain ⟨g, hg, rfl⟩ := h.arrived k hmem
    obtain ⟨m', hk', hm'⟩ := delivers_mem h.delivered _ hmem
    exact hcurrent g hg m' hk' hm'

/-- **A frame of the log is received.** -/
theorem Once.insert (h : Once ((mtu : ℕ) - 60) l) (hl : Linked B mtu l) (hok : l.failed = false)
    (hx : Boxed ((mtu : ℕ) - 60) l.log (frame, f))
    (htimely : l.InReach ((mtu : ℕ) - 60) f)
    (hcurrent : ∀ m, l.log[f.message]? = some m → m.reliability.isSequenced = true →
      ∀ g ∈ l.arrived, ∀ m', l.log[g.message]? = some m' → SequencedOn m.channel m' →
        sequencedRank ((mtu : ℕ) - 60) l.log m.channel g.message <
          sequencedRank ((mtu : ℕ) - 60) l.log m.channel f.message + 8388608)
    (hok' : (l.insert frame f).failed = false) :
    Once ((mtu : ℕ) - 60) (l.insert frame f) := by
  obtain ⟨m, hk, hadm, hcarries, -⟩ := hx.carries hl.admissible
  have hreceives := hl.receives hok
  rcases hl.answer hx hok htimely with ⟨-, q', he, hinserted⟩ | ⟨-, e, he⟩
  swap
  · unfold Peers.insert at hok'
    rcases hr : l.receiver.insert frame with ⟨r, q'⟩
    rw [hr] at he hok'
    obtain rfl : r = .error e := he
    cases hok'
  have hinsert : l.insert frame f = { l with
      receiver := q'.flushInto.2
      released := l.released ++ q'.flushInto.1
      arrived := l.arrived ++ [f] } := by
    unfold Peers.insert
    rw [he]
  rw [hinsert]
  have hfilter := fun {p} => hinserted.filter_released hreceives.ready l.released (p := p)
  have hreliable := hfilter (p := hasMode .reliable) fun g hg => by simp [hasMode, hg]
  have hsequenced := fun c => hfilter (p := isSequencedOn c) fun g hg => by
    simp [isSequencedOn, hg, Reliability.isSequenced]
  obtain ⟨hfirst, hkept⟩ := firstArrivals_snoc (l := l) { l with
    receiver := q'.flushInto.2
    released := l.released ++ q'.flushInto.1
    arrived := l.arrived ++ [f] } rfl rfl hk
  cases hl.releases hok hx hk htimely he with
  | nothing packets indexes seen =>
    simp only [packets, List.filter_nil, List.append_nil] at hreliable hsequenced
    refine ⟨?_, fun c => ?_⟩
    · rw [hkept fun hno => hno.2 (seen hno.1)]
      exact (congrArg (List.map _) hreliable).trans h.reliable
    · obtain ⟨ks, hks⟩ := h.sequenced c
      exact ⟨ks, hks.keep rfl rfl (hsequenced c) (congrArg (fun i => i.get c) indexes)⟩
  | frame packets indexes newest unseen =>
    rw [packets] at hreliable hsequenced
    refine ⟨?_, fun c => ?_⟩
    · refine (congrArg (List.map _) hreliable).trans ?_
      by_cases hr : m.reliability = .reliable
      · have hmode : hasMode .reliable frame = true := by simp [hasMode, hcarries.mode, hr]
        have hwhole : frame.data.deref = payloadOf l.log f.message := by
          rw [hcarries.whole fun hf => by simp [hf.1] at hr, payloadOf, hk]
          rfl
        rw [hfirst hr (unseen hr), List.map_append, List.map_append, h.reliable]
        simp [hmode, hwhole]
      · have hmode : hasMode .reliable frame = false := by simp [hasMode, hcarries.mode, hr]
        rw [hkept fun hno => hr hno.1, List.map_append, h.reliable]
        simp [hmode]
    · obtain ⟨ks, hks⟩ := h.sequenced c
      by_cases hm : SequencedOn c m
      · obtain ⟨hon, hdelivers, hindex, hnew⟩ := hx.delivers (q := l.receiver) hcarries hk hm
        have hback := hks.nextRank_le (f := f) (hm.2 ▸ hcurrent m hk hm.1)
        have hnext := hnew newest
        rw [hks.expected] at hnext
        refine ⟨_, hks.push rfl rfl ?_ ?_ hdelivers (le_of_newest hback hnext)⟩
        · exact (hsequenced c).trans (by simp [hon])
        · exact (congrArg (fun i => i.get c) indexes).trans hindex
      · obtain ⟨hoff, hindex⟩ := hx.misses l.receiver hcarries hk hm
        refine ⟨ks, hks.keep rfl rfl ?_ ?_⟩
        · exact (hsequenced c).trans (by simp [hoff])
        · exact (congrArg (fun i => i.get c) indexes).trans hindex

end receive

/-! ### Runs -/

/-- Only the receipt of a frame changes what has arrived and what is released. -/
theorem step_quiet (B : Build) (l : Peers) {a : Action} (ha : a ≠ .receive) :
    (l.step B a).arrived = l.arrived ∧ (l.step B a).released = l.released ∧
      (l.step B a).receiver.sequencedFrameIndexes = l.receiver.sequencedFrameIndexes := by
  have hsend : ∀ op, (l.send B op).arrived = l.arrived ∧ (l.send B op).released = l.released ∧
      (l.send B op).receiver.sequencedFrameIndexes = l.receiver.sequencedFrameIndexes := fun op => by
    unfold Peers.send
    split <;> exact ⟨rfl, rfl, rfl⟩
  unfold Peers.step
  cases a with
  | send op => exact hsend op
  | arrive i =>
    simp only
    split
    · unfold Peers.arrive
      split <;> exact ⟨rfl, rfl, rfl⟩
    · exact ⟨rfl, rfl, rfl⟩
  | receive => exact absurd rfl ha
  | takeAck | takeNack => exact ⟨rfl, rfl, rfl⟩
  | feedback i tick =>
    simp only
    split
    · exact hsend _
    · exact ⟨rfl, rfl, rfl⟩

/-- No sequenced frame is received half a turn behind. -/
abbrev SequencedRun (B : Build) (mtu : Fin 65536) (actions : List Action) : Prop :=
  Always B mtu (fun l a => a = .receive → l.CurrentSequenced ((mtu : ℕ) - 60)) actions

theorem once_run (B : Build) (mtu : Fin 65536) (actions : List Action)
    (htimely : TimelyRun B mtu actions) (hsequenced : SequencedRun B mtu actions)
    (hok : (runPeers B mtu actions).failed = false) :
    Once ((mtu : ℕ) - 60) (runPeers B mtu actions) := by
  induction actions using List.reverseRecOn with
  | nil => exact once_new _ mtu
  | append_singleton actions a ih =>
    have hlast : a = .receive → (runPeers B mtu actions).Timely _ := htimely.init.2
    have hlast' : a = .receive → (runPeers B mtu actions).CurrentSequenced _ := hsequenced.init.2
    replace htimely := htimely.init.1
    replace hsequenced := hsequenced.init.1
    have hlinked := linked_run B mtu actions htimely
    obtain ⟨more, hmore⟩ := runPeers_log B mtu actions a
    rw [runPeers_append] at hok hmore ⊢
    have hok' := failed_step a hok
    have honce := ih htimely hsequenced hok'
    have hlt : ∀ f ∈ (runPeers B mtu actions).arrived, f.message < (runPeers B mtu actions).log.length :=
      fun f hf => accepted_message _ _ f.body (hlinked.arrived f hf)
    generalize runPeers B mtu actions = l at *
    by_cases ha : a = .receive
    · subst ha
      have hnow := hlast rfl
      have hnow' := hlast' rfl
      unfold Peers.Timely at hnow
      unfold Peers.CurrentSequenced at hnow'
      unfold Peers.step at hok ⊢
      simp only at hok ⊢
      split
      · exact honce
      · next frame f inbox hinbox =>
        rw [hinbox] at hok hnow hnow'
        have hopen : ¬ l.failed = true := by simp [hok']
        simp only [if_neg hopen] at hok ⊢
        have hpop : Linked B mtu { l with inbox } :=
          { hlinked with inbox := fun x hx => hlinked.inbox x (hinbox ▸ List.mem_cons_of_mem _ hx) }
        have honce' : Once ((mtu : ℕ) - 60) { l with inbox } :=
          honce.extend (List.append_nil _).symm rfl rfl rfl hlt
        exact honce'.insert hpop hok' (hlinked.inbox _ (hinbox ▸ List.mem_cons_self))
          (hnow (frame, f) rfl) (hnow' (frame, f) rfl) hok
    · obtain ⟨harrived, hreleased, hindexes⟩ := step_quiet B l ha
      exact honce.extend hmore harrived hreleased hindexes hlt

/-- **Reliable and sequenced messages are delivered at most once and never go backwards.** In every
run in which no insertion has failed, no acknowledgement is made up and no frame is received half a
turn behind: the `Reliable` messages delivered are those that arrived, each once, in the order in
which they first arrived; and the sequenced messages delivered on a channel, of both modes, are
messages of the log that arrived, in the order of the log and none twice. -/
theorem delivered_once (B : Build) (mtu : Fin 65536) (actions : List Action)
    (hcurrent : CurrentRun B mtu actions) (hsequenced : SequencedRun B mtu actions)
    (hok : (runPeers B mtu actions).failed = false) :
    (((runPeers B mtu actions).released.filter (hasMode .reliable)).map fun f => f.data.deref) =
      (runPeers B mtu actions).firstArrivals.map (payloadOf (runPeers B mtu actions).log) ∧
    ∀ c, ∃ ks : List ℕ, ks.Pairwise (· < ·) ∧
      List.Forall₂ (Delivers (runPeers B mtu actions).log c) ks
        ((runPeers B mtu actions).released.filter (isSequencedOn c)) ∧
      ∀ k ∈ ks, ∃ f ∈ (runPeers B mtu actions).arrived, f.message = k := by
  have honce := once_run B mtu actions (timely_of_current B mtu actions hcurrent hok) hsequenced hok
  refine ⟨honce.reliable, fun c => ?_⟩
  obtain ⟨ks, hincreasing, hdelivered, harrived, -⟩ := honce.sequenced c
  exact ⟨ks, hincreasing, hdelivered, harrived⟩

/-! ### Short connections -/

theorem sequencedRank_le_self (limit : ℕ) (log : List Message) (c : ℕ) :
    ∀ k, sequencedRank limit log c k ≤ k
  | 0 => by simp [sequencedRank, before, counters, Counters.zero]
  | k + 1 => by
    have ih := sequencedRank_le_self limit log c k
    unfold sequencedRank at ih ⊢
    rcases hk : log[k]? with _ | m
    · rw [before_end hk]
      omega
    · rw [before_succ limit hk, add_sequenced]
      split_ifs <;> omega

/-- **A connection of at most 2^23 messages** receives no sequenced frame half a turn behind. -/
theorem sequenced_of_few (B : Build) (mtu : Fin 65536) (actions : List Action)
    (hfew : (runPeers B mtu actions).log.length ≤ 8388608) : SequencedRun B mtu actions := by
  induction actions using List.reverseRecOn with
  | nil => exact Lib.Machine.always_nil
  | append_singleton actions a ih =>
    obtain ⟨more, hmore⟩ := runPeers_log B mtu actions a
    rw [hmore, List.length_append] at hfew
    have hlast : (runPeers B mtu actions).CurrentSequenced ((mtu : ℕ) - 60) := by
      intro x _ m _ _ g _ m' hg _
      have hle := sequencedRank_le_self ((mtu : ℕ) - 60) (runPeers B mtu actions).log m.channel
        g.message
      have hlt := (List.getElem?_eq_some_iff.mp hg).1
      omega
    exact .concat (ih (by omega)) fun _ => hlast

/-- A `Reliable` message and two sequenced ones; the second sequenced message arrives first, the
`Reliable` message twice, with an acknowledgement between. -/
def overtaken : List Action :=
  [.send (.insert ⟨.reliable, primaryChannel, [0xfe, 1], false⟩),
    .send (.insert ⟨.reliableSequenced, primaryChannel, [0xfe, 2], false⟩),
    .send (.insert ⟨.unreliableSequenced, primaryChannel, [0xfe, 3], false⟩), .send (.flush 0),
    .arrive 2, .receive, .arrive 0, .receive, .takeAck, .feedback 0 10, .arrive 1, .receive,
    .arrive 0, .receive]

/-- The `Reliable` message is delivered once. -/
theorem delivered_once_overtaken :
    (((runPeers (.insertion false false) 1400 overtaken).released.filter (hasMode .reliable)).map
      fun f => f.data.deref) = [[0xfe, 1]] :=
  (delivered_once (.insertion false false) 1400 overtaken
    (current_of_few _ _ _ (by decide +kernel) (by decide +kernel))
    (sequenced_of_few _ _ _ (by decide +kernel)) (by decide +kernel)).1.trans (by decide +kernel)

end RustRaknet.Link
