import RustRaknet.Link.System

/-! # The invariant of the link

Every datagram of the wire decodes to frames of the log, and as long as no insertion has failed the
receiver stands for the frames that have arrived. -/

namespace RustRaknet.Link

open RustRaknet.Send RustRaknet.Frame RustRaknet.Codec RustRaknet.Recv RustRaknet.Lib.Serial
open RustRaknet.Socket (transmitFrames placed_run)
open RustRaknet.Indexes (AckSet)

/-- The datagram decodes to its frames, which are frames of the log. -/
structure Wired (limit : ℕ) (log : List Message) (d : Datagram) : Prop where
  decodes : decodeInto d.bytes = .ok (d.frames.map fun f => asDecoded f.frame)
  frames : ∀ f ∈ d.frames, f.body ∈ accepted limit log

/-- The frame in the inbox is a decoded frame of the log. -/
structure Boxed (limit : ℕ) (log : List Message) (x : FrameSetPacket × QueuedFrame) : Prop where
  decoded : x.1 = asDecoded x.2.frame
  frame : x.2.body ∈ accepted limit log

/-- What holds in every run in which frames arrive in time. -/
structure Linked (B : Build) (mtu : Fin 65536) (l : Peers) : Prop where
  sender : ∃ ops, l.sender = run B mtu ops
  wire : ∀ d ∈ l.wire, Wired ((mtu : ℕ) - 60) l.log d
  inbox : ∀ x ∈ l.inbox, Boxed ((mtu : ℕ) - 60) l.log x
  arrived : ∀ f ∈ l.arrived, f.body ∈ accepted ((mtu : ℕ) - 60) l.log
  receives : l.failed = false →
    Receives ((mtu : ℕ) - 60) l.log (l.taken ((mtu : ℕ) - 60)) l.receiver l.released

theorem linked_new (B : Build) (mtu : Fin 65536) : Linked B mtu (Peers.new mtu) where
  sender := ⟨[], rfl⟩
  wire _ hd := (List.not_mem_nil hd).elim
  inbox _ hx := (List.not_mem_nil hx).elim
  arrived _ hf := (List.not_mem_nil hf).elim
  receives _ := receives_new _

section sender

variable {B : Build} {mtu : Fin 65536} {l : Peers}

theorem run_admissible (B : Build) (mtu : Fin 65536) (ops : List Op) :
    ∀ m ∈ (run B mtu ops).queue.log, Admissible ((mtu : ℕ) - 60) m := by
  have hfit := (sent_run B mtu ops).2
  unfold Fitting at hfit
  rw [run_mtu B mtu ops] at hfit
  have hlt := mtu.isLt
  exact hfit (by omega)

theorem Linked.admissible (h : Linked B mtu l) : ∀ m ∈ l.log, Admissible ((mtu : ℕ) - 60) m := by
  obtain ⟨ops, hops⟩ := h.sender
  intro m hm
  refine run_admissible B mtu ops m ?_
  rwa [Peers.log, hops] at hm

theorem burst_frames (B : Build) (mtu : Fin 65536) (ops : List Op) :
    ∀ f ∈ (run B mtu ops).output.frames,
      f.body ∈ accepted ((mtu : ℕ) - 60) (run B mtu ops).queue.log ∧
        f.frame.sequenceNumber < 2 ^ 24 := by
  intro f hf
  have hsent := (sent_run B mtu ops).1 f hf
  rw [run_mtu] at hsent
  refine ⟨hsent, ?_⟩
  have := ((placed_run B mtu ops).1.outbox f hf).sequence
  omega

theorem burst_encodable {ops : List Op} (hmtu : (mtu : ℕ) - 60 ≤ 8191) {f : QueuedFrame}
    (hf : f ∈ (run B mtu ops).output.frames) :
    ∃ b, serializeGroupInto [f.frame] = .ok b ∧ decodeInto b = .ok [asDecoded f.frame] := by
  obtain ⟨hbody, hlt⟩ := burst_frames B mtu ops f hf
  have hadm := run_admissible B mtu ops
  obtain ⟨hflags, hwire⟩ := accepted_onWire hadm hbody
  have hencodable : Encodable f.frame.sequenceNumber f.frame :=
    ⟨rfl, hflags, accepted_valid hadm hmtu hbody, hwire⟩
  exact decode_serializeGroupInto (by simp) hlt (by simpa using hencodable)

theorem encode_wired {limit : ℕ} {log : List Message} (hlog : ∀ m ∈ log, Admissible limit m) :
    ∀ {groups : List (List QueuedFrame)}, (∀ g ∈ groups, ∀ f ∈ g, f.body ∈ accepted limit log ∧
      f.frame.sequenceNumber < 2 ^ 24) → ∀ d ∈ encode groups, Wired limit log d
  | [], _, d, hd => (List.not_mem_nil hd).elim
  | g :: gs, hg, d, hd => by
    unfold encode at hd
    split at hd
    · next bytes hbytes =>
      rcases List.mem_cons.mp hd with rfl | hd
      · exact ⟨group_decodes hlog (hg g (by simp)) hbytes, fun f hf => (hg g (by simp) f hf).1⟩
      · exact encode_wired hlog (fun g' hg' => hg g' (List.mem_cons_of_mem _ hg')) d hd
    · exact (List.not_mem_nil hd).elim

theorem Linked.taken_extends (h : Linked B mtu l) {l' : Peers} {more : List Message}
    (hlog : l'.log = l.log ++ more) (harrived : l'.arrived = l.arrived) :
    l'.taken ((mtu : ℕ) - 60) = l.taken ((mtu : ℕ) - 60) := by
  unfold Peers.taken
  rw [harrived, hlog]
  congr 1
  refine List.map_congr_left fun f hf => position_extend ?_ more
  exact accepted_message _ _ f.body (h.arrived f (List.mem_of_mem_filter hf))

/-- An operation of the sender, before anything is transmitted. -/
theorem Linked.operate (h : Linked B mtu l) (op : Op) :
    Linked B mtu { l with sender := l.sender.step B op } := by
  obtain ⟨ops, hops⟩ := h.sender
  have hextends := step_extends B mtu ops op
  rw [← hops] at hextends
  obtain ⟨more, hmore, hpos⟩ := hextends
  have htaken : Peers.taken { l with sender := l.sender.step B op } ((mtu : ℕ) - 60) =
      l.taken ((mtu : ℕ) - 60) := h.taken_extends hmore rfl
  refine ⟨⟨ops ++ [op], by rw [run_append, hops]⟩, fun d hd => ?_, fun x hx => ?_, fun f hf => ?_,
    fun hok => ?_⟩
  all_goals simp only [Peers.log] at *
  · obtain ⟨hdecodes, hframes⟩ := h.wire d hd
    exact ⟨hdecodes, fun f hf => hmore ▸ accepted_extend (hframes f hf) more⟩
  · obtain ⟨hdecoded, hframe⟩ := h.inbox x hx
    exact ⟨hdecoded, hmore ▸ accepted_extend hframe more⟩
  · exact hmore ▸ accepted_extend (h.arrived f hf) more
  · rw [htaken, hmore]
    exact (h.receives hok).extend more hpos

/-- **An operation of the sender.** -/
theorem Linked.send (h : Linked B mtu l) (op : Op) : Linked B mtu (l.send B op) := by
  unfold Peers.send
  split
  · next tick =>
    have h' := h.operate (.flush tick)
    refine { h' with wire := fun d hd => ?_ }
    rcases List.mem_append.mp hd with hd | hd
    · exact h'.wire d hd
    · obtain ⟨ops, hops⟩ := h'.sender
      refine encode_wired h'.admissible (fun g hg f hf => ?_) d hd
      have hf := mem_transmitFrames hg hf
      simp only [Peers.log] at hops ⊢
      rw [hops] at hf ⊢
      exact burst_frames B mtu ops f hf
  · exact h.operate op

end sender

/-! ### One frame -/

section receiver

variable {B : Build} {mtu : Fin 65536} {l : Peers} {frame : FrameSetPacket} {f : QueuedFrame}

theorem boxed_asDecoded {limit : ℕ} {log : List Message} (h : f.body ∈ accepted limit log) :
    Boxed limit log (Codec.asDecoded f.frame, f) :=
  ⟨rfl, h⟩

theorem Boxed.carries {limit : ℕ} {log : List Message} (h : Boxed limit log (frame, f))
    (hlog : ∀ m ∈ log, Admissible limit m) :
    ∃ m, log[f.message]? = some m ∧ Admissible limit m ∧
      Carries limit log f.message m f.frame.fragmentIndex frame ∧
      f.isReliable = m.reliability.isReliable := by
  obtain ⟨m, hk, hcarries⟩ := accepted_carries hlog h.frame
  have hframe : frame = asDecoded f.frame := h.decoded
  refine ⟨m, hk, hlog m (List.mem_of_getElem? hk), ?_, ?_⟩
  · rw [hframe]
    exact hcarries.congr rfl rfl rfl rfl ⟨rfl, rfl, rfl⟩ rfl
  · have hmode : f.frame.reliability = .ok m.reliability := hcarries.mode
    exact fromPayload_isReliable f.frame f.message f.datagram hmode

theorem Boxed.indexes {limit : ℕ} {log : List Message} (h : Boxed limit log (frame, f))
    (hlog : ∀ m ∈ log, Admissible limit m) :
    frame.reliableFrameIndex < 16777216 ∧ frame.orderedFrameIndex < 16777216 := by
  obtain ⟨-, r, -, hwire⟩ := accepted_onWire hlog h.frame
  have hframe : frame = asDecoded f.frame := h.decoded
  rw [hframe]
  exact ⟨hwire.reliable.lt, hwire.ordered.lt⟩

theorem taken_snoc (limit : ℕ) {l r : Peers} (hlog : r.log = l.log)
    (harrived : r.arrived = l.arrived ++ [f]) :
    r.taken limit =
      if f.isReliable then insert (f.position limit l.log) (l.taken limit) else l.taken limit := by
  unfold Peers.taken
  rw [harrived, hlog, List.filter_append, List.map_append, List.toFinset_append]
  cases hf : f.isReliable
  · simp [hf]
  · simp [hf]

/-- The receiver takes the frame for one of these reasons. -/
def Peers.Accepts (l : Peers) (limit : ℕ) (frame : FrameSetPacket) (f : QueuedFrame) : Prop :=
  f.isReliable = true → f.position limit l.log ∈ l.taken limit ∨
    ∀ m, l.log[f.message]? = some m →
      Takes limit l.log (l.taken limit) l.receiver f.message m f.frame.fragmentIndex frame

theorem Linked.answer (h : Linked B mtu l) (hx : Boxed ((mtu : ℕ) - 60) l.log (frame, f))
    (hok : l.failed = false) (htimely : l.InReach ((mtu : ℕ) - 60) f) :
    (l.Accepts ((mtu : ℕ) - 60) frame f ∧ ∃ q', l.receiver.insert frame = (.ok (), q') ∧
      Inserted ((mtu : ℕ) - 60) l.log (l.taken ((mtu : ℕ) - 60))
        (if f.isReliable then
          insert (f.position ((mtu : ℕ) - 60) l.log) (l.taken ((mtu : ℕ) - 60))
        else l.taken ((mtu : ℕ) - 60)) l.receiver q') ∨
    (¬ l.Accepts ((mtu : ℕ) - 60) frame f ∧ ∃ e, (l.receiver.insert frame).1 = .error e) := by
  have hreceives := h.receives hok
  obtain ⟨m, hk, hadm, hcarries, hr⟩ := hx.carries h.admissible
  cases hrel : f.isReliable
  · rw [hrel] at hr
    refine .inl ⟨fun h => absurd (hrel.symm.trans h) (by simp), ?_⟩
    exact hreceives.insertUnreliable hcarries hr.symm
  · obtain ⟨hback, hahead⟩ := htimely hrel
    rw [hrel] at hr
    obtain ⟨hyes, hno⟩ := hreceives.insertReliable hadm hk hcarries hr.symm hback hahead
    by_cases hc : f.position ((mtu : ℕ) - 60) l.log ∈ l.taken ((mtu : ℕ) - 60) ∨
        Takes ((mtu : ℕ) - 60) l.log (l.taken ((mtu : ℕ) - 60)) l.receiver f.message m
          f.frame.fragmentIndex frame
    · refine .inl ⟨fun _ => hc.imp_right fun ht m' hm' => ?_, hyes hc⟩
      exact Option.some.inj (hk.symm.trans hm') ▸ ht
    · exact .inr ⟨fun ha => hc ((ha hrel).imp_right fun ht => ht m hk), hno hc⟩

/-- **A frame of the log is received.** -/
theorem Linked.insert (h : Linked B mtu l) (hx : Boxed ((mtu : ℕ) - 60) l.log (frame, f))
    (hok : l.failed = false) (htimely : l.InReach ((mtu : ℕ) - 60) f) :
    Linked B mtu (l.insert frame f) ∧
      ((l.insert frame f).failed = false ↔ l.Accepts ((mtu : ℕ) - 60) frame f) := by
  have hreceives := h.receives hok
  have harrived : ∀ g ∈ l.arrived ++ [f], g.body ∈ accepted ((mtu : ℕ) - 60) l.log := by
    intro g hg
    obtain hg | rfl := Lib.mem_snoc.mp hg
    · exact h.arrived g hg
    · exact hx.frame
  rcases h.answer hx hok htimely with ⟨ha, q', he, hinserted⟩ | ⟨ha, e, he⟩
  · have heq : l.insert frame f = { l with
        receiver := q'.flushInto.2
        released := l.released ++ q'.flushInto.1
        arrived := l.arrived ++ [f] } := by
      unfold Peers.insert
      rw [he]
    rw [heq]
    refine ⟨⟨h.sender, h.wire, h.inbox, harrived, fun _ => ?_⟩, fun _ => ha, fun _ => hok⟩
    have htaken := taken_snoc ((mtu : ℕ) - 60) (l := l) (f := f) (r := { l with
        receiver := q'.flushInto.2
        released := l.released ++ q'.flushInto.1
        arrived := l.arrived ++ [f] }) rfl rfl
    rw [htaken]
    obtain ⟨hri, hoi⟩ := hx.indexes h.admissible
    have hinv := hreceives.limits.insert hri hoi
    rw [he] at hinv
    refine hreceives.flush hinserted hinv fun p hp => ?_
    split_ifs at hp with hrel
    · rcases Finset.mem_insert.mp hp with rfl | hp
      · obtain ⟨m, hk, hadm, hcarries, hr⟩ := hx.carries h.admissible
        exact position_lt hadm.pos hk (hr.symm.trans hrel) hcarries.lt
      · exact hreceives.below p hp
    · exact hreceives.below p hp
  · rcases hr : l.receiver.insert frame with ⟨r, q'⟩
    rw [hr] at he
    obtain rfl : r = .error e := he
    have heq : l.insert frame f =
        { l with receiver := q', arrived := l.arrived ++ [f], failed := true } := by
      unfold Peers.insert
      rw [hr]
    rw [heq]
    exact ⟨⟨h.sender, h.wire, h.inbox, harrived, Bool.noConfusion⟩, Bool.noConfusion,
      fun ha' => absurd ha' ha⟩

end receiver

/-! ### Runs -/

section run

variable {B : Build} {mtu : Fin 65536} {l : Peers}

theorem Receives.acks {limit : ℕ} {log : List Message} {A : Finset ℕ} {q : RecvQ}
    {released : List FrameSetPacket} (h : Receives limit log A q released) (acks : AckSet) :
    Receives limit log A { q with sequenceNumberAckset := acks } released :=
  ⟨h.window, h.below, h.holds.congr rfl rfl rfl,
    ⟨h.limits.ordered.congr rfl rfl rfl rfl rfl rfl, h.limits.fragments, h.limits.window⟩, h.ready,
    h.packets, h.delivered⟩

theorem Linked.arrive (h : Linked B mtu l) {d : Datagram} (hd : d ∈ l.wire) :
    Linked B mtu (l.arrive d) := by
  obtain ⟨hdecodes, hframes⟩ := h.wire d hd
  unfold Peers.arrive
  rw [hdecodes]
  refine { h with inbox := fun x hx => ?_ }
  rcases List.mem_append.mp hx with hx | hx
  · exact h.inbox x hx
  · rw [List.zip_map_left, List.mem_map] at hx
    obtain ⟨⟨f, f'⟩, hmem, rfl⟩ := hx
    obtain ⟨i, hi, he⟩ := List.mem_iff_getElem.mp hmem
    simp only [List.getElem_zip, Prod.mk.injEq] at he
    obtain ⟨rfl, rfl⟩ := he
    exact ⟨rfl, hframes _ (List.getElem_mem _)⟩

/-- **One action.** -/
theorem Linked.step (h : Linked B mtu l) (a : Action)
    (htimely : a = .receive → l.Timely ((mtu : ℕ) - 60)) : Linked B mtu (l.step B a) := by
  cases a with
  | send op => exact h.send op
  | arrive i =>
    unfold Peers.step
    simp only
    split
    · next d hd => exact h.arrive (List.mem_of_getElem? hd)
    · exact h
  | receive =>
    unfold Peers.step
    simp only
    split
    · exact h
    · next frame f inbox hinbox =>
      have hpop : Linked B mtu { l with inbox } :=
        { h with inbox := fun x hx => h.inbox x (hinbox ▸ List.mem_cons_of_mem _ hx) }
      split_ifs with hfailed
      · exact hpop
      · refine (hpop.insert (h.inbox _ (hinbox ▸ List.mem_cons_self)) (by simpa using hfailed)
          ?_).1
        exact htimely rfl (frame, f) (by simp [hinbox])
  | takeAck | takeNack =>
    exact { h with receives := fun hok => (h.receives hok).acks _ }
  | feedback i tick =>
    unfold Peers.step
    simp only
    split
    · exact h.send _
    · exact h

/-- Every frame is received in time. -/
abbrev TimelyRun (B : Build) (mtu : Fin 65536) (actions : List Action) : Prop :=
  Always B mtu (fun l a => a = .receive → l.Timely ((mtu : ℕ) - 60)) actions

theorem linked_run (B : Build) (mtu : Fin 65536) (actions : List Action)
    (h : TimelyRun B mtu actions) : Linked B mtu (runPeers B mtu actions) := by
  induction actions using List.reverseRecOn with
  | nil => exact linked_new B mtu
  | append_singleton actions a ih =>
    obtain ⟨hinit, hlast⟩ := h.init
    rw [runPeers_append]
    exact (ih hinit).step a hlast

end run

end RustRaknet.Link
