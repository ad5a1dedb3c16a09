import RustRaknet.Acks
import RustRaknet.Link.Datagrams
import RustRaknet.Link.Honest
import RustRaknet.Send.Whole

/-! # The closed loop

Here the sender is given no acknowledgements but those of its receiver, which may be lost, repeated
and late like everything else. The receiver acknowledges a datagram when it has inserted all its
frames; the sender retires the frames in flight that have an acknowledged number. A number has 24
bits, so this is right only as long as neither a frame in flight nor an acknowledgement is older than
2^24 numbers.

* `Sound`: what the wire, the receiver and the acknowledgements on their way say about the flight.
* `nothing_lost`: a frame that is retired has arrived, so when the queue of the sender is empty, the
  receiver has delivered everything.

A `Loop` adds to the peers, as a ghost, which datagrams each control packet acknowledges. -/

namespace RustRaknet.Link

open RustRaknet.Send RustRaknet.Frame RustRaknet.Codec RustRaknet.Recv RustRaknet.Lib.Serial
open RustRaknet.Lib.Ranges RustRaknet.Indexes
open RustRaknet.Socket (transmitFrames transmitFrames_together placed_run sequenced_of_placed)

/-! ### The loop -/

/-- The peers, the datagrams received since acknowledgements were last taken, and those that each
control packet acknowledges. -/
structure Loop where
  peers : Peers
  fresh : List ℕ
  named : List (List ℕ)

namespace Loop

variable (B : Build) (mtu : Fin 65536) (l : Loop)

/-- A new connection. -/
def new : Loop := ⟨.new mtu, [], []⟩

/-- The number of the datagram that the next frame to insert came in. -/
def incoming : List ℕ :=
  if l.peers.failed then [] else (l.peers.inbox.head?.map fun x => x.2.datagram).toList

/-- The datagrams to acknowledge after an action. -/
def freshAfter : Action → List ℕ
  | .receive => l.fresh ++ l.incoming
  | .takeAck => []
  | _ => l.fresh

/-- The datagrams that the control packets acknowledge after an action. -/
def namedAfter : Action → List (List ℕ)
  | .takeAck => l.named ++ [l.fresh]
  | .takeNack => l.named ++ [[]]
  | _ => l.named

/-- One action. -/
def step (a : Action) : Loop := ⟨l.peers.step B a, l.freshAfter a, l.namedAfter a⟩

/-- What may happen in a closed loop: only the receiver acknowledges, and only between two
datagrams; and an acknowledgement that is used names no datagram older than 2^24 numbers. -/
def Admits : Action → Prop
  | .send (.ack _ _) => False
  | .send (.ackRanges _ _) => False
  | .takeAck => l.peers.inbox = []
  | .feedback i _ => ∀ d ∈ l.named[i]?.getD [], l.peers.sender.queue.allocated ≤ d + 16777216
  | _ => True

instance (a : Action) : Decidable (l.Admits a) := by
  unfold Admits
  split <;> infer_instance

end Loop

/-- The loop after the given actions. -/
def runLoop (B : Build) (mtu : Fin 65536) (actions : List Action) : Loop :=
  Lib.Machine.run (Loop.step B) (.new mtu) actions

/-- The loop is closed, and no frame in flight is older than 2^24 numbers. -/
def ClosedRun (B : Build) (mtu : Fin 65536) (actions : List Action) : Prop :=
  Lib.Machine.Always (Loop.step B) (.new mtu)
    (fun l a => l.Admits a ∧ (l.step B a).peers.sender.queue.Windowed) actions

instance (B : Build) (mtu : Fin 65536) (actions : List Action) :
    Decidable (ClosedRun B mtu actions) := by
  unfold ClosedRun
  infer_instance

theorem runLoop_append (B : Build) (mtu : Fin 65536) (actions : List Action) (a : Action) :
    runLoop B mtu (actions ++ [a]) = (runLoop B mtu actions).step B a :=
  Lib.Machine.run_append _ _ actions a

theorem runLoop_peers (B : Build) (mtu : Fin 65536) (actions : List Action) :
    (runLoop B mtu actions).peers = runPeers B mtu actions := by
  induction actions using List.reverseRecOn with
  | nil => rfl
  | append_singleton actions a ih =>
    rw [runLoop_append, runPeers_append, ← ih]
    rfl

/-! ### What the wire says about the flight -/

namespace Peers

variable (l : Peers)

/-- The number is that of a datagram on the wire. -/
def Transmitted (d : ℕ) : Prop := ∃ D ∈ l.wire, ∃ f ∈ D.frames, f.datagram = d

/-- The frames that the receiver was given. -/
def given : List QueuedFrame := l.arrived ++ l.inbox.map Prod.snd

/-- The frames in flight that have the number are among the given ones. -/
def Covered (frames : List QueuedFrame) (d : ℕ) : Prop :=
  ∀ p ∈ l.sender.queue.sentPacket, d ∈ p.datagrams → ∃ g ∈ frames, g.body = p.packet.body

/-- The number was transmitted, and its frames in flight have arrived. -/
def Landed (d : ℕ) : Prop := l.Transmitted d ∧ l.Covered l.arrived d

end Peers

/-- The datagrams of the wire and the frames that the receiver was given. -/
structure Intact (B : Build) (mtu : Fin 65536) (l : Peers) : Prop where
  sender : ∃ ops, l.sender = run B mtu ops ∧
    ∀ before, before <+: ops → (run B mtu before).queue.Windowed
  numbered : ∀ D ∈ l.wire, ∀ f ∈ D.frames, f.Numbered l.sender.queue.allocated
  waiting : ∀ p ∈ l.sender.queue.sentPacket, p.sent = false → ¬ l.Transmitted p.packet.datagram
  wire : ∀ D ∈ l.wire, ∀ f ∈ D.frames, l.Covered D.frames f.datagram
  transmitted : ∀ f ∈ l.given, ∃ D ∈ l.wire, f ∈ D.frames
  given : ∀ f ∈ l.given, l.Covered l.given f.datagram

/-- The acknowledgements that the receiver has taken or will take. -/
structure Sound (B : Build) (mtu : Fin 65536) (l : Loop) : Prop where
  intact : Intact B mtu l.peers
  ordered : Indexes.Ordered l.peers.receiver.sequenceNumberAckset.ack
  acks : ∀ x, Covers l.peers.receiver.sequenceNumberAckset.ack x → ∃ d ∈ l.fresh, d % 16777216 = x
  fresh : ∀ d ∈ l.fresh, ∃ f ∈ l.peers.arrived, f.datagram = d
  lengths : l.named.length = l.peers.control.length
  named : ∀ (i : ℕ) (ranges : List (ℕ × ℕ)), l.peers.control[i]? = some (Control.ack ranges) →
    ∃ ds, l.named[i]? = some ds ∧
    (∀ x, Covers ranges x → ∃ d ∈ ds, d % 16777216 = x) ∧ ∀ d ∈ ds, l.peers.Landed d
  honest : l.peers.Honest

section sender

variable {B : Build} {mtu : Fin 65536} {l : Peers}

theorem Intact.transmitted_given (h : Intact B mtu l) {f : QueuedFrame} (hf : f ∈ l.given) :
    l.Transmitted f.datagram := by
  obtain ⟨D, hD, hmem⟩ := h.transmitted f hf
  exact ⟨D, hD, f, hmem, rfl⟩

theorem Intact.congr (h : Intact B mtu l) {r : Peers} (hsender : r.sender = l.sender)
    (hwire : r.wire = l.wire) (hgiven : r.given = l.given) : Intact B mtu r := by
  obtain ⟨h₁, h₂, h₃, h₄, h₅, h₆⟩ := h
  unfold Peers.Transmitted at h₃
  unfold Peers.Covered at h₄ h₆
  rw [← hsender] at h₁ h₂ h₃ h₄ h₆
  rw [← hwire] at h₂ h₃ h₄ h₅
  rw [← hgiven] at h₅ h₆
  exact ⟨h₁, h₂, h₃, h₄, h₅, h₆⟩

theorem Peers.Landed.congr {d : ℕ} (h : l.Landed d) {r : Peers} (hsender : r.sender = l.sender)
    (hwire : r.wire = l.wire) (harrived : ∀ f ∈ l.arrived, f ∈ r.arrived) : r.Landed d := by
  obtain ⟨⟨D, hD, hf⟩, hcovered⟩ := h
  refine ⟨⟨D, hwire ▸ hD, hf⟩, fun p hp hd => ?_⟩
  obtain ⟨g, hg, hbody⟩ := hcovered p (hsender ▸ hp) hd
  exact ⟨g, harrived g hg, hbody⟩

theorem send_sender (op : Op) : (l.send B op).sender = l.sender.step B op := by
  unfold Peers.send
  split <;> rfl

theorem send_given (op : Op) :
    (l.send B op).given = l.given ∧ (l.send B op).arrived = l.arrived := by
  unfold Peers.send
  split <;> exact ⟨rfl, rfl⟩

theorem mem_encode : ∀ {groups : List (List QueuedFrame)}, ∀ D ∈ encode groups, D.frames ∈ groups
  | [], D, hD => (List.not_mem_nil hD).elim
  | g :: gs, D, hD => by
    unfold encode at hD
    split at hD
    · rcases List.mem_cons.mp hD with rfl | hD
      · exact List.mem_cons_self
      · exact List.mem_cons_of_mem _ (mem_encode D hD)
    · exact (List.not_mem_nil hD).elim

theorem mem_send_wire {op : Op} {D : Datagram} (h : D ∈ (l.send B op).wire) :
    D ∈ l.wire ∨ (∃ tick, op = .flush tick) ∧
      D.frames ∈ transmitFrames (l.sender.step B op).output := by
  unfold Peers.send at h
  split at h
  · next tick =>
    rcases List.mem_append.mp h with h | h
    · exact .inl h
    · exact .inr ⟨⟨tick, rfl⟩, mem_encode D h⟩
  · exact .inl h

theorem wire_send {op : Op} {D : Datagram} (h : D ∈ l.wire) : D ∈ (l.send B op).wire := by
  unfold Peers.send
  split
  · exact List.mem_append_left _ h
  · exact h

theorem Peers.Transmitted.send {d : ℕ} (h : l.Transmitted d) (op : Op) :
    (l.send B op).Transmitted d := by
  obtain ⟨D, hD, f, hf, rfl⟩ := h
  exact ⟨D, wire_send hD, f, hf, rfl⟩

/-- **What an operation of the sender leaves of the numbers that were transmitted.** -/
theorem Intact.later (h : Intact B mtu l) (op : Op) :
    (Run.step B { l.sender with output := .empty } op).ledger.Later l.Transmitted
      (l.sender.queue.sentPacket.map InFlight.timeless) := by
  obtain ⟨ops, hops, -⟩ := h.sender
  have hw : Wf B l.sender.queue := hops ▸ (run_steps B mtu ops).1
  refine step_later hw op ?_ h.waiting
  rintro d ⟨D, hD, f, hf, rfl⟩
  exact (h.numbered D hD f hf).lt

theorem step_output_empty (r : Run) (op : Op) :
    (Run.step B { r with output := .empty } op).queue = (r.step B op).queue :=
  Run.step_queue (show Run.queue { r with output := .empty } = r.queue from rfl) op

theorem Intact.descends (h : Intact B mtu l) (op : Op) {p : InFlight} {d : ℕ}
    (hp : p ∈ (l.send B op).sender.queue.sentPacket) (hd : d ∈ p.datagrams)
    (hT : l.Transmitted d) :
    ∃ p' ∈ l.sender.queue.sentPacket, d ∈ p'.datagrams ∧ p'.packet.body = p.packet.body := by
  rw [send_sender, ← step_output_empty l.sender op] at hp
  obtain ⟨p', hp', hd', hbody⟩ := (h.later op).flight p.timeless (List.mem_map_of_mem hp) d hd hT
  obtain ⟨p'', hp'', rfl⟩ := List.mem_map.mp hp'
  exact ⟨p'', hp'', hd', hbody⟩

theorem Intact.covered_send (h : Intact B mtu l) (op : Op) {frames : List QueuedFrame} {d : ℕ}
    (hT : l.Transmitted d) (hd : l.Covered frames d) : (l.send B op).Covered frames d := by
  intro p hp hmem
  obtain ⟨p', hp', hd', hbody⟩ := h.descends op hp hmem hT
  obtain ⟨g, hg, he⟩ := hd p' hp' hd'
  exact ⟨g, hg, he.trans hbody⟩

theorem Intact.landed_send (h : Intact B mtu l) (op : Op) {d : ℕ} (hd : l.Landed d) :
    (l.send B op).Landed d := by
  refine ⟨hd.1.send op, ?_⟩
  rw [(send_given op).2]
  exact h.covered_send op hd.1 hd.2

/-- The groups of a burst in a windowed run: a group has all the frames in flight of its numbers. -/
theorem burst_covered {ops : List Op} {tick : ℤ}
    (hwindow : ∀ before, before <+: ops ++ [.flush tick] → (run B mtu before).queue.Windowed)
    {g : List QueuedFrame} (hg : g ∈ transmitFrames (run B mtu (ops ++ [.flush tick])).output)
    {f : QueuedFrame} (hf : f ∈ g) :
    f.Numbered (run B mtu (ops ++ [.flush tick])).queue.allocated ∧
      ∀ p ∈ (run B mtu (ops ++ [.flush tick])).queue.sentPacket, f.datagram ∈ p.datagrams →
        ∃ g' ∈ g, g'.body = p.packet.body := by
  have hthen := hwindow (ops ++ [.flush tick]) List.prefix_rfl
  have hdeck := stowed_run B mtu ops fun before h =>
    hwindow before (h.trans (List.prefix_append ops _))
  obtain ⟨s, hs, hends⟩ := flush_stowed (B := B) tick (flight_numbered B mtu ops)
    (hwindow ops (List.prefix_append ops _)) (congrArg Fin.val (legacy_room B mtu ops).1) hdeck
    (queued_fits B mtu ops)
  obtain ⟨hn, hplaced⟩ := placed_run B mtu (ops ++ [.flush tick])
  have hwhole := whole_run B mtu (ops ++ [.flush tick])
  rw [Send.run_append] at hn hplaced hthen hwhole hg ⊢
  have htogether := transmitFrames_together
    (sequenced_of_placed hn hplaced (output_windowed hs hends hthen))
  have hmem : f ∈ ((run B mtu ops).step B (.flush tick)).output.frames := mem_transmitFrames hg hf
  refine ⟨hn.outbox f hmem, fun p hp hd => ?_⟩
  obtain ⟨x, hx, hnumber, hbody⟩ :=
    hwhole.burst f hmem p.timeless (List.mem_map_of_mem hp) hd
  refine ⟨x, ?_, hbody⟩
  -- a frame of the same number has the same sequence number, so it is in the same group
  have hsame : x.frame.sequenceNumber = f.frame.sequenceNumber := by
    rw [(hn.outbox x hx).sequence, (hn.outbox f hmem).sequence, hnumber]
  have hall : x ∈ (transmitFrames ((run B mtu ops).step B (.flush tick)).output).flatten :=
    htogether.all ▸ hx
  obtain ⟨g', hg', hx'⟩ := List.mem_flatten.mp hall
  by_contra hout
  have hne : g ≠ g' := fun he => hout (he ▸ hx')
  have : Std.Symm fun g g' : List QueuedFrame => ∀ f ∈ g, ∀ f' ∈ g',
      f.frame.sequenceNumber ≠ f'.frame.sequenceNumber :=
    ⟨fun _ _ h f hf f' hf' => (h f' hf' f hf).symm⟩
  exact htogether.apart.forall hg hg' hne f hf x hx' hsame.symm

/-- **An operation of the sender.** -/
theorem Intact.send (h : Intact B mtu l) (op : Op)
    (hwindow : (l.send B op).sender.queue.Windowed) : Intact B mtu (l.send B op) := by
  have hlater := h.later op
  obtain ⟨ops, hops, hwindows⟩ := h.sender
  have hrun : (l.send B op).sender = run B mtu (ops ++ [op]) := by
    rw [send_sender, hops, Send.run_append]
  have hwindows' : ∀ before, before <+: ops ++ [op] → (run B mtu before).queue.Windowed := by
    intro before hbefore
    rcases List.prefix_concat_iff.mp hbefore with rfl | hbefore
    · exact hrun ▸ hwindow
    · exact hwindows before hbefore
  have hqueue := step_output_empty (B := B) l.sender op
  rw [← send_sender] at hqueue
  have hbelow : ∀ d, l.Transmitted d → d < (l.send B op).sender.queue.allocated := fun d hd =>
    hqueue ▸ hlater.below d hd
  -- the datagrams of a burst
  have hburst : ∀ D : Datagram, (∃ tick, op = .flush tick) →
      D.frames ∈ transmitFrames (l.sender.step B op).output → ∀ f ∈ D.frames,
        f.Numbered (l.send B op).sender.queue.allocated ∧
          (l.send B op).Covered D.frames f.datagram := by
    rintro D ⟨tick, rfl⟩ hD f hf
    rw [← send_sender, hrun] at hD
    unfold Peers.Covered
    rw [hrun]
    exact burst_covered hwindows' hD hf
  refine ⟨⟨_, hrun, hwindows'⟩, fun D hD f hf => ?_, fun p hp hs => ?_, fun D hD f hf => ?_, ?_, ?_⟩
  · rcases mem_send_wire hD with hold | ⟨hflush, hnew⟩
    · exact ⟨(h.numbered D hold f hf).sequence, hbelow _ ⟨D, hold, f, hf, rfl⟩⟩
    · exact (hburst D hflush hnew f hf).1
  · rintro ⟨D, hD, f, hf, he⟩
    rcases mem_send_wire hD with hold | ⟨-, hnew⟩
    · rw [← hqueue] at hp
      exact hlater.waiting p.timeless (List.mem_map_of_mem hp) hs ⟨D, hold, f, hf, he⟩
    · have hplaced := (placed_run B mtu (ops ++ [op])).2
      rw [← hrun] at hplaced
      rw [← send_sender] at hnew
      exact hplaced.waiting p.timeless (List.mem_map_of_mem hp) hs f (mem_transmitFrames hnew hf) he
  · rcases mem_send_wire hD with hold | ⟨hflush, hnew⟩
    · exact h.covered_send op ⟨D, hold, f, hf, rfl⟩ (h.wire D hold f hf)
    · exact (hburst D hflush hnew f hf).2
  · rw [(send_given op).1]
    intro f hf
    obtain ⟨D, hD, hmem⟩ := h.transmitted f hf
    exact ⟨D, wire_send hD, hmem⟩
  · rw [(send_given op).1]
    exact fun f hf => h.covered_send op (h.transmitted_given hf) (h.given f hf)

theorem honest_send (h : Intact B mtu l) (hhonest : l.Honest) (op : Op)
    (hop : ∀ p ∈ l.sender.queue.sentPacket, ∀ d ∈ p.datagrams, op.Acknowledges (d % 16777216) →
      ∃ g ∈ l.arrived, g.body = p.packet.body) : (l.send B op).Honest := by
  intro t ht
  rw [send_sender] at ht
  rw [(send_given op).2]
  obtain ⟨new, hnew, hnamed⟩ := step_retired B l.sender op
  rcases List.mem_append.mp (hnew ▸ ht) with ht | ht
  · exact hhonest t ht
  · obtain ⟨hack, p, hp, hpacket, hid⟩ := hnamed t ht
    obtain ⟨ops, hops, -⟩ := h.sender
    have hnumbered := flight_numbered B mtu ops
    rw [← hops] at hnumbered
    obtain ⟨d, hd, he⟩ := (hnumbered p hp).ids_datagrams hid
    rw [← hpacket]
    exact hop p hp d hd (he ▸ hack)

end sender

section receiver

variable {B : Build} {mtu : Fin 65536} {l : Peers}

/-- **A datagram arrives**: all its frames are given to the receiver. -/
theorem Intact.arrive (h : Intact B mtu l) {D : Datagram} (hD : D ∈ l.wire)
    (hdecodes : decodeInto D.bytes = .ok (D.frames.map fun f => asDecoded f.frame)) :
    Intact B mtu (l.arrive D) := by
  have harrive : l.arrive D = { l with
      inbox := l.inbox ++ (D.frames.map fun f => asDecoded f.frame).zip D.frames } := by
    unfold Peers.arrive
    rw [hdecodes]
  have hgiven : (l.arrive D).given = l.given ++ D.frames := by
    rw [harrive, Peers.given, List.map_append, List.map_snd_zip (by simp), ← List.append_assoc]
    rfl
  have hsame : (l.arrive D).sender = l.sender ∧ (l.arrive D).wire = l.wire := by
    rw [harrive]
    exact ⟨rfl, rfl⟩
  generalize l.arrive D = r at *
  obtain ⟨hsender, hwire⟩ := hsame
  have hold := h.congr (r := { r with arrived := l.given, inbox := [] }) hsender hwire
    (by simp [Peers.given])
  refine { hold with transmitted := fun f hf => ?_, given := fun f hf p hp hd => ?_ }
  · rcases List.mem_append.mp (hgiven ▸ hf) with hf | hf
    · exact hwire ▸ h.transmitted f hf
    · exact ⟨D, hwire ▸ hD, hf⟩
  · rw [hgiven]
    rcases List.mem_append.mp (hgiven ▸ hf) with hf | hf
    · obtain ⟨g, hg, hbody⟩ := h.given f hf p (hsender ▸ hp) hd
      exact ⟨g, List.mem_append_left _ hg, hbody⟩
    · obtain ⟨g, hg, hbody⟩ := h.wire D hD f hf p (hsender ▸ hp) hd
      exact ⟨g, List.mem_append_right _ hg, hbody⟩

theorem Intact.sequence (h : Intact B mtu l) {f : QueuedFrame} (hf : f ∈ l.given) :
    f.frame.sequenceNumber = f.datagram % 16777216 := by
  obtain ⟨D, hD, hmem⟩ := h.transmitted f hf
  exact (h.numbered D hD f hmem).sequence

/-- **The receiver acknowledges the datagram of a frame that it takes.** -/
theorem receive_acks {q q' : RecvQ} {frame : FrameSetPacket} (hs : frame.sequenceNumber < 16777216)
    (hq : Indexes.Ordered q.sequenceNumberAckset.ack) (hinsert : q.insert frame = (.ok (), q')) :
    Indexes.Ordered q'.flushInto.2.sequenceNumberAckset.ack ∧
      ∀ x, Covers q'.flushInto.2.sequenceNumberAckset.ack x ↔
        Covers q.sequenceNumberAckset.ack x ∨ x = frame.sequenceNumber := by
  obtain ⟨r, hr⟩ := reliability_of_insert hinsert
  have hset := insert_acks (q := q) hr
  rw [hinsert] at hset
  have hacks : q'.flushInto.2.sequenceNumberAckset.ack =
      AckSet.insertAck frame.sequenceNumber q.sequenceNumberAckset.ack := by
    show q'.sequenceNumberAckset.ack = _
    rw [show q'.sequenceNumberAckset = _ from hset, insert_ack]
  rw [hacks]
  exact insertAck_spec hs hq

end receiver

/-! ### Acknowledgements -/

section acknowledgements

variable {B : Build} {mtu : Fin 65536} {l : Loop}

theorem sound_new (B : Build) (mtu : Fin 65536) : Sound B mtu (.new mtu) where
  intact := by
    refine ⟨⟨[], rfl, fun before hbefore p hp => ?_⟩, fun _ hD => (List.not_mem_nil hD).elim,
      fun _ hp => (List.not_mem_nil hp).elim, fun _ hD => (List.not_mem_nil hD).elim,
      fun _ hf => (List.not_mem_nil hf).elim, fun _ hf => (List.not_mem_nil hf).elim⟩
    rw [List.prefix_nil.mp hbefore] at hp
    exact (List.not_mem_nil hp).elim
  ordered _ hr := (List.not_mem_nil hr).elim
  acks _ hx := absurd hx covers_nil
  fresh _ hd := (List.not_mem_nil hd).elim
  lengths := rfl
  named _ _ h := nomatch h
  honest _ ht := (List.not_mem_nil ht).elim

/-- An operation of the sender that acknowledges nothing but what has arrived. -/
theorem Sound.send (h : Sound B mtu l) (op : Op)
    (hwindow : (l.peers.send B op).sender.queue.Windowed)
    (hop : ∀ p ∈ l.peers.sender.queue.sentPacket, ∀ d ∈ p.datagrams,
      op.Acknowledges (d % 16777216) → ∃ g ∈ l.peers.arrived, g.body = p.packet.body) :
    Sound B mtu ⟨l.peers.send B op, l.fresh, l.named⟩ := by
  have hrest : (l.peers.send B op).receiver = l.peers.receiver ∧
      (l.peers.send B op).control = l.peers.control := by
    unfold Peers.send
    split <;> exact ⟨rfl, rfl⟩
  have harrived := (send_given (B := B) (l := l.peers) op).2
  have hintact := h.intact.send op hwindow
  have hhonest := honest_send h.intact h.honest op hop
  have hlanded := fun d => h.intact.landed_send (d := d) op
  generalize l.peers.send B op = r at *
  obtain ⟨hreceiver, hcontrol⟩ := hrest
  refine ⟨hintact, hreceiver ▸ h.ordered, hreceiver ▸ h.acks, harrived ▸ h.fresh, hcontrol ▸ h.lengths,
    fun i ranges hi => ?_, hhonest⟩
  obtain ⟨ds, hds, hcovers, hall⟩ := h.named i ranges (hcontrol ▸ hi)
  exact ⟨ds, hds, hcovers, fun d hd => hlanded d (hall d hd)⟩

/-- **An acknowledgement of the receiver** names frames in flight only when they have arrived. -/
theorem Sound.acknowledges (h : Sound B mtu l) {i : ℕ} {ranges : List (ℕ × ℕ)} {tick : ℤ}
    (hi : l.peers.control[i]? = some (Control.ack ranges)) (hadmits : l.Admits (.feedback i tick)) :
    ∀ p ∈ l.peers.sender.queue.sentPacket, ∀ d ∈ p.datagrams,
      SendQ.inRanges ranges (d % 16777216) = true → ∃ g ∈ l.peers.arrived, g.body = p.packet.body := by
  intro p hp d hd hin
  obtain ⟨ds, hds, hcovers, hlanded⟩ := h.named i ranges hi
  obtain ⟨ops, hops, hwindows⟩ := h.intact.sender
  have hnumbered := flight_numbered B mtu ops
  have hwindow := hwindows ops List.prefix_rfl
  rw [← hops] at hnumbered hwindow
  have hcovered : Covers ranges (d % 16777216) := by
    simpa [SendQ.inRanges, Covers] using hin
  obtain ⟨d', hd', he⟩ := hcovers _ hcovered
  have hadmitted : l.peers.sender.queue.allocated ≤ d' + 16777216 :=
    hadmits d' (by rw [hds]; exact hd')
  obtain ⟨⟨D, hD, f, hf, hnumber⟩, hlands⟩ := hlanded d' hd'
  have hborn := hwindow p hp
  have hle := (hnumbered p hp).born_le d hd
  have hd_lt := (hnumbered p hp).datagrams_lt d hd
  have hd'_lt := (h.intact.numbered D hD f hf).lt
  obtain rfl : d' = d := eq_of_window (hnumber ▸ hd'_lt) hd_lt hadmitted (by omega) he
  exact hlands p hp hd

theorem Sound.receive (h : Sound B mtu l) (hlinked : Linked B mtu l.peers)
    (hok : (l.peers.step B .receive).failed = false) : Sound B mtu (l.step B .receive) := by
  have hbefore := failed_step .receive hok
  have hincoming : l.incoming = (l.peers.inbox.head?.map fun x => x.2.datagram).toList := by
    simp [Loop.incoming, hbefore]
  rcases hinbox : l.peers.inbox with _ | ⟨⟨frame, f⟩, inbox⟩
  · have hstep : l.step B .receive = l := by
      unfold Loop.step Loop.freshAfter Loop.namedAfter Peers.step
      simp [hincoming, hinbox]
    rwa [hstep]
  · have hpeers : l.peers.step B .receive = Peers.insert { l.peers with inbox } frame f := by
      simp [Peers.step, hinbox, hbefore]
    rcases hinsert : l.peers.receiver.insert frame with ⟨e | ⟨⟩, q⟩
    · rw [hpeers, Peers.insert] at hok
      simp [hinsert] at hok
    have hpeers' : l.peers.step B .receive = { l.peers with
        inbox
        receiver := q.flushInto.2
        released := l.peers.released ++ q.flushInto.1
        arrived := l.peers.arrived ++ [f] } := by
      rw [hpeers, Peers.insert]
      simp [hinsert]
    have hstep : l.step B .receive = ⟨{ l.peers with
        inbox
        receiver := q.flushInto.2
        released := l.peers.released ++ q.flushInto.1
        arrived := l.peers.arrived ++ [f] }, l.fresh ++ [f.datagram], l.named⟩ := by
      unfold Loop.step Loop.freshAfter Loop.namedAfter
      simp [hpeers', hincoming, hinbox]
    have hgiven : f ∈ l.peers.given := by simp [Peers.given, hinbox]
    have hsequence : frame.sequenceNumber = f.datagram % 16777216 := by
      have hboxed := (hlinked.inbox (frame, f) (by simp [hinbox])).decoded
      simp only at hboxed
      rw [hboxed]
      exact h.intact.sequence hgiven
    obtain ⟨hordered, hcovers⟩ := receive_acks (by omega) h.ordered hinsert
    rw [hstep]
    refine ⟨h.intact.congr rfl rfl ?_, hordered, fun x hx => ?_, fun d hd => ?_, h.lengths,
      fun i ranges hi => ?_, fun t ht => ?_⟩
    · simp [Peers.given, hinbox]
    · rcases (hcovers x).mp hx with hx | rfl
      · obtain ⟨d, hd, he⟩ := h.acks x hx
        exact ⟨d, by simp [hd], he⟩
      · exact ⟨f.datagram, by simp, hsequence.symm⟩
    · rcases List.mem_append.mp hd with hd | hd
      · obtain ⟨g, hg, he⟩ := h.fresh d hd
        exact ⟨g, List.mem_append_left _ hg, he⟩
      · exact ⟨f, by simp, (List.mem_singleton.mp hd).symm⟩
    · obtain ⟨ds, hds, hcovered, hlanded⟩ := h.named i ranges hi
      exact ⟨ds, hds, hcovered, fun d hd =>
        (hlanded d hd).congr rfl rfl fun g hg => List.mem_append_left _ hg⟩
    · obtain ⟨g, hg, he⟩ := h.honest t ht
      exact ⟨g, List.mem_append_left _ hg, he⟩

theorem Sound.named_snoc (h : Sound B mtu l) {r : Peers} {packet : Control} {ds : List ℕ}
    (hsender : r.sender = l.peers.sender) (hwire : r.wire = l.peers.wire)
    (harrived : r.arrived = l.peers.arrived) (hcontrol : r.control = l.peers.control ++ [packet])
    (hpacket : ∀ ranges, packet = .ack ranges →
      (∀ x, Covers ranges x → ∃ d ∈ ds, d % 16777216 = x) ∧ ∀ d ∈ ds, l.peers.Landed d)
    (i : ℕ) (ranges : List (ℕ × ℕ)) (hi : r.control[i]? = some (Control.ack ranges)) :
    ∃ ds', (l.named ++ [ds])[i]? = some ds' ∧
      (∀ x, Covers ranges x → ∃ d ∈ ds', d % 16777216 = x) ∧ ∀ d ∈ ds', r.Landed d := by
  have hlanded : ∀ {d}, l.peers.Landed d → r.Landed d := fun hd =>
    hd.congr hsender hwire fun g hg => harrived ▸ hg
  rw [hcontrol, List.getElem?_append] at hi
  rw [List.getElem?_append, h.lengths]
  split_ifs at hi ⊢ with hlt
  · obtain ⟨ds', hds, hcovers, hall⟩ := h.named i ranges hi
    exact ⟨ds', hds, hcovers, fun d hd => hlanded (hall d hd)⟩
  · rw [List.getElem?_singleton] at hi ⊢
    split_ifs at hi ⊢ with hzero
    obtain ⟨hcovers, hall⟩ := hpacket ranges (Option.some.inj hi)
    exact ⟨ds, rfl, hcovers, fun d hd => hlanded (hall d hd)⟩

/-- **One action of the closed loop.** -/
theorem Sound.step (h : Sound B mtu l) (hlinked : Linked B mtu l.peers) (a : Action)
    (hadmits : l.Admits a) (hwindow : (l.step B a).peers.sender.queue.Windowed)
    (hok : (l.step B a).peers.failed = false) : Sound B mtu (l.step B a) := by
  cases a with
  | send op =>
    refine h.send op hwindow fun p hp d hd hack => ?_
    cases op with
    | ack | ackRanges => exact absurd hadmits id
    | _ => exact absurd hack id
  | arrive i =>
    rcases hi : l.peers.wire[i]? with _ | D
    · have hstep : l.step B (.arrive i) = l := by
        simp [Loop.step, Peers.step, hi, Loop.freshAfter, Loop.namedAfter]
      rwa [hstep]
    · have hD := List.mem_of_getElem? hi
      have hdecodes := (hlinked.wire D hD).decodes
      have hstep : l.step B (.arrive i) = ⟨l.peers.arrive D, l.fresh, l.named⟩ := by
        simp [Loop.step, Peers.step, hi, Loop.freshAfter, Loop.namedAfter]
      have hintact := h.intact.arrive hD hdecodes
      rw [hstep]
      unfold Peers.arrive at hintact ⊢
      rw [hdecodes] at hintact ⊢
      exact { h with intact := hintact }
  | receive => exact h.receive hlinked hok
  | takeAck =>
    have hempty : l.peers.inbox = [] := hadmits
    have hgiven : l.peers.given = l.peers.arrived := by simp [Peers.given, hempty]
    refine ⟨h.intact.congr rfl rfl rfl, fun _ hr => (List.not_mem_nil hr).elim,
      fun _ hx => absurd hx covers_nil, fun _ hd => (List.not_mem_nil hd).elim, ?_, ?_, h.honest⟩
    · simp [Loop.step, Peers.step, Loop.namedAfter, h.lengths]
    · refine h.named_snoc rfl rfl rfl rfl fun ranges hranges => ?_
      obtain rfl := Control.ack.inj hranges
      refine ⟨h.acks, fun d hd => ?_⟩
      obtain ⟨f, hf, rfl⟩ := h.fresh d hd
      have hmem : f ∈ l.peers.given := hgiven ▸ hf
      exact ⟨h.intact.transmitted_given hmem, hgiven ▸ h.intact.given f hmem⟩
  | takeNack =>
    refine ⟨h.intact.congr rfl rfl rfl, h.ordered, h.acks, h.fresh, ?_, ?_, h.honest⟩
    · simp [Loop.step, Peers.step, Loop.namedAfter, h.lengths]
    · exact h.named_snoc rfl rfl rfl rfl fun ranges hranges => Control.noConfusion hranges
  | feedback i tick =>
    rcases hi : l.peers.control[i]? with _ | packet
    · have hstep : l.step B (.feedback i tick) = l := by
        simp [Loop.step, Peers.step, hi, Loop.freshAfter, Loop.namedAfter]
      rwa [hstep]
    · have hstep : l.step B (.feedback i tick) =
          ⟨l.peers.send B (packet.op tick), l.fresh, l.named⟩ := by
        simp [Loop.step, Peers.step, hi, Loop.freshAfter, Loop.namedAfter]
      rw [hstep] at hwindow ⊢
      refine h.send _ hwindow ?_
      cases packet with
      | ack ranges => exact h.acknowledges hi hadmits
      | nack ranges => exact fun p hp d hd hack => absurd hack id

end acknowledgements

/-! ### Nothing is lost -/

section lost

variable {B : Build} {mtu : Fin 65536}

/-- **The closed loop.** As long as no insertion has failed and no frame is received that is half a
turn behind, the frames that the sender has retired have arrived. So what holds of every
`CurrentRun`, delivery at most once and exact reassembly, holds of every closed run. -/
theorem closed_run {actions : List Action} (hclosed : ClosedRun B mtu actions)
    (hcurrent : Always B mtu (fun l a => a = .receive → l.Current ((mtu : ℕ) - 60)) actions)
    (hok : (runPeers B mtu actions).failed = false) :
    CurrentRun B mtu actions ∧ Sound B mtu (runLoop B mtu actions) := by
  induction actions using List.reverseRecOn with
  | nil => exact ⟨fun before a after he => by simp at he, sound_new B mtu⟩
  | append_singleton actions a ih =>
    obtain ⟨hcurrent, hlast⟩ := hcurrent.init
    obtain ⟨hclosed, hadmits, hwindow⟩ := Lib.Machine.Always.init hclosed
    rw [runPeers_append] at hok
    have hok' := failed_step a hok
    obtain ⟨hrun, hsound⟩ := ih hclosed hcurrent hok'
    have hlinked := linked_run B mtu actions (timely_of_current B mtu actions hrun hok')
    have hhonest := hsound.honest
    rw [runLoop_peers] at hhonest
    refine ⟨.concat hrun fun ha => ⟨hhonest, hlast ha⟩, ?_⟩
    rw [runLoop_append]
    rw [← runLoop_peers] at hlinked hok
    exact hsound.step hlinked a hadmits hwindow hok

/-- A frame of a reliable message has arrived, or the sender has it. -/
theorem Linked.arrived_or_held {l : Peers} (h : Linked B mtu l) (hhonest : l.Honest) {k : ℕ}
    {m : Message} (hk : l.log[k]? = some m) (hr : m.reliability.isReliable = true) {i : ℕ}
    (hi : i < m.count ((mtu : ℕ) - 60)) :
    (∃ f ∈ l.arrived, f.message = k ∧ f.frame.fragmentIndex = i) ∨
      ∃ f ∈ l.sender.ledger.held, f.message = k ∧ f.frame.fragmentIndex = i := by
  have hpos := (h.admissible m (List.mem_of_getElem? hk)).pos
  rw [← h.mem_taken hk hr hi]
  refine or_iff_not_imp_left.mpr fun hmissing => ?_
  -- the position is that of a frame of the log
  have hrange := List.mem_range.mpr (position_lt hpos hk hr hi)
  rw [← accepted_position, List.mem_map] at hrange
  obtain ⟨g, hg, hposition⟩ := hrange
  obtain ⟨hg, hreliable⟩ := List.mem_filter.mp hg
  have hheld := h.held_of_missing hhonest hg hreliable (hposition ▸ hmissing)
  refine ⟨g, hheld, ?_⟩
  have hbody : g.body = g := by
    rw [held_bodies] at hheld
    obtain ⟨f, -, rfl⟩ := mem_bodies.mp hheld
    rfl
  rw [← hbody] at hg
  obtain ⟨m', hk', hadm, hcarries, hr'⟩ := (boxed_asDecoded hg).carries h.admissible
  exact position_inj hpos hk' (hr'.symm.trans hreliable) hk hr hcarries.lt hi hposition

/-- Two messages, the first of which is lost once: it is reported missing, sent again and
acknowledged. -/
def reported : List Action :=
  [.send (.insert ⟨.reliableOrdered, primaryChannel, [0xfe, 1], false⟩),
    .send (.insert ⟨.reliableOrdered, primaryChannel, [0xfe, 2], false⟩), .send (.flush 0),
    .arrive 1, .receive, .takeAck, .takeNack, .feedback 0 10, .feedback 1 10, .send (.flush 20),
    .arrive 1, .arrive 2, .receive, .receive, .takeAck, .feedback 0 30, .feedback 2 30]

end lost

end RustRaknet.Link
