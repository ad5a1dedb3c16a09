import RustRaknet.Link.Deliver
import RustRaknet.Link.Sender

/-! # Two peers and a network

A send queue, a receive queue and the datagrams between them. Every burst is transmitted as
`transmit_frames` does. The network keeps every datagram ever transmitted and may let any of them
arrive, at any time and any number of times: dropping, duplicating and reordering are choices of
actions. A datagram that arrives is decoded; its frames are inserted one by one, with a flush after
each, as the receive worker does, until an insertion fails, which closes the connection.

A datagram carries, as a ghost, the frames of the send queue it was made of, so that it can be said
which frames have arrived. The acknowledgements the receiver takes out of its queue travel back in
the same way; but the send queue may also be given any other acknowledgement. -/

namespace RustRaknet.Link

open RustRaknet.Send RustRaknet.Frame RustRaknet.Codec RustRaknet.Recv RustRaknet.Lib.Serial
open RustRaknet.Socket (transmitFrames)

/-! ### The system -/

/-- A datagram, with the frames it was made of. -/
structure Datagram where
  bytes : Bytes
  frames : List QueuedFrame

/-- The loop of `transmit_frames`, which ends at the first group that has no encoding. -/
def encode : List (List QueuedFrame) → List Datagram
  | [] => []
  | g :: gs =>
    match serializeGroupInto (g.map QueuedFrame.frame) with
    | .ok bytes => ⟨bytes, g⟩ :: encode gs
    | .error _ => []

/-- An ACK or a NACK packet. -/
inductive Control
  | ack (ranges : List (ℕ × ℕ))
  | nack (ranges : List (ℕ × ℕ))

/-- The operation of the send queue on a control packet. -/
def Control.op (tick : ℤ) : Control → Op
  | .ack ranges => .ackRanges ranges tick
  | .nack ranges => .nackRanges ranges tick

/-- The two peers and what is between them. -/
structure Peers where
  sender : Run
  wire : List Datagram
  receiver : RecvQ
  inbox : List (FrameSetPacket × QueuedFrame)
  arrived : List QueuedFrame
  released : List FrameSetPacket
  failed : Bool
  control : List Control

/-- A new connection. -/
def Peers.new (mtu : Fin 65536) : Peers := ⟨Run.new mtu, [], RecvQ.new, [], [], [], false, []⟩

/-- What may happen: an operation of the sender, the arrival of a datagram, the insertion of the next
decoded frame, and the acknowledgements on their way back. -/
inductive Action
  | send (op : Op)
  | arrive (i : ℕ)
  | receive
  | takeAck
  | takeNack
  | feedback (i : ℕ) (tick : ℤ)

namespace Peers

variable (B : Build) (l : Peers)

/-- An operation of the sender; a burst is transmitted. -/
def send (op : Op) : Peers :=
  match op with
  | .flush tick =>
    let sender := l.sender.step B (.flush tick)
    { l with sender, wire := l.wire ++ encode (transmitFrames sender.output) }
  | op => { l with sender := l.sender.step B op }

/-- A datagram arrives; one that cannot be decoded is ignored. -/
def arrive (d : Datagram) : Peers :=
  match decodeInto d.bytes with
  | .ok frames => { l with inbox := l.inbox ++ frames.zip d.frames }
  | .error _ => l

/-- The insertion of a frame, and the flush. -/
def insert (frame : FrameSetPacket) (f : QueuedFrame) : Peers :=
  match l.receiver.insert frame with
  | (.ok (), q) =>
    { l with
      receiver := q.flushInto.2
      released := l.released ++ q.flushInto.1
      arrived := l.arrived ++ [f] }
  | (.error _, q) => { l with receiver := q, arrived := l.arrived ++ [f], failed := true }

/-- One action. -/
def step : Action → Peers
  | .send op => l.send B op
  | .arrive i =>
    match l.wire[i]? with
    | some d => l.arrive d
    | none => l
  | .receive =>
    match l.inbox with
    | [] => l
    | (frame, f) :: inbox =>
      if l.failed then { l with inbox } else ({ l with inbox } : Peers).insert frame f
  | .takeAck =>
    { l with
      receiver := l.receiver.takeAckInto.2
      control := l.control ++ [.ack l.receiver.takeAckInto.1] }
  | .takeNack =>
    { l with
      receiver := l.receiver.takeNackInto.2
      control := l.control ++ [.nack l.receiver.takeNackInto.1] }
  | .feedback i tick =>
    match l.control[i]? with
    | some packet => l.send B (packet.op tick)
    | none => l

/-- The messages accepted by the sender. -/
abbrev log : List Message := l.sender.queue.log

/-- The positions of the reliable frames that have arrived. -/
def taken (limit : ℕ) : Finset ℕ :=
  ((l.arrived.filter QueuedFrame.isReliable).map (QueuedFrame.position limit l.log)).toFinset

/-- The frame, if it is reliable, is within half a turn of the first reliable frame that has not
arrived. -/
abbrev InReach (limit : ℕ) (f : QueuedFrame) : Prop :=
  f.isReliable = true → mex (l.taken limit) ≤ f.position limit l.log + 8388608 ∧
    f.position limit l.log < mex (l.taken limit) + 8388608

/-- The next frame of the inbox is in reach. -/
def Timely (limit : ℕ) : Prop := ∀ x ∈ l.inbox.head?, l.InReach limit x.2

end Peers

/-- The peers after the given actions. -/
abbrev runPeers (B : Build) (mtu : Fin 65536) (actions : List Action) : Peers :=
  Lib.Machine.run (Peers.step B) (.new mtu) actions

theorem runPeers_append (B : Build) (mtu : Fin 65536) (actions : List Action) (a : Action) :
    runPeers B mtu (actions ++ [a]) = (runPeers B mtu actions).step B a :=
  Lib.Machine.run_append _ _ actions a

/-- The condition `P` holds whenever an action of the run is taken. -/
abbrev Always (B : Build) (mtu : Fin 65536) (P : Peers → Action → Prop) (actions : List Action) :
    Prop :=
  Lib.Machine.Always (Peers.step B) (.new mtu) P actions

/-! ### Longer logs -/

section extend

variable {limit : ℕ} {log : List Message}

theorem accepted_extend {f : QueuedFrame} (h : f ∈ accepted limit log) (more : List Message) :
    f ∈ accepted limit (log ++ more) := by
  induction more using List.reverseRecOn with
  | nil => simpa using h
  | append_singleton more m ih =>
    rw [← List.append_assoc, accepted_append]
    exact List.mem_append_left _ ih

theorem Receives.extend {A : Finset ℕ} {q : RecvQ} {released : List FrameSetPacket}
    (h : Receives limit log A q released) (more : List Message) (hpos : more ≠ [] → 0 < limit) :
    Receives limit (log ++ more) A q released := by
  induction more using List.reverseRecOn with
  | nil => simpa using h
  | append_singleton more m ih =>
    have hpos' := hpos (by simp)
    rw [← List.append_assoc]
    exact (ih fun _ => hpos').append hpos' m

theorem position_extend {f : QueuedFrame} (h : f.message < log.length) (more : List Message) :
    f.position limit (log ++ more) = f.position limit log := by
  unfold QueuedFrame.position
  rw [List.take_append_of_le_length h.le]

theorem steps_log {L L' : Ledger} (h : Ledger.Steps L L') (hlanes : L.Lanes) :
    ∃ more, L'.log = L.log ++ more ∧ (more ≠ [] → 0 < L.limit) := by
  have := Ledger.Steps.preserves (I := fun L' => L'.Lanes ∧ L'.limit = L.limit ∧
    ∃ more, L'.log = L.log ++ more ∧ (more ≠ [] → 0 < L.limit)) ?_ h
    ⟨hlanes, rfl, [], by simp, fun h => absurd rfl h⟩
  · exact this.2.2
  · rintro L₁ L₂ hstep ⟨hl, hlimit, more, hmore, hpos⟩
    refine ⟨hl.step hstep, hstep.limit_eq.trans hlimit, ?_⟩
    cases hstep.effect hl with
    | stay _ _ hlog | emit _ _ _ _ hlog | retire _ _ _ hlog => exact ⟨more, hlog.trans hmore, hpos⟩
    | accept m hadm _ _ hlog =>
      refine ⟨more ++ [m], ?_, fun _ => hlimit ▸ hadm.limit_pos⟩
      rw [hlog, hmore, List.append_assoc]

theorem step_extends (B : Build) (mtu : Fin 65536) (ops : List Op) (op : Op) :
    ∃ more, ((run B mtu ops).step B op).queue.log = (run B mtu ops).queue.log ++ more ∧
      (more ≠ [] → 0 < (mtu : ℕ) - 60) := by
  have hsteps := (step_steps (B := B) (run B mtu ops) op (run_steps B mtu ops).1).2
  obtain ⟨more, hmore, hpos⟩ := steps_log hsteps (conserved_run B mtu ops).1
  refine ⟨more, hmore, fun hne => ?_⟩
  have := hpos hne
  rwa [run_mtu] at this

end extend

/-! ### The sender of a run -/

/-- An action is at most one operation of the sender. -/
theorem step_sender (B : Build) (l : Peers) (a : Action) :
    (l.step B a).sender = l.sender ∨ ∃ op, (l.step B a).sender = l.sender.step B op := by
  have hsend : ∀ op, (l.send B op).sender = l.sender.step B op := fun op => by
    unfold Peers.send
    split <;> rfl
  cases a with
  | send op => exact .inr ⟨op, hsend op⟩
  | arrive i =>
    left
    simp only [Peers.step]
    split
    · unfold Peers.arrive
      split <;> rfl
    · rfl
  | receive =>
    left
    simp only [Peers.step]
    split
    · rfl
    · split_ifs
      · rfl
      · unfold Peers.insert
        split <;> rfl
  | takeAck | takeNack => exact .inl rfl
  | feedback i tick =>
    simp only [Peers.step]
    split
    · exact .inr ⟨_, hsend _⟩
    · exact .inl rfl

theorem runPeers_sender (B : Build) (mtu : Fin 65536) (actions : List Action) :
    ∃ ops, (runPeers B mtu actions).sender = run B mtu ops := by
  induction actions using List.reverseRecOn with
  | nil => exact ⟨[], rfl⟩
  | append_singleton actions a ih =>
    obtain ⟨ops, hops⟩ := ih
    rw [runPeers_append]
    rcases step_sender B (runPeers B mtu actions) a with he | ⟨op, he⟩
    · exact ⟨ops, he.trans hops⟩
    · exact ⟨ops ++ [op], by rw [he, hops, run_append]⟩

theorem runPeers_log (B : Build) (mtu : Fin 65536) (actions : List Action) (a : Action) :
    ∃ more, (runPeers B mtu (actions ++ [a])).log = (runPeers B mtu actions).log ++ more := by
  obtain ⟨ops, hops⟩ := runPeers_sender B mtu actions
  rw [runPeers_append]
  rcases step_sender B (runPeers B mtu actions) a with he | ⟨op, he⟩
  · exact ⟨[], by rw [Peers.log, he, List.append_nil]⟩
  · obtain ⟨more, hmore, -⟩ := step_extends B mtu ops op
    exact ⟨more, by rw [Peers.log, he, Peers.log, hops, hmore]⟩

end RustRaknet.Link
