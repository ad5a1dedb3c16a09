import RustRaknet.Lib.Runs
import RustRaknet.Send.Acknowledge

/-! # Transmission

`socket.rs`: which frames of a burst travel in one UDP datagram. A burst is handed to
`transmit_frames`, to `transmit_replies` or, from the maintenance task, to
`transmit_maintenance_frames`; the last exists only with `recovery-policy`, and without it the
maintenance task sends every frame in a datagram of its own.

An acknowledgement names a sequence number, so the frames that share one must travel together. The
queue gives a burst its frames so that those of one number are next to each other, and sets
`coalesced` when there are several (`Ledger.Placed`); the first two paths then keep them together,
and the third does if it is there. -/

namespace RustRaknet.Socket

open RustRaknet.Send RustRaknet.Send.Ledger RustRaknet.Lib.Runs

/-! ### The paths -/

/-- Every frame in a datagram of its own. -/
def alone (o : OutgoingFrames) : List (List QueuedFrame) := o.frames.map fun f => [f]

/-- `RaknetSocket::transmit_frames`: the datagrams it sends, frame by frame or, if the burst is
coalesced, one for each run of equal sequence numbers. -/
def transmitFrames (o : OutgoingFrames) : List (List QueuedFrame) :=
  if o.frames.length ≤ 1 then alone o
  else if o.coalesced then runs (fun f : QueuedFrame => f.frame.sequenceNumber) o.frames
  else alone o

/-- `RaknetSocket::transmit_replies`; `bulk` says that the task for large bursts is running. -/
def transmitReplies (bulk : Bool) (o : OutgoingFrames) : List (List QueuedFrame) :=
  if o.coalesced then transmitFrames o
  else if !bulk && decide (o.frames.length ≤ 8) && o.frames.all fun f => !f.frame.isFragment then
    transmitFrames o
  else alone o

/-- `RaknetSocket::transmit_maintenance_frames`. -/
def transmitMaintenanceFrames (o : OutgoingFrames) : List (List QueuedFrame) :=
  if o.coalesced then transmitFrames o else alone o

/-- The three ways a burst is transmitted. -/
inductive Path
  | frames
  | replies (bulk : Bool)
  | maintenance
  deriving DecidableEq, Repr

/-- The datagrams of a burst. -/
def place (B : Build) (o : OutgoingFrames) : Path → List (List QueuedFrame)
  | .frames => transmitFrames o
  | .replies bulk => transmitReplies bulk o
  | .maintenance => if B.recoveryPolicy then transmitMaintenanceFrames o else alone o

end RustRaknet.Socket

namespace RustRaknet.Send.Ledger

open RustRaknet.Lib.Runs

/-! ### The numbers of a burst -/

/-- The numbers of a burst and of the frames that wait to join it. -/
structure Placed (L : Ledger) : Prop where
  apart : L.flight.Pairwise fun p p' => p.sent = false ∨ p'.sent = false →
    p.packet.datagram ≠ p'.packet.datagram
  waiting : ∀ p ∈ L.flight, p.sent = false → ∀ f ∈ L.outbox, f.datagram ≠ p.packet.datagram
  contiguous : Contiguous QueuedFrame.datagram L.outbox
  single : L.packed = false → (L.outbox.map QueuedFrame.datagram).Nodup

theorem Placed.concat {L : Ledger} (h : L.Placed) {f : QueuedFrame}
    (hf : ∀ g ∈ L.outbox, g.datagram ≠ f.datagram) :
    Contiguous QueuedFrame.datagram (L.outbox ++ [f]) ∧
      (L.packed = false → ((L.outbox ++ [f]).map QueuedFrame.datagram).Nodup) := by
  refine ⟨h.contiguous.concat (.inl hf), fun hp => ?_⟩
  rw [List.map_append, List.map_singleton, List.nodup_append]
  refine ⟨h.single hp, List.nodup_singleton _, fun a ha b hb => ?_⟩
  obtain ⟨g, hg, rfl⟩ := List.mem_map.mp ha
  rw [List.mem_singleton.mp hb]
  exact hf g hg

theorem waiting_concat {outbox : List QueuedFrame} {f : QueuedFrame} {d : ℕ}
    (h : ∀ g ∈ outbox, g.datagram ≠ d) (hf : f.datagram ≠ d) :
    ∀ g ∈ outbox ++ [f], g.datagram ≠ d := by
  intro g hg
  obtain hg | rfl := Lib.mem_snoc.mp hg
  · exact h g hg
  · exact hf

theorem Placed.step {L L' : Ledger} (hstep : Step L L') (hn : L.Numbered) (h : L.Placed) :
    L'.Placed := by
  have hflight : ∀ p ∈ L.flight, p.packet.datagram < L.allocated := fun p hp =>
    (hn.flight p hp).packet.lt
  have houtbox : ∀ f ∈ L.outbox, f.datagram < L.allocated := fun f hf => (hn.outbox f hf).lt
  have hfresh : ∀ g ∈ L.outbox, g.datagram ≠ L.allocated := fun g hg => (houtbox g hg).ne
  have hsymm : ∀ {p p' : InFlight}, (p.sent = false ∨ p'.sent = false →
      p.packet.datagram ≠ p'.packet.datagram) → (p'.sent = false ∨ p.sent = false →
      p'.packet.datagram ≠ p.packet.datagram) := fun h hs => (h hs.symm).symm
  cases hstep with
  | acceptReliable | acceptUnreliable | acceptScheduled | acceptNumbered | migrate | rotate
  | ungroup => exact { h with }
  | burst => exact ⟨h.apart, fun _ _ _ f hf => (List.not_mem_nil hf).elim, .nil,
      fun _ => List.nodup_nil⟩
  | @renumber i p hp hsent =>
    obtain ⟨others, hothers, -, hexchange⟩ := pairwise_exchange hsymm h.apart hp (L.renumbered p)
    refine ⟨hexchange fun p' hp' _ => (hflight p' (hothers p' hp').1).ne', fun p' hp' hs => ?_,
      h.contiguous, h.single⟩
    · rcases List.mem_or_eq_of_mem_set hp' with hp' | rfl
      · exact h.waiting p' hp' hs
      · exact hfresh
  | @resend i p hp hsent =>
    obtain ⟨others, hothers, hmem, hexchange⟩ :=
      pairwise_exchange hsymm h.apart hp { p with sent := true }
    obtain ⟨hcont, hsingle⟩ := h.concat (h.waiting p (List.mem_of_getElem? hp) hsent)
    refine ⟨hexchange fun p' hp' _ => (hothers p' hp').2 (.inl hsent), fun p' hp' hs => ?_, hcont,
      hsingle⟩
    rcases hmem p' hp' with rfl | hp'
    · cases hs
    · obtain ⟨hin, hapart⟩ := hothers p' hp'
      exact waiting_concat (h.waiting p' hin hs) (hapart (.inl hsent))
  | @launch f rest hp hf =>
    obtain ⟨hcont, hsingle⟩ := h.concat (f := L.fresh f) hfresh
    refine ⟨?_, fun p' hp' hs => ?_, hcont, hsingle⟩
    · exact Lib.pairwise_snoc.mpr ⟨h.apart, fun p hp _ => (hflight p hp).ne⟩
    · obtain hp' | rfl := Lib.mem_snoc.mp hp'
      · exact waiting_concat (h.waiting p' hp' hs) (hflight p' hp').ne'
      · cases hs
  | @join f g rest hp hf hg =>
    have hgmem := List.mem_of_getLast? hg
    refine ⟨?_, fun p' hp' hs => ?_, h.contiguous.concat (.inr ⟨g, hg, rfl⟩), fun hp => by cases hp⟩
    · refine Lib.pairwise_snoc.mpr ⟨h.apart, fun p hp hs => ?_⟩
      rcases hs with hs | hs
      · exact (h.waiting p hp hs g hgmem).symm
      · cases hs
    · obtain hp' | rfl := Lib.mem_snoc.mp hp'
      · exact waiting_concat (h.waiting p' hp' hs) (h.waiting p' hp' hs g hgmem)
      · cases hs
  | @emit f rest hp hf | @emitScheduled f rest hp =>
    obtain ⟨hcont, hsingle⟩ := h.concat (f := L.fresh f) hfresh
    exact ⟨h.apart, fun p' hp' hs => waiting_concat (h.waiting p' hp' hs) (hflight p' hp').ne',
      hcont, hsingle⟩
  | retire hp hid =>
    exact ⟨h.apart.sublist (List.eraseIdx_sublist _ _),
      fun p hp => h.waiting p (List.mem_of_mem_eraseIdx hp), h.contiguous, h.single⟩
  | sort hperm =>
    exact ⟨(hperm.pairwise_iff hsymm).mpr h.apart, fun p hp => h.waiting p (hperm.mem_iff.mp hp),
      h.contiguous, h.single⟩
  | @probe s flight hout hall hperm =>
    have hsent : ∀ p ∈ flight, p.sent = true ∧ p.packet.datagram = L.allocated := fun p hp => by
      obtain ⟨p', -, rfl⟩ := List.mem_map.mp (hperm.mem_iff.mp hp)
      exact ⟨rfl, rfl⟩
    have hnone : ∀ p ∈ flight, p.sent ≠ false := fun p hp => by simp [(hsent p hp).1]
    have hconst : ∀ f ∈ flight.map InFlight.packet, f.datagram = L.allocated := fun f hf => by
      obtain ⟨p, hp, rfl⟩ := List.mem_map.mp hf
      exact (hsent p hp).2
    refine ⟨?_, fun p hp hs => absurd hs (hnone p hp), .of_const hconst, fun hlen => ?_⟩
    · refine (List.pairwise_of_forall fun _ _ => trivial).imp_of_mem fun hp hp' _ hs => ?_
      exact (hs.elim (hnone _ hp) (hnone _ hp')).elim
    · -- a probe of one frame is not packed
      have hlength : flight.length = L.flight.length := by simpa using hperm.length_eq
      simp only [decide_eq_false_iff_not, not_lt, ← hlength] at hlen
      rcases flight with _ | ⟨p, _ | ⟨p', l⟩⟩
      · exact List.nodup_nil
      · exact List.nodup_singleton _
      · simp at hlen

end RustRaknet.Send.Ledger

namespace RustRaknet.Socket

open RustRaknet.Send RustRaknet.Send.Ledger RustRaknet.Lib.Runs

theorem placed_run (B : Build) (mtu : Fin 65536) (ops : List Op) :
    (run B mtu ops).ledger.Numbered ∧ (run B mtu ops).ledger.Placed := by
  refine ⟨(numbered_run B mtu ops).1, ?_⟩
  refine (run_preserves (I := fun L => L.Numbered ∧ L.Placed)
    (fun hstep h => ⟨h.1.step hstep, h.2.step hstep h.1⟩) B mtu ⟨?_, ?_⟩ ops).2
  · exact (numbered_run B mtu []).1
  · exact ⟨.nil, fun p hp => (List.not_mem_nil hp).elim, .nil, fun _ => List.nodup_nil⟩

/-! ### The datagrams of a burst -/

/-- The frames of a burst are in its datagrams, in order; a datagram has one sequence number, and no
other datagram has it. -/
structure Together (o : OutgoingFrames) (groups : List (List QueuedFrame)) : Prop where
  all : groups.flatten = o.frames
  one : ∀ g ∈ groups, ∀ f ∈ g, ∀ f' ∈ g, f.frame.sequenceNumber = f'.frame.sequenceNumber
  apart : groups.Pairwise fun g g' => ∀ f ∈ g, ∀ f' ∈ g',
    f.frame.sequenceNumber ≠ f'.frame.sequenceNumber

theorem alone_together {o : OutgoingFrames}
    (h : (o.frames.map fun f => f.frame.sequenceNumber).Nodup) : Together o (alone o) := by
  refine ⟨singles_flatten _, fun g hg f hf f' hf' => ?_, singles_disjoint h⟩
  obtain ⟨f₀, -, rfl⟩ := List.mem_map.mp hg
  rw [List.mem_singleton.mp hf, List.mem_singleton.mp hf']

/-- The sequence numbers of a burst are as its datagram numbers are. -/
structure Sequenced (o : OutgoingFrames) : Prop where
  contiguous : Contiguous (fun f : QueuedFrame => f.frame.sequenceNumber) o.frames
  single : o.coalesced = false → (o.frames.map fun f => f.frame.sequenceNumber).Nodup

theorem transmitFrames_together {o : OutgoingFrames} (h : Sequenced o) :
    Together o (transmitFrames o) := by
  unfold transmitFrames
  split_ifs with hlen hcoalesced
  · refine alone_together ?_
    rcases hl : o.frames with _ | ⟨f, _ | ⟨f', l⟩⟩
    · exact List.nodup_nil
    · exact List.nodup_singleton _
    · simp [hl] at hlen
  · exact ⟨runs_flatten _ _, runs_const _ _, runs_disjoint h.contiguous⟩
  · exact alone_together (h.single (by simpa using hcoalesced))

theorem transmitFrames_runs {o : OutgoingFrames} (h : Sequenced o) :
    transmitFrames o = runs (fun f : QueuedFrame => f.frame.sequenceNumber) o.frames := by
  unfold transmitFrames
  split_ifs with hlen hcoalesced
  · rcases hl : o.frames with _ | ⟨f, _ | ⟨f', l⟩⟩
    · simp [alone, hl, runs]
    · simp [alone, hl, runs]
    · simp [hl] at hlen
  · rfl
  · exact (runs_of_nodup (h.single (by simpa using hcoalesced))).symm

theorem transmitReplies_together {o : OutgoingFrames} (h : Sequenced o) (bulk : Bool) :
    Together o (transmitReplies bulk o) := by
  unfold transmitReplies
  split_ifs with hcoalesced
  · exact transmitFrames_together h
  · exact transmitFrames_together h
  · exact alone_together (h.single (by simpa using hcoalesced))

theorem transmitMaintenanceFrames_together {o : OutgoingFrames} (h : Sequenced o) :
    Together o (transmitMaintenanceFrames o) := by
  unfold transmitMaintenanceFrames
  split_ifs with hcoalesced
  · exact transmitFrames_together h
  · exact alone_together (h.single (by simpa using hcoalesced))

theorem sequenced_of_placed {L : Ledger} (hn : L.Numbered) (hp : L.Placed)
    (hwindow : ∀ f ∈ L.outbox, L.allocated ≤ f.datagram + 16777216) :
    Sequenced ⟨L.outbox, L.packed⟩ := by
  have hsame : ∀ f ∈ L.outbox, ∀ f' ∈ L.outbox,
      f.frame.sequenceNumber = f'.frame.sequenceNumber → f.datagram = f'.datagram := by
    intro f hf f' hf' he
    rw [(hn.outbox f hf).sequence, (hn.outbox f' hf').sequence] at he
    exact eq_of_window (hn.outbox f hf).lt (hn.outbox f' hf').lt (hwindow f hf) (hwindow f' hf') he
  refine ⟨hp.contiguous.congr hsame fun f hf f' hf' he => ?_, fun hpacked => ?_⟩
  · rw [(hn.outbox f hf).sequence, (hn.outbox f' hf').sequence, he]
  · refine List.pairwise_map.mpr ((List.pairwise_map.mp (hp.single hpacked)).imp_of_mem ?_)
    exact fun hf hf' hne he => hne (hsame _ hf _ hf' he)

/-- **A sequence number names one datagram**, on every path and in every build, for every burst of
every reachable queue of which no frame is older than 2^24 numbers: except that the maintenance task
of a build without `recovery-policy` takes a coalesced burst apart. -/
theorem place_together (B : Build) (mtu : Fin 65536) (ops : List Op) (tick : ℤ) (path : Path)
    (hpath : path ≠ .maintenance ∨ B.recoveryPolicy = true ∨
      ((run B mtu ops).queue.flush B tick).1.coalesced = false)
    (hwindow : ∀ f ∈ ((run B mtu ops).queue.flush B tick).1.frames,
      ((run B mtu ops).queue.flush B tick).2.allocated ≤ f.datagram + 16777216) :
    Together ((run B mtu ops).queue.flush B tick).1
      (place B ((run B mtu ops).queue.flush B tick).1 path) := by
  obtain ⟨hn, hp⟩ := placed_run B mtu (ops ++ [.flush tick])
  rw [run_append] at hn hp
  generalize run B mtu ops = r at *
  have hseq : Sequenced (r.queue.flush B tick).1 := sequenced_of_placed hn hp hwindow
  cases path with
  | frames => exact transmitFrames_together hseq
  | replies bulk => exact transmitReplies_together hseq bulk
  | maintenance =>
    unfold place
    split_ifs with hrecovery
    · exact transmitMaintenanceFrames_together hseq
    · have hcoalesced := (hpath.resolve_left fun h => h rfl).resolve_left hrecovery
      exact alone_together (hseq.single hcoalesced)

/-- Two messages that are packed into one datagram, before the flush. -/
theorem place_together_packed :
    Together ((run (.insertion false false) 1400 (packedOps.take 3)).queue.flush
        (.insertion false false) 0).1
      (place (.insertion false false) ((run (.insertion false false) 1400
        (packedOps.take 3)).queue.flush (.insertion false false) 0).1 (.replies true)) ∧
    ((run (.insertion false false) 1400 (packedOps.take 3)).queue.flush
        (.insertion false false) 0).1.frames.length = 2 :=
  ⟨place_together (.insertion false false) 1400 (packedOps.take 3) 0 (.replies true)
    (.inl (by decide)) (by decide +kernel), by decide +kernel⟩

/-- Five messages of 600 bytes on a connection that sends at most 2048 bytes at a time, and the flush
that sends the first three. -/
def pacedOps : List Op :=
  [.enableCoalescing, .setSendOptions { SendOptions.default with flushBytes := 2048 }] ++
    (List.range 5).map (fun i =>
      .insert ⟨.reliableOrdered, primaryChannel, 0xfe :: List.replicate 599 i.toUInt8, false⟩) ++ [.flush 0]

/-- Their queue in a build with `send-policy` and without `recovery-policy`. -/
def paced : SendQ := (run (.insertion true false) 1400 pacedOps).queue

/-- The maintenance task sends the other two, which have one sequence number, in two datagrams; and
an acknowledgement of that number, which the peer sends when it has one of them, retires both. -/
theorem maintenance_splits :
    (place (.insertion true false) (paced.flush (.insertion true false) 10).1 .maintenance).map
      (fun g => g.map fun f => (f.message, f.frame.sequenceNumber)) = [[(3, 2)], [(4, 2)]] ∧
    ((paced.flush (.insertion true false) 10).2.ack (.insertion true false) 2 20).1.map
      (fun r => r.packet.message) = [3, 4] := by
  decide +kernel

end RustRaknet.Socket
