import RustRaknet.Send.Lanes
import RustRaknet.Send.Stowage
import RustRaknet.Socket.Transmit

/-! # What a scheduled flush sends

`flush_scheduled` takes unreliable frames from the front of the scheduler's queue, new reliable frames
from the front of `packets` while the flight has room, and frames of the flight that wait. The frames
of a burst tell which lane sent them (`SendQ.laneOf`): an unreliable frame, a reliable one that was in
flight, or a new one. `Filled` is the invariant of the loops, and `scheduled_flush` the specification
of the whole flush. -/

namespace RustRaknet.Send

open RustRaknet.Frame RustRaknet.Lib.Runs Ledger

/-! ### The lane of a frame -/

/-- The lane that sends a frame: by its mode, and by whether it was in flight before. -/
def SendQ.laneOf (q : SendQ) (f : QueuedFrame) : ℕ :=
  if f.isReliable then if f.body ∈ q.bodies then 1 else 2 else 0

/-- The frames of a burst that a lane sent, as they were inserted. -/
def SendQ.sentBy (q : SendQ) (lane : ℕ) (l : List QueuedFrame) : List QueuedFrame :=
  (l.filter fun f => q.laneOf f == lane).map QueuedFrame.body

section lanes

variable {q q' : SendQ} {f g : QueuedFrame} {lane : ℕ} {l : List QueuedFrame}

theorem isReliable_of_body (h : f.body = g.body) : f.isReliable = g.isReliable :=
  (congrArg QueuedFrame.isReliable h :)

theorem size_of_body (h : f.body = g.body) : f.size = g.size := (congrArg QueuedFrame.size h :)

theorem laneOf_congr (h : ∀ b, b ∈ q'.bodies ↔ b ∈ q.bodies) (f : QueuedFrame) :
    q'.laneOf f = q.laneOf f := by
  simp [SendQ.laneOf, h]

theorem sentBy_concat (q : SendQ) (lane : ℕ) (l : List QueuedFrame) (f : QueuedFrame) :
    q.sentBy lane (l ++ [f]) = q.sentBy lane l ++ if q.laneOf f = lane then [f.body] else [] := by
  unfold SendQ.sentBy
  by_cases h : q.laneOf f = lane <;> simp [h]

end lanes

/-! ### The invariant of the loops -/

/-- The classes of the frames that a flush finds. -/
structure Classed (x : SendQ) (s : SendScheduler) : Prop where
  unreliable : ∀ f ∈ s.unreliable, f.isReliable = false
  flight : ∀ b ∈ x.bodies, b.isReliable = true
  packets : ∀ f ∈ x.packets, f.isReliable = true ∧ f.body ∉ x.bodies

/-- What the loops have done when they have taken `emitted` from the scheduler and `launched` from the
queue and have served the lanes `served`, starting with the queue `x`. -/
structure Filled (x : SendQ) (s : SendScheduler) (emitted launched : List QueuedFrame)
    (served : List ℕ) (r : Round) : Prop where
  options : r.scheduler.options = s.options
  unreliable : s.unreliable = emitted ++ r.scheduler.unreliable
  packets : x.packets = launched ++ r.burst.queue.packets
  bodies : r.burst.queue.bodies = x.bodies ++ launched.map QueuedFrame.body
  flightBytes : r.flightBytes = encodedBytes (r.burst.queue.sentPacket.map InFlight.packet)
  waiting : ∀ p ∈ r.burst.queue.sentPacket, p.sent = false → p ∈ x.sentPacket
  cursor : ∀ j < r.retryCursor, ∀ p, r.burst.queue.sentPacket[j]? = some p → p.sent = true
  pending : r.burst.queue.retriesPending = x.retriesPending
  lanes : r.burst.output.frames.map x.laneOf = served
  sentUnreliable : x.sentBy 0 r.burst.output.frames = emitted.map QueuedFrame.body
  sentNew : x.sentBy 2 r.burst.output.frames = launched.map QueuedFrame.body
  bytes : encodedBytes r.burst.output.frames = r.bytes
  room : ∀ j < launched.length, x.sentPacket.length + j < s.options.inFlightFrames ∧
    encodedBytes (x.sentPacket.map InFlight.packet) + encodedBytes (launched.take (j + 1)) ≤
      s.options.inFlightBytes

theorem encodedBytes_append (l l' : List QueuedFrame) :
    encodedBytes (l ++ l') = encodedBytes l + encodedBytes l' := by
  simp [encodedBytes]

theorem encodedBytes_bodies {l l' : List QueuedFrame}
    (h : l.map QueuedFrame.body = l'.map QueuedFrame.body) : encodedBytes l = encodedBytes l' := by
  have hsize : ∀ l : List QueuedFrame,
      l.map QueuedFrame.size = (l.map QueuedFrame.body).map QueuedFrame.size := by
    intro l
    rw [List.map_map]
    rfl
  unfold encodedBytes
  rw [hsize l, hsize l', h]

namespace Filled

variable {probeSequence : Option ℕ} {tick : ℤ} {x : SendQ} {s : SendScheduler} {r r' : Round}
  {emitted launched : List QueuedFrame} {served : List ℕ}

theorem start {scheduler : SendScheduler} :
    Filled x scheduler [] [] [] (x.startRound scheduler) where
  options := rfl
  unreliable := rfl
  packets := rfl
  bodies := by simp [SendQ.startRound, SendQ.bodies, SendQ.takeProbe]
  flightBytes := by simp [SendQ.startRound, encodedBytes, Function.comp_def, SendQ.takeProbe]
  waiting p hp _ := hp
  cursor j hj := absurd hj (Nat.not_lt_zero j)
  pending := rfl
  lanes := rfl
  sentUnreliable := rfl
  sentNew := rfl
  bytes := rfl
  room j hj := absurd hj (Nat.not_lt_zero j)

theorem cleared (h : Filled x s emitted launched served r) :
    Filled x s emitted launched served r.cleared :=
  { h with }

theorem advance (h : Filled x s emitted launched served r) (lane : ℕ) :
    Filled x s emitted launched served (r.advance lane) := by
  unfold Round.advance
  split_ifs
  · refine { h with cursor := ?_ }
    intro j hj p hp
    by_cases hlt : j < r.retryCursor
    · exact h.cursor j hlt p hp
    · exact Round.seek_passes (not_lt.mp hlt) hj hp
  · exact h

theorem flightBytes_eq (h : Filled x s emitted launched served r) :
    r.flightBytes =
      encodedBytes (x.sentPacket.map InFlight.packet) + encodedBytes launched := by
  rw [h.flightBytes, ← encodedBytes_append]
  refine encodedBytes_bodies ?_
  have hbodies := h.bodies
  unfold SendQ.bodies at hbodies
  simpa [Function.comp_def] using hbodies

theorem emit (h : Filled x s emitted launched served r) (hx : Classed x s) {f : QueuedFrame}
    {rest : List QueuedFrame} (hf : r.scheduler.unreliable = f :: rest) :
    Filled x s (emitted ++ [f]) launched (served ++ [0]) (r.sendUnreliable.charged 0 f.size) := by
  have hclass : f.isReliable = false := hx.unreliable f (by rw [h.unreliable, hf]; simp)
  have hlane : ∀ a b, x.laneOf (f.numbered a b) = 0 := fun a b => by
    have : (f.numbered a b).isReliable = false := hclass
    simp [SendQ.laneOf, this]
  unfold Round.sendUnreliable
  rw [hf]
  refine { h with unreliable := ?_, lanes := ?_, sentUnreliable := ?_, sentNew := ?_, bytes := ?_ }
  · rw [h.unreliable, hf]
    simp [Round.charged]
  · simp [Round.charged, OutgoingFrames.push, h.lanes, hlane]
  · simp only [Round.charged, OutgoingFrames.push, sentBy_concat, hlane, if_true, body_numbered,
      h.sentUnreliable, List.map_append, List.map_cons, List.map_nil]
  · simp [Round.charged, OutgoingFrames.push, sentBy_concat, hlane, h.sentNew]
  · have hsize : ∀ a b, (f.numbered a b).size = f.size := fun _ _ => rfl
    simp [Round.charged, hsize, h.bytes]

theorem resend (h : Filled x s emitted launched served r) (hx : Classed x s) {i : ℕ}
    {p : InFlight} (hp : r.Waits i p) :
    Filled x s emitted launched (served ++ [1]) (({ r with
      burst := (r.burst.resend probeSequence tick i p).closeGroup
      retryCursor := i + 1 } : Round).charged 1 p.packet.size) := by
  obtain ⟨hget, hunsent, hpassed⟩ := hp
  have hold : p.packet.body ∈ x.bodies :=
    List.mem_map_of_mem (f := fun p : InFlight => p.packet.body)
      (h.waiting p (List.mem_of_getElem? hget) hunsent)
  have hlane : x.laneOf p.packet = 1 := by
    have : p.packet.body.isReliable = true := hx.flight _ hold
    have : p.packet.isReliable = true := this
    simp [SendQ.laneOf, this, hold]
  obtain ⟨l₁, l₂, hl, hset, -⟩ := split_at hget
  refine ⟨h.options, h.unreliable, h.packets, ?_, ?_, ?_, ?_, h.pending, ?_, ?_, ?_, ?_, h.room⟩
  · rw [← h.bodies]
    simp only [Round.charged, Burst.closeGroup, Burst.resend, SendQ.bodies, hset]
    simp [hl]
  · simp only [Round.charged, Burst.closeGroup, Burst.resend, hset, h.flightBytes]
    simp [hl]
  · intro p' hp' hunsent'
    simp only [Round.charged, Burst.closeGroup, Burst.resend, hset] at hp'
    rcases List.mem_append.mp hp' with hp' | hp'
    · exact h.waiting p' (by simp [hl, hp']) hunsent'
    rcases List.mem_cons.mp hp' with rfl | hp'
    · cases hunsent'
    · exact h.waiting p' (by simp [hl, hp']) hunsent'
  · intro j hj p' hp'
    have hj : j < i + 1 := hj
    simp only [Round.charged, Burst.closeGroup, Burst.resend] at hp'
    by_cases hji : i = j
    · subst hji
      rw [List.getElem?_set_self (List.getElem?_eq_some_iff.mp hget).1] at hp'
      rw [← Option.some.inj hp']
    · rw [List.getElem?_set_ne hji] at hp'
      by_cases hlt : j < r.retryCursor
      · exact h.cursor j hlt p' hp'
      · exact hpassed j (not_lt.mp hlt) (by omega) p' hp'
  · simp [Round.charged, Burst.closeGroup, Burst.resend, OutgoingFrames.push, h.lanes, hlane]
  · simp [Round.charged, Burst.closeGroup, Burst.resend, OutgoingFrames.push, sentBy_concat, hlane,
      h.sentUnreliable]
  · simp [Round.charged, Burst.closeGroup, Burst.resend, OutgoingFrames.push, sentBy_concat, hlane,
      h.sentNew]
  · simp [Round.charged, Burst.closeGroup, Burst.resend, h.bytes]

theorem launch (h : Filled x s emitted launched served r) (hx : Classed x s) {f : QueuedFrame}
    {rest : List QueuedFrame} (hf : r.burst.queue.packets = f :: rest)
    (hframes : r.burst.queue.sentPacket.length < r.scheduler.options.inFlightFrames)
    (hbytes : r.flightBytes + f.size ≤ r.scheduler.options.inFlightBytes) :
    Filled x s emitted (launched ++ [f]) (served ++ [2]) ((r.sendNew tick).charged 2 f.size) := by
  have hclass := hx.packets f (by rw [h.packets, hf]; simp)
  have hnumber := Round.newNumber_numbering r f rest
  have hbody := Round.newNumber_body r f rest
  have hlane : x.laneOf (r.newNumber f rest).1 = 2 := by
    have hreliable : (r.newNumber f rest).1.isReliable = true :=
      (isReliable_of_body hbody).trans hclass.1
    simp [SendQ.laneOf, hreliable, hbody, hclass.2]
  have hlength : r.burst.queue.sentPacket.length = x.sentPacket.length + launched.length := by
    simpa [SendQ.bodies] using congrArg List.length h.bodies
  have htotal := h.flightBytes_eq
  rw [Round.sendNew_eq hf]
  refine ⟨h.options, h.unreliable, ?_, ?_, ?_, ?_, ?_, ?_, ?_, ?_, ?_, ?_, ?_⟩
  · simp [Round.charged, Burst.launch, hnumber.packets, h.packets, hf]
  · have hbodies := h.bodies
    unfold SendQ.bodies at hbodies ⊢
    simp [Round.charged, Burst.launch, hnumber.flight, hbodies, hbody]
  · simp [Round.charged, Burst.launch, hnumber.flight, h.flightBytes, encodedBytes,
      hnumber.size]
  · intro p hp hunsent
    simp only [Round.charged, Burst.launch, hnumber.flight, List.mem_append,
      List.mem_singleton] at hp
    rcases hp with hp | rfl
    · exact h.waiting p hp hunsent
    · cases hunsent
  · intro j hj p hp
    simp only [Round.charged, Burst.launch, hnumber.flight] at hp
    by_cases hlt : j < r.burst.queue.sentPacket.length
    · rw [List.getElem?_append_left hlt] at hp
      exact h.cursor j hj p hp
    · rw [List.getElem?_append_right (not_lt.mp hlt)] at hp
      obtain rfl := List.mem_singleton.mp (List.mem_of_getElem? hp)
      rfl
  · exact (Round.newNumber_pending r f rest).trans h.pending
  · simp [Round.charged, Burst.launch, OutgoingFrames.push, hnumber.output, h.lanes, hlane]
  · simp [Round.charged, Burst.launch, OutgoingFrames.push, hnumber.output, sentBy_concat, hlane,
      h.sentUnreliable]
  · simp [Round.charged, Burst.launch, OutgoingFrames.push, hnumber.output, sentBy_concat, hlane,
      h.sentNew, hbody]
  · simp [Round.charged, Burst.launch, hnumber.output, hnumber.size, h.bytes]
  · intro j hj
    by_cases hlt : j < launched.length
    · rw [List.take_append_of_le_length (by omega)]
      exact h.room j hlt
    · -- the last frame, for which the loop has just looked at the limits
      obtain rfl : j = launched.length := by
        simp only [List.length_append, List.length_singleton] at hj
        omega
      rw [h.options] at hframes hbytes
      rw [List.take_of_length_le (by simp), encodedBytes_append]
      have hone : encodedBytes [f] = f.size := by simp [encodedBytes]
      omega

/-- **Every frame that is sent keeps the invariant.** -/
theorem serves (h : Filled x s emitted launched served r) (hx : Classed x s) {lane charge : ℕ}
    (hlane : lane < 3) (hserves : Round.Serves probeSequence tick r lane charge r') :
    ∃ emitted launched, Filled x s emitted launched (served ++ [lane]) r' := by
  cases hserves with
  | unreliable hf => exact ⟨_, _, h.emit hx hf⟩
  | retry hpending hp => exact ⟨_, _, h.resend hx hp⟩
  | new hle hf hframes hbytes =>
    obtain rfl : lane = 2 := by omega
    exact ⟨_, _, h.launch hx hf hframes hbytes⟩

theorem rounds {quantum : ℕ} {trace : List ℕ} (h : Filled x s emitted launched served r)
    (hx : Classed x s) (hrun : Round.RoundsRun probeSequence tick quantum r trace r') :
    ∃ emitted launched, Filled x s emitted launched (served ++ trace) r' :=
  hrun.preserves (I := fun served r => ∃ emitted launched, Filled x s emitted launched served r)
    (fun ⟨_, _, h⟩ => ⟨_, _, h.cleared⟩) (fun lane ⟨_, _, h⟩ => ⟨_, _, h.advance lane⟩)
    (fun hlane ⟨_, _, h⟩ _ hserves => h.serves hx hlane hserves) served ⟨_, _, h⟩

end Filled

/-! ### The frames that wait to be sent again -/

section pending

variable {B : Build} {tick : ℤ}

/-- The flag for retransmissions is set when a frame in flight waits. -/
def Deck.Flagged (D : Deck) : Prop := ∀ p ∈ D.flight, p.sent = false → D.pending = true

theorem Deck.Flagged.fate {D D' : Deck} (h : D.Flagged) (hfate : Fate D D') : D'.Flagged := by
  intro p hp hunsent
  cases hfate with
  | reissue hget hsent sequence time => rfl
  | retire hsub => exact h p (hsub.subset hp) hunsent
  | ease =>
    obtain ⟨p', hp', rfl⟩ := List.mem_map.mp hp
    exact h p' hp' hunsent
  | skip => exact h p hp hunsent

theorem Deck.Flagged.fates {D D' : Deck} (h : D.Flagged) (hfates : Fates D D') : D'.Flagged := by
  induction hfates with
  | refl => exact h
  | tail _ hfate ih => exact ih.fate hfate

theorem prepared_flagged {q : SendQ} (h : q.deck.Flagged) (tick : ℤ) :
    (q.prepared B tick).deck.Flagged := by
  obtain ⟨D, hperm, -, hpending, hfates⟩ := prepared_deck B q tick
  have htick : D.Flagged := by
    rcases hfates with hfates | ⟨rfl, -⟩
    · exact h.fates hfates
    · exact fun p hp _ => rfl
  intro p hp hunsent
  exact hpending.trans (htick p (hperm.mem_iff.mp hp) hunsent)

/-- Every frame in flight is sent. -/
def Burst.AllSent (s : Burst) : Prop := ∀ p ∈ s.queue.sentPacket, p.sent = true

theorem resendAll_sent {q : SendQ} (h : q.deck.Flagged) (tick : ℤ) : (q.resendAll tick).AllSent := by
  unfold SendQ.resendAll
  simp only
  split_ifs with hpending
  · obtain ⟨hresent, hlength⟩ := Lib.Machine.foldl_range
      (f := Burst.resendAt q.probeReplay tick) (s := q.burst)
      (I := fun i s => Resent i s ∧ s.queue.sentPacket.length = q.sentPacket.length)
      ⟨fun j p hj => absurd hj (Nat.not_lt_zero j), rfl⟩ q.sentPacket.length
      fun i s _ hs => ⟨hs.1.resendAt q.probeReplay,
        (resendAt_length q.probeReplay s i).trans hs.2⟩
    intro p hp
    obtain ⟨j, hj, hget⟩ := List.getElem_of_mem hp
    exact hresent j p (hlength ▸ hj) (List.getElem?_eq_some_iff.mpr ⟨hj, hget⟩)
  · intro p hp
    by_contra hunsent
    exact hpending (h p hp (Bool.eq_false_iff.mpr hunsent))

theorem Burst.AllSent.turn {s s' : Burst} (h : s.AllSent) (hturn : Turn tick s s') :
    s'.AllSent := by
  intro p hp
  cases hturn with
  | rotate => exact h p hp
  | @launch f rest =>
    simp only [Burst.launch, (number_numbering s f rest).flight, List.mem_append,
      List.mem_singleton] at hp
    rcases hp with hp | rfl
    · exact h p hp
    · rfl
  | @emit f rest =>
    simp only [Burst.emit, (number_numbering s f rest).flight] at hp
    exact h p hp

theorem Burst.AllSent.sendLoop {s : Burst} (h : s.AllSent) (tick : ℤ) :
    ∀ n, (Burst.sendLoop tick n s).AllSent := by
  intro n
  induction n generalizing s with
  | zero => exact h
  | succ n ih =>
    unfold Burst.sendLoop
    split
    · exact h
    · next s' hs' => exact ih (h.turn (sendOne_turn hs'))

theorem flush_flagged {q : SendQ} (h : q.deck.Flagged) (tick : ℤ) :
    (q.flush B tick).2.deck.Flagged := by
  obtain ⟨-, he⟩ | ⟨scheduler, -, -, he⟩ := flush_cases B q tick <;> rw [he]
  · have hsent := (resendAll_sent (prepared_flagged (B := B) h tick) tick).sendLoop tick
      ((q.prepared B tick).resendAll tick).queue.packets.length
    exact fun p hp hunsent => absurd ((hsent p hp).symm.trans hunsent) (by simp)
  · exact fun p hp hunsent => List.any_eq_true.mpr ⟨p, hp, by simp [hunsent]⟩

/-- **A frame that waits to be sent again is announced**, in every run. -/
theorem flagged_run (B : Build) (mtu : Fin 65536) (ops : List Op) :
    (run B mtu ops).queue.deck.Flagged := by
  induction ops using List.reverseRecOn with
  | nil => exact fun p hp => (List.not_mem_nil hp).elim
  | append_singleton ops op ih =>
    rw [run_append]
    by_cases hop : ∃ tick, op = .flush tick
    · obtain ⟨tick, rfl⟩ := hop
      exact flush_flagged ih tick
    · exact ih.fates (step_fates fun tick he => hop ⟨tick, he⟩)

end pending

/-! ### The frames that a flush finds -/

section reachable

variable {B : Build} {mtu : Fin 65536} {ops : List Op} {s : SendScheduler}

theorem accepted_size_pos (limit : ℕ) (log : List Message) :
    ∀ f ∈ accepted limit log, 0 < f.size := by
  induction log using List.reverseRecOn with
  | nil => exact fun f hf => by cases hf
  | append_singleton log m ih =>
    intro f hf
    rw [accepted_append] at hf
    rcases List.mem_append.mp hf with hf | hf
    · exact ih f hf
    · unfold Message.frames at hf
      split_ifs at hf
      · obtain ⟨i, -, rfl⟩ := List.mem_map.mp hf
        simp [QueuedFrame.size, FrameSetPacket.size, Message.fragment, FrameSetPacket.reliability,
          FrameSetPacket.sizeOf]
      · rw [List.mem_singleton.mp hf]
        simp [QueuedFrame.size, FrameSetPacket.size, Message.single, FrameSetPacket.reliability,
          FrameSetPacket.fromPayload, FrameSetPacket.sizeOf]

theorem held_accepted (B : Build) (mtu : Fin 65536) (ops : List Op) :
    (run B mtu ops).ledger.held ≤
      (accepted ((mtu : ℕ) - 60) (run B mtu ops).queue.log : Multiset QueuedFrame) := by
  obtain ⟨-, hconserved, -⟩ := conserved_run B mtu ops
  have hlimit := run_mtu B mtu ops
  unfold Ledger.Conserved at hconserved
  rw [hlimit] at hconserved
  exact (Multiset.le_add_right _ _).trans hconserved.le

theorem held_size_pos (B : Build) (mtu : Fin 65536) (ops : List Op) :
    ∀ b ∈ (run B mtu ops).ledger.held, 0 < b.size := fun b hb =>
  accepted_size_pos _ _ b (Multiset.mem_coe.mp (Multiset.mem_of_le (held_accepted B mtu ops) hb))

theorem held_nodup (B : Build) (mtu : Fin 65536) (ops : List Op) :
    (run B mtu ops).ledger.held.Nodup :=
  Multiset.nodup_of_le (held_accepted B mtu ops) (Multiset.coe_nodup.mpr (accepted_nodup _ _))

theorem held_eq (r : Run) : r.ledger.held =
    bodies r.queue.packets + (r.queue.bodies : Multiset QueuedFrame) +
      bodies r.ledger.unreliable := by
  simp only [Ledger.held, bodies, Run.ledger, SendQ.bodies, List.map_map]
  rfl

theorem prepared_classed (hs : (run B mtu ops).queue.scheduler = some s) (tick : ℤ) :
    Classed ((run B mtu ops).queue.prepared B tick) s := by
  have hw := (run_steps B mtu ops).1
  obtain ⟨-, -, -, hunreliable, hreliable⟩ := hw.scheduled s hs
  have hperm := prepared_bodies (B := B) (run B mtu ops).queue tick
  have hnodup := held_nodup B mtu ops
  rw [held_eq] at hnodup
  refine ⟨hunreliable, fun b hb => ?_, fun f hf => ?_⟩
  · obtain ⟨p, hp, rfl⟩ := List.mem_map.mp (hperm.mem_iff.mp hb)
    exact hw.reliable p hp
  · rw [prepared_packets] at hf
    refine ⟨hreliable f hf, fun hb => ?_⟩
    have hdisjoint := (Multiset.nodup_add.mp (Multiset.nodup_add.mp hnodup).1).2.2
    exact Multiset.disjoint_left.mp hdisjoint (mem_bodies.mpr ⟨f, hf, rfl⟩)
      (Multiset.mem_coe.mpr (hperm.mem_iff.mp hb))

/-- The next frame of a lane is one that the flush found. -/
theorem Filled.head_mem {x : SendQ} {emitted launched : List QueuedFrame} {served : List ℕ}
    {r : Round} (h : Filled x s emitted launched served r) {P : QueuedFrame → Prop}
    (hunreliable : ∀ f ∈ s.unreliable, P f) (hpackets : ∀ f ∈ x.packets, P f)
    (hflight : ∀ p ∈ x.sentPacket, P p.packet) {lane charge : ℕ}
    (hhead : r.head lane = some charge) : ∃ f, P f ∧ f.size = charge := by
  match lane with
  | 0 =>
    rw [Round.head_zero, Option.map_eq_some_iff] at hhead
    obtain ⟨f, hf, hsize⟩ := hhead
    exact ⟨f, hunreliable f (h.unreliable ▸ List.mem_append_right _ (List.mem_of_head? hf)), hsize⟩
  | 1 =>
    rw [Round.head_one] at hhead
    split_ifs at hhead
    obtain ⟨p, hp, hsize⟩ := Option.map_eq_some_iff.mp hhead
    have hmem := List.mem_of_mem_drop (List.mem_of_find?_eq_some hp)
    exact ⟨p.packet, hflight p (h.waiting p hmem (by simpa using List.find?_some hp)), hsize⟩
  | n + 2 =>
    rw [Round.head_new (by omega), Option.bind_eq_some_iff] at hhead
    obtain ⟨f, hf, hsize⟩ := hhead
    split_ifs at hsize
    exact ⟨f, hpackets f (h.packets ▸ List.mem_append_right _ (List.mem_of_head? hf)),
      Option.some.inj hsize⟩

theorem Filled.find_unsent {x : SendQ} {emitted launched : List QueuedFrame} {served : List ℕ}
    {r : Round} (h : Filled x s emitted launched served r) :
    (r.burst.queue.sentPacket.drop r.retryCursor).find? (fun p => !p.sent) =
      r.burst.queue.sentPacket.find? fun p => !p.sent := by
  have hnone : (r.burst.queue.sentPacket.take r.retryCursor).find? (fun p => !p.sent) = none := by
    refine List.find?_eq_none.mpr fun p hp => ?_
    obtain ⟨j, hj, hget⟩ := List.getElem_of_mem hp
    have hlt : j < r.retryCursor := lt_of_lt_of_le hj (List.length_take_le _ _)
    have hp : r.burst.queue.sentPacket[j]? = some p := by
      rw [← List.getElem?_take_of_lt hlt]
      exact List.getElem?_eq_some_iff.mpr ⟨hj, hget⟩
    simp [h.cursor j hlt p hp]
  conv_rhs => rw [← List.take_append_drop r.retryCursor r.burst.queue.sentPacket]
  rw [List.find?_append, hnone, Option.none_or]

/-- The frames that a flush finds have a size, and fit a datagram. -/
theorem found_sized (hs : (run B mtu ops).queue.scheduler = some s) (tick : ℤ) :
    (∀ f ∈ s.unreliable, 0 < f.size ∧ f.size ≤ (mtu : ℕ) ∧ 60 < (mtu : ℕ)) ∧
    (∀ f ∈ ((run B mtu ops).queue.prepared B tick).packets,
      0 < f.size ∧ f.size ≤ (mtu : ℕ) ∧ 60 < (mtu : ℕ)) ∧
    ∀ p ∈ ((run B mtu ops).queue.prepared B tick).sentPacket,
      0 < p.packet.size ∧ p.packet.size ≤ (mtu : ℕ) ∧ 60 < (mtu : ℕ) := by
  have hpos := held_size_pos B mtu ops
  have hsized := sized_run B mtu ops
  have hlimit := run_mtu B mtu ops
  rw [held_eq] at hpos
  have hledger : (run B mtu ops).ledger.unreliable = s.unreliable := by simp [Run.ledger, hs]
  refine ⟨fun f hf => ?_, fun f hf => ?_, fun p hp => ?_⟩
  · rw [← hledger] at hf
    have hfits := hsized.unreliable hf
    unfold Ledger.FrameFits at hfits
    exact ⟨hpos f.body (Multiset.mem_add.mpr (.inr (mem_bodies.mpr ⟨f, hf, rfl⟩))), by omega,
      by omega⟩
  · rw [prepared_packets] at hf
    have hfits := hsized.packets hf
    unfold Ledger.FrameFits at hfits
    have hbody : f.body ∈ bodies (run B mtu ops).queue.packets := mem_bodies.mpr ⟨f, hf, rfl⟩
    exact ⟨hpos f.body (Multiset.mem_add.mpr (.inl (Multiset.mem_add.mpr (.inl hbody)))), by omega,
      by omega⟩
  · have hbody : p.packet.body ∈ (run B mtu ops).queue.bodies :=
      (prepared_bodies _ tick).mem_iff.mp
        (List.mem_map_of_mem (f := fun p : InFlight => p.packet.body) hp)
    obtain ⟨p', hp', hsame⟩ := List.mem_map.mp hbody
    have hfits := hsized.flight (List.mem_map_of_mem (f := InFlight.timeless) hp')
    unfold Ledger.FrameFits at hfits
    have hsize : p'.packet.size = p.packet.size := size_of_body hsame
    have htimeless : p'.timeless.packet.size = p'.packet.size := rfl
    exact ⟨hpos p.packet.body (Multiset.mem_add.mpr (.inl (Multiset.mem_add.mpr
      (.inr (Multiset.mem_coe.mpr hbody))))), by omega, by omega⟩

/-- When the loops have ended, no lane has a frame that fits the rest of the budget. -/
theorem rounds_stuck {tick : ℤ} {trace : List ℕ} {r : Round} {emitted launched : List QueuedFrame}
    (hs : (run B mtu ops).queue.scheduler = some s)
    (hrun : Round.RoundsRun ((run B mtu ops).queue.prepared B tick).probeReplay tick ((mtu : ℕ) * 4)
      (((run B mtu ops).queue.prepared B tick).startRound s) trace r)
    (h : Filled ((run B mtu ops).queue.prepared B tick) s emitted launched trace r) :
    ∀ lane < 3, r.Stuck lane := by
  obtain ⟨hunreliable, hpackets, hflight⟩ := found_sized hs tick
  have hhead : ∀ lane charge, r.head lane = some charge → 0 < charge ∧ 60 < (mtu : ℕ) := by
    intro lane charge hcharge
    obtain ⟨f, hf, rfl⟩ := h.head_mem hunreliable hpackets hflight hcharge
    exact ⟨hf.1, hf.2.2⟩
  by_cases hquantum : 0 < (mtu : ℕ) * 4
  · exact hrun.stuck hquantum fun lane charge hcharge => (hhead lane charge hcharge).1
  · -- a session without an MTU has no frames at all
    intro lane _ charge hfits
    have := (hhead lane charge hfits.head).2
    omega

end reachable

/-! ### The specification -/

/-- **What a scheduled flush does** with a queue `q` and its scheduler `s`: the burst `o` and the queue
`q'` that it leaves, with the scheduler `s'`. `emitted` and `launched` are the frames it takes. -/
structure ScheduledFlush (q : SendQ) (s : SendScheduler) (emitted launched : List QueuedFrame)
    (o : OutgoingFrames) (q' : SendQ) (s' : SendScheduler) : Prop where
  scheduler : q'.scheduler = some s'
  options : s'.options = s.options
  /-- The unreliable frames are the front of their queue, in order. -/
  unreliable : s.unreliable = emitted ++ s'.unreliable
  sentUnreliable : q.sentBy 0 o.frames = emitted.map QueuedFrame.body
  /-- The new reliable frames are the front of the queue, in order. -/
  packets : q.packets = launched ++ q'.packets
  sentNew : q.sentBy 2 o.frames = launched.map QueuedFrame.body
  /-- A new frame finds room in the flight. -/
  room : ∀ j < launched.length, q.sentPacket.length + j < s.options.inFlightFrames ∧
    encodedBytes (q.sentPacket.map InFlight.packet) + encodedBytes (launched.take (j + 1)) ≤
      s.options.inFlightBytes
  /-- Nothing that fits is left behind. -/
  fullUnreliable : ∀ f ∈ s'.unreliable.head?, s.options.flushBytes < encodedBytes o.frames + f.size
  fullRetry : ∀ p ∈ q'.sentPacket.find? (fun p => !p.sent),
    s.options.flushBytes < encodedBytes o.frames + p.packet.size
  fullNew : ∀ f ∈ q'.packets.head?, q'.sentPacket.length < s.options.inFlightFrames →
    encodedBytes (q'.sentPacket.map InFlight.packet) + f.size ≤ s.options.inFlightBytes →
      s.options.flushBytes < encodedBytes o.frames + f.size
  /-- The flag says whether a frame in flight still waits. -/
  pending : q'.retriesPending = true ↔ ∃ p ∈ q'.sentPacket, p.sent = false

theorem sentBy_congr {q q' : SendQ} (h : ∀ b, b ∈ q'.bodies ↔ b ∈ q.bodies) (lane : ℕ)
    (l : List QueuedFrame) : q'.sentBy lane l = q.sentBy lane l := by
  unfold SendQ.sentBy
  simp only [laneOf_congr h]

theorem prepared_flightBytes (B : Build) (q : SendQ) (tick : ℤ) :
    encodedBytes ((q.prepared B tick).sentPacket.map InFlight.packet) =
      encodedBytes (q.sentPacket.map InFlight.packet) := by
  have hsizes : ∀ q : SendQ, encodedBytes (q.sentPacket.map InFlight.packet) =
      (q.bodies.map QueuedFrame.size).sum := by
    intro q
    simp only [encodedBytes, SendQ.bodies, List.map_map]
    rfl
  rw [hsizes, hsizes, ((prepared_bodies q tick).map _).sum_eq]

/-- When the loops have ended, the invariant is the specification. -/
theorem Filled.spec {B : Build} {mtu : Fin 65536} {ops : List Op} {tick : ℤ} {s : SendScheduler}
    {emitted launched : List QueuedFrame} {trace : List ℕ} {r : Round}
    (h : Filled ((run B mtu ops).queue.prepared B tick) s emitted launched trace r)
    (hs : (run B mtu ops).queue.scheduler = some s)
    (hrun : Round.RoundsRun ((run B mtu ops).queue.prepared B tick).probeReplay tick ((mtu : ℕ) * 4)
      (((run B mtu ops).queue.prepared B tick).startRound s) trace r) :
    ScheduledFlush (run B mtu ops).queue s emitted launched r.burst.output
      (r.burst.queue.finish r.scheduler) r.scheduler := by
  have hstuck := rounds_stuck hs hrun h
  have hmem : ∀ b, b ∈ ((run B mtu ops).queue.prepared B tick).bodies ↔
      b ∈ (run B mtu ops).queue.bodies := fun b => (prepared_bodies _ tick).mem_iff
  have hflagged := prepared_flagged (B := B) (flagged_run B mtu ops) tick
  have hpersistent : r.scheduler.persistent = true :=
    hrun.preserves (I := fun _ r => r.scheduler.persistent = true) id
      (fun {t r} lane h => by
        obtain ⟨retryCursor, hadvance⟩ := Round.advance_eq lane r
        rwa [hadvance])
      (fun _ h _ hserves => hserves.bytes.2.2.trans h) []
      ((run_steps B mtu ops).1.scheduled s hs).2.1
  -- a lane whose next frame has size `charge` leaves less than that of the budget
  have hfull : ∀ lane < 3, ∀ charge, r.head lane = some charge →
      s.options.flushBytes < encodedBytes r.burst.output.frames + charge := by
    intro lane hlane charge hhead
    by_contra hle
    refine hstuck lane hlane charge ⟨hhead, ?_⟩
    rw [h.options, ← h.bytes]
    omega
  refine ⟨if_pos (by simp [hpersistent]), h.options, h.unreliable, ?_, ?_, ?_, ?_, ?_, ?_, ?_, ?_⟩
  · rw [← sentBy_congr hmem, h.sentUnreliable]
  · rw [← prepared_packets (B := B) _ tick]
    exact h.packets
  · rw [← sentBy_congr hmem, h.sentNew]
  · rw [← prepared_length B _ tick, ← prepared_flightBytes B _ tick]
    exact h.room
  · intro f hf
    exact hfull 0 (by omega) _ (by rw [Round.head_zero, hf]; rfl)
  · intro p hp
    have hp : r.burst.queue.sentPacket.find? (fun p => !p.sent) = some p := hp
    have hold := h.waiting p (List.mem_of_find?_eq_some hp) (by simpa using List.find?_some hp)
    have hpending : r.burst.queue.retriesPending = true := by
      rw [h.pending]
      exact hflagged p hold (by simpa using List.find?_some hp)
    refine hfull 1 (by omega) _ ?_
    rw [Round.head_one, if_pos hpending, h.find_unsent, hp]
    rfl
  · intro f hf hframes hbytes
    refine hfull 2 (by omega) _ ?_
    have hf : r.burst.queue.packets.head? = some f := hf
    rw [Round.head_new le_rfl, hf, Option.bind_some, h.options, h.flightBytes]
    exact if_pos ⟨hframes, hbytes⟩
  · simp [SendQ.finish]

/-- The loops of a scheduled flush, and what they have filled. -/
theorem filled_run (hs : (run B mtu ops).queue.scheduler = some s)
    (hpath : (!s.useLegacy || !s.unreliable.isEmpty) = true) (tick : ℤ) :
    ∃ trace r emitted launched,
      Round.RoundsRun ((run B mtu ops).queue.prepared B tick).probeReplay tick ((mtu : ℕ) * 4)
        (((run B mtu ops).queue.prepared B tick).startRound s) trace r ∧
      (run B mtu ops).queue.flush B tick =
        (r.burst.output, r.burst.queue.finish r.scheduler) ∧
      Filled ((run B mtu ops).queue.prepared B tick) s emitted launched trace r := by
  obtain ⟨trace, r, hrun, hflush⟩ := scheduled_rounds (B := B) hs hpath tick
  have hmtu : ((run B mtu ops).queue.prepared B tick).mtu = mtu :=
    (congrArg Given.mtu (prepared_given _)).trans (legacy_room B mtu ops).1
  rw [hmtu] at hrun
  obtain ⟨emitted, launched, hfilled⟩ := Filled.start.rounds (prepared_classed hs tick) hrun
  rw [List.nil_append] at hfilled
  exact ⟨trace, r, emitted, launched, hrun, hflush, hfilled⟩

/-- **The specification of a scheduled flush.** From every reachable state with a scheduler that takes
the loops over the lanes, these loops end, and the flush is as `ScheduledFlush` says; frames that share
a sequence number are next to each other, as long as fewer than 2^24 numbers are given out while a
frame is in flight. -/
theorem scheduled_flush (B : Build) (mtu : Fin 65536) (ops : List Op) (tick : ℤ)
    (s : SendScheduler) (hs : (run B mtu ops).queue.scheduler = some s)
    (hpath : (!s.useLegacy || !s.unreliable.isEmpty) = true) :
    let q := (run B mtu ops).queue
    let x := q.prepared B tick
    ∃ (trace : List ℕ) (r : Round) (emitted launched : List QueuedFrame),
      Round.RoundsRun x.probeReplay tick ((mtu : ℕ) * 4) (x.startRound s) trace r ∧
      q.flush B tick = (r.burst.output, r.burst.queue.finish r.scheduler) ∧
      ScheduledFlush q s emitted launched (q.flush B tick).1 (q.flush B tick).2 r.scheduler ∧
      ((∀ before, before <+: ops ++ [.flush tick] → (run B mtu before).queue.Windowed) →
        Contiguous (fun f : QueuedFrame => f.frame.sequenceNumber) (q.flush B tick).1.frames) := by
  intro q x
  obtain ⟨trace, r, emitted, launched, hrun, hflush, hfilled⟩ := filled_run hs hpath tick
  refine ⟨trace, r, emitted, launched, hrun, hflush, ?_, fun hwindow => ?_⟩
  · rw [hflush]
    exact hfilled.spec hs hrun
  · obtain ⟨o, ho, hends⟩ := flush_stowed (B := B) tick (flight_numbered B mtu ops)
      (hwindow ops (List.prefix_append ops _)) (congrArg Fin.val (legacy_room B mtu ops).1)
      (stowed_run B mtu ops fun before h => hwindow before (h.trans (List.prefix_append ops _)))
      (queued_fits B mtu ops)
    have hthen := hwindow (ops ++ [.flush tick]) List.prefix_rfl
    obtain ⟨hn, hplaced⟩ := Socket.placed_run B mtu (ops ++ [.flush tick])
    rw [run_append] at hn hplaced hthen
    exact (Socket.sequenced_of_placed hn hplaced (output_windowed ho hends hthen)).contiguous

/-- Limits for a burst of two full datagrams. -/
def narrowOptions : SendOptions := { SendOptions.default with flushBytes := 2048 }

/-- A new frame of each kind, and a budget that does not reach for all of them. -/
def crowdedOps : List Op :=
  [.setSendOptions narrowOptions, .insert ⟨.reliable, primaryChannel, List.replicate 1300 0, true⟩,
    .insert ⟨.unreliable, primaryChannel, List.replicate 600 1, true⟩,
    .insert ⟨.unreliable, primaryChannel, List.replicate 600 2, true⟩]

theorem scheduled_flush_crowded :
    let q := (run (.insertion true false) 1400 crowdedOps).queue
    let result := q.flush (.insertion true false) 7
    (∃ s emitted launched s', q.scheduler = some s ∧
      ScheduledFlush q s emitted launched result.1 result.2 s') ∧
    result.1.frames.map QueuedFrame.isReliable = [true, false] := by
  intro q result
  have hstate : (q.scheduler.any fun s => !s.useLegacy || !s.unreliable.isEmpty) = true := by
    decide +kernel
  obtain ⟨s, hs, hpath⟩ := (Option.any_eq_true _ _).mp hstate
  obtain ⟨trace, r, emitted, launched, -, -, hspec, -⟩ :=
    scheduled_flush (.insertion true false) 1400 crowdedOps 7 s hs hpath
  exact ⟨⟨s, emitted, launched, r.scheduler, hs, hspec⟩, by decide +kernel⟩

end RustRaknet.Send
