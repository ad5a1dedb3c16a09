import RustRaknet.Lib.Machine
import RustRaknet.Packet

/-! # The receive worker and the application

`socket.rs`: how `start_receiver` passes on the payloads that `RecvQ` releases. The application reads
from a channel of 100 slots. A payload enters it in one of three ways: a `Game` payload by `try_send`
when nothing is pending and a slot is free, and else over `pending_data`, which the worker drains
between datagrams; any other payload that is not a control message by the `send` in `handle`, which
waits for a slot. That `send` does not look at `pending_data`: it overtakes what waits there.

One action is one atomic step of the worker, of the application, or of whoever closes the
connection. -/

namespace RustRaknet.Socket

open RustRaknet.Packet RustRaknet.Lib.Machine

/-- The receive worker, the channel to the application and, as a history, what `RecvQ` has released,
what has entered the channel and what the application has read. -/
structure Worker where
  readyFrames : List Bytes
  pendingData : List Bytes
  pendingBytes : ℕ
  sending : Option Bytes
  channel : List Bytes
  receiverOpen : Bool
  connected : Bool
  running : Bool
  released : List Bytes
  entered : List Bytes
  received : List Bytes
  deriving DecidableEq, Repr

/-- What may happen. -/
inductive WorkerAction
  | release (payloads : List Bytes)
  | reserve
  | dispatch
  | send
  | recv
  | close
  | dropReceiver
  | abandon
  | stop
  deriving DecidableEq, Repr

/-- What `handle` does with a payload. -/
inductive Handled
  | rejected
  | control
  | disconnect
  | data
  deriving DecidableEq, Repr

/-- The `match` of `RaknetSocket::handle`. -/
def handled (payload : Bytes) : Handled :=
  match payload with
  | [] => .rejected
  | id :: _ =>
    match PacketID.tryFrom id with
    | .error _ => .rejected
    | .ok .connectionRequest => .control
    | .ok .connectionRequestAccepted => .control
    | .ok .newIncomingConnection => .control
    | .ok .connectedPing => .control
    | .ok .connectedPong => .control
    | .ok .disconnect => .disconnect
    | .ok _ => .data

/-- `frame.data.first() == Some(&PacketID::Game.to_u8())`. -/
def isGame (payload : Bytes) : Bool := payload.head? == some PacketID.game.toU8

/-- The payloads meant for the application. -/
def deliverable (payload : Bytes) : Bool := handled payload == .data

/-- The slots of the channel. -/
def channelSize : ℕ := 100

namespace Worker

/-- A new connection. -/
def new : Worker := ⟨[], [], 0, none, [], true, true, true, [], [], []⟩

variable (w : Worker)

/-- The payload enters the channel. -/
def enter (payload : Bytes) : Worker :=
  { w with channel := w.channel ++ [payload], entered := w.entered ++ [payload] }

/-- `pending_data.push_back`. -/
def postpone (payload : Bytes) : Worker :=
  { w with
    pendingBytes := w.pendingBytes + payload.length
    pendingData := w.pendingData ++ [payload] }

/-- `connected.close()` and `break`. -/
def shut : Worker := { w with connected := false, running := false }

/-- A datagram is received and the frames it releases are ready. The worker takes one only between
two others, and not while too much is pending. -/
def release (payloads : List Bytes) : Worker :=
  if w.running ∧ w.readyFrames = [] ∧ w.sending = none ∧ w.pendingBytes < 1024 * 1024 ∧
      w.pendingData.length < 4096 then
    { w with readyFrames := payloads, released := w.released ++ payloads }
  else w

/-- The arm `user_data_sender.reserve()` of the outer `select!`. -/
def reserve : Worker :=
  if w.running ∧ w.readyFrames = [] ∧ w.sending = none then
    match w.pendingData with
    | [] => w
    | payload :: rest =>
      if !w.receiverOpen then w.shut
      else if w.channel.length < channelSize then
        ({ w with
          pendingData := rest
          pendingBytes := w.pendingBytes - payload.length } : Worker).enter payload
      else w
  else w

/-- A `Game` payload. -/
def game (payload : Bytes) : Worker :=
  if w.pendingData.isEmpty then
    if !w.receiverOpen then w.shut
    else if w.channel.length < channelSize then w.enter payload
    else w.postpone payload
  else w.postpone payload

/-- `RaknetSocket::handle` up to its first wait. -/
def handle (payload : Bytes) : Worker :=
  match handled payload with
  | .rejected => w
  | .control => w
  | .disconnect => w.shut
  | .data =>
    if !w.receiverOpen then w.shut
    else if w.channel.length < channelSize then w.enter payload
    else { w with sending := some payload }

/-- One turn of the loop over `ready_frames`. -/
def dispatch : Worker :=
  if w.running ∧ w.sending = none then
    match w.readyFrames with
    | [] => w
    | payload :: rest =>
      if isGame payload then ({ w with readyFrames := rest } : Worker).game payload
      else ({ w with readyFrames := rest } : Worker).handle payload
  else w

/-- The `send` that `handle` waits in goes on. -/
def send : Worker :=
  if w.running then
    match w.sending with
    | none => w
    | some payload =>
      if !w.receiverOpen then w.shut
      else if w.channel.length < channelSize then
        ({ w with sending := none } : Worker).enter payload
      else w
  else w

/-- The application reads a payload. -/
def recv : Worker :=
  if w.receiverOpen then
    match w.channel with
    | [] => w
    | payload :: rest => { w with channel := rest, received := w.received ++ [payload] }
  else w

/-- The arm `connected.acquire()` of the `select!` around `handle`. It leaves the loop over
`ready_frames` only: what is left of them is dropped, and the worker may still take another datagram
before it sees that the connection is closed. -/
def abandon : Worker :=
  if w.running ∧ w.connected = false ∧
      (w.sending ≠ none ∨ w.readyFrames.head?.any fun payload => !isGame payload) then
    { w with readyFrames := [], sending := none }
  else w

/-- One action. The worker ends when it waits for a datagram and sees that the connection is
closed. -/
def step : WorkerAction → Worker
  | .release payloads => w.release payloads
  | .reserve => w.reserve
  | .dispatch => w.dispatch
  | .send => w.send
  | .recv => w.recv
  | .close => { w with connected := false }
  | .dropReceiver => { w with receiverOpen := false }
  | .abandon => w.abandon
  | .stop => if w.connected then w else { w with running := false }

end Worker

/-- The worker after the given actions. -/
abbrev runWorker (actions : List WorkerAction) : Worker := run Worker.step .new actions

/-! ### What one action does -/

/-- The ways an action changes the worker. -/
inductive Effect (w : Worker) (a : WorkerAction) : Worker → Prop
  | stay : Effect w a w
  | shut (readyFrames : List Bytes) (hready : readyFrames ⊆ w.readyFrames) :
      Effect w a { w.shut with readyFrames }
  | release (payloads : List Bytes) (hready : w.readyFrames = []) (hsending : w.sending = none)
      (hrunning : w.running = true) (ha : a = .release payloads) :
      Effect w a { w with readyFrames := payloads, released := w.released ++ payloads }
  | reserve (payload : Bytes) (rest : List Bytes) (hpending : w.pendingData = payload :: rest)
      (hready : w.readyFrames = []) (hsending : w.sending = none) (hrunning : w.running = true) :
      Effect w a (({ w with
        pendingData := rest
        pendingBytes := w.pendingBytes - payload.length } : Worker).enter payload)
  | skip (payload : Bytes) (rest : List Bytes) (hready : w.readyFrames = payload :: rest)
      (hpayload : deliverable payload = false) : Effect w a { w with readyFrames := rest }
  | enter (payload : Bytes) (rest : List Bytes) (hready : w.readyFrames = payload :: rest)
      (hsending : w.sending = none) (hpayload : deliverable payload = true)
      (hrunning : w.running = true) (hgame : isGame payload = true → w.pendingData = [])
      (ha : a = .dispatch) :
      Effect w a (({ w with readyFrames := rest } : Worker).enter payload)
  | postpone (payload : Bytes) (rest : List Bytes) (hready : w.readyFrames = payload :: rest)
      (hsending : w.sending = none) (hpayload : deliverable payload = true) :
      Effect w a (({ w with readyFrames := rest } : Worker).postpone payload)
  | wait (payload : Bytes) (rest : List Bytes) (hready : w.readyFrames = payload :: rest)
      (hsending : w.sending = none) (hpayload : deliverable payload = true)
      (hgame : isGame payload = false) (ha : a = .dispatch) :
      Effect w a { w with readyFrames := rest, sending := some payload }
  | send (payload : Bytes) (hsending : w.sending = some payload) (hrunning : w.running = true) :
      Effect w a (({ w with sending := none } : Worker).enter payload)
  | recv (payload : Bytes) (rest : List Bytes) (hchannel : w.channel = payload :: rest) :
      Effect w a { w with channel := rest, received := w.received ++ [payload] }
  | close : Effect w a { w with connected := false }
  | dropReceiver : Effect w a { w with receiverOpen := false }
  | abandon (h : w.connected = false) : Effect w a { w with readyFrames := [], sending := none }
  | stop (h : w.connected = false) : Effect w a { w with running := false }

theorem deliverable_of_isGame {payload : Bytes} (h : isGame payload = true) :
    deliverable payload = true := by
  rcases payload with _ | ⟨id, rest⟩
  · cases h
  · have hid : id = 0xfe := by simpa [isGame, PacketID.toU8] using h
    subst hid
    rfl

theorem reserve_effect (w : Worker) : Effect w .reserve w.reserve := by
  unfold Worker.reserve
  by_cases h : w.running ∧ w.readyFrames = [] ∧ w.sending = none
  · rw [if_pos h]
    rcases hpending : w.pendingData with _ | ⟨payload, rest⟩
    · exact .stay
    · simp only
      split_ifs
      · exact .shut w.readyFrames (List.Subset.refl _)
      · exact .reserve payload rest hpending h.2.1 h.2.2 h.1
      · exact .stay
  · rw [if_neg h]
    exact .stay

theorem game_effect {w : Worker} {payload : Bytes} {rest : List Bytes}
    (hready : w.readyFrames = payload :: rest) (hsending : w.sending = none)
    (hrunning : w.running = true) (hgame : isGame payload = true) :
    Effect w .dispatch (({ w with readyFrames := rest } : Worker).game payload) := by
  have hpayload := deliverable_of_isGame hgame
  unfold Worker.game
  split_ifs with hpending hopen hroom
  · exact .shut rest (hready ▸ List.subset_cons_self payload rest)
  · exact .enter payload rest hready hsending hpayload hrunning
      (fun _ => List.isEmpty_iff.mp hpending) rfl
  · exact .postpone payload rest hready hsending hpayload
  · exact .postpone payload rest hready hsending hpayload

theorem handle_effect {w : Worker} {payload : Bytes} {rest : List Bytes}
    (hready : w.readyFrames = payload :: rest) (hsending : w.sending = none)
    (hrunning : w.running = true) (hgame : isGame payload = false) :
    Effect w .dispatch (({ w with readyFrames := rest } : Worker).handle payload) := by
  have hskip : deliverable payload = false → Effect w .dispatch { w with readyFrames := rest } :=
    .skip payload rest hready
  unfold Worker.handle
  rcases hpayload : handled payload
  · exact hskip (by simp [deliverable, hpayload])
  · exact hskip (by simp [deliverable, hpayload])
  · exact .shut rest (hready ▸ List.subset_cons_self payload rest)
  · have hdata : deliverable payload = true := by simp [deliverable, hpayload]
    simp only
    split_ifs
    · exact .shut rest (hready ▸ List.subset_cons_self payload rest)
    · exact .enter payload rest hready hsending hdata hrunning
        (fun h => absurd (hgame.symm.trans h) Bool.false_ne_true) rfl
    · exact .wait payload rest hready hsending hdata hgame rfl

theorem dispatch_effect (w : Worker) : Effect w .dispatch w.dispatch := by
  unfold Worker.dispatch
  by_cases h : w.running ∧ w.sending = none
  · rw [if_pos h]
    rcases hready : w.readyFrames with _ | ⟨payload, rest⟩
    · exact .stay
    · simp only
      split_ifs with hgame
      · exact game_effect hready h.2 h.1 hgame
      · exact handle_effect hready h.2 h.1 (by simpa using hgame)
  · rw [if_neg h]
    exact .stay

theorem send_effect (w : Worker) : Effect w .send w.send := by
  unfold Worker.send
  by_cases h : w.running = true
  · rw [if_pos h]
    rcases hsending : w.sending with _ | payload
    · exact .stay
    · simp only
      split_ifs
      · exact .shut w.readyFrames (List.Subset.refl _)
      · exact .send payload hsending h
      · exact .stay
  · rw [if_neg h]
    exact .stay

/-- **What an action does.** -/
theorem step_effect (w : Worker) (a : WorkerAction) : Effect w a (w.step a) := by
  cases a with
  | release payloads =>
    simp only [Worker.step, Worker.release]
    split_ifs with h
    · exact .release payloads h.2.1 h.2.2.1 h.1 rfl
    · exact .stay
  | reserve => exact reserve_effect w
  | dispatch => exact dispatch_effect w
  | send => exact send_effect w
  | recv =>
    simp only [Worker.step, Worker.recv]
    rcases hchannel : w.channel with _ | ⟨payload, rest⟩
    · simp only [ite_self]
      exact .stay
    · simp only
      split_ifs
      · exact .recv payload rest hchannel
      · exact .stay
  | close => exact .close
  | dropReceiver => exact .dropReceiver
  | abandon =>
    simp only [Worker.step, Worker.abandon]
    split_ifs with h
    · exact .abandon h.2.1
    · exact .stay
  | stop =>
    simp only [Worker.step]
    split_ifs with h
    · exact .stay
    · exact .stop (by simpa using h)

/-! ### What holds in every run -/

/-- The books of the worker: the bytes that are pending, the payloads in the channel, and that only a
closed connection ends the worker. -/
structure Books (w : Worker) : Prop where
  bytes : w.pendingBytes = (w.pendingData.map List.length).sum
  channel : w.received ++ w.channel = w.entered
  alive : w.connected = true → w.running = true

theorem Books.enter {w : Worker} (h : Books w) (payload : Bytes) : Books (w.enter payload) :=
  ⟨h.bytes, by rw [Worker.enter, ← List.append_assoc, h.channel], h.alive⟩

theorem Books.step {w w' : Worker} (he : Effect w a w') (h : Books w) : Books w' := by
  cases he with
  | stay => exact h
  | shut | close => exact ⟨h.bytes, h.channel, Bool.noConfusion⟩
  | release | skip | wait | dropReceiver | abandon => exact { h with }
  | reserve payload rest hpending =>
    refine Books.enter ?_ payload
    refine ⟨?_, h.channel, h.alive⟩
    have hbytes := h.bytes
    rw [hpending, List.map_cons, List.sum_cons] at hbytes
    show w.pendingBytes - payload.length = (rest.map List.length).sum
    omega
  | enter payload | send payload =>
    refine Books.enter ?_ payload
    exact { h with }
  | postpone payload =>
    refine ⟨?_, h.channel, h.alive⟩
    show w.pendingBytes + payload.length = ((w.pendingData ++ [payload]).map List.length).sum
    simp [h.bytes]
  | recv payload rest hchannel =>
    refine ⟨h.bytes, ?_, h.alive⟩
    show w.received ++ [payload] ++ rest = w.entered
    rw [← h.channel, hchannel, List.append_assoc]
    rfl
  | stop hclosed => exact ⟨h.bytes, h.channel, fun hc => absurd (hclosed.symm.trans hc) (by simp)⟩

theorem books_run (actions : List WorkerAction) : Books (runWorker actions) :=
  run_invariant ⟨rfl, rfl, fun _ => rfl⟩ (fun w a h => h.step (step_effect w a)) actions

/-! ### What holds when nothing is overtaken -/

/-- A payload that goes through `handle` to the application finds nothing pending. -/
def InTurn (w : Worker) (a : WorkerAction) : Prop :=
  a = .dispatch → ∀ payload ∈ w.readyFrames.head?, deliverable payload = true →
    isGame payload = false → w.pendingData = []

/-- While the connection is open, the payloads for the application that `RecvQ` has released are
those that have entered the channel, the one that waits in `handle`, the pending ones and the ready
ones, in this order. -/
structure Ordered (w : Worker) : Prop where
  flow : w.connected = true → w.entered ++ (w.sending.toList ++ (w.pendingData ++
    w.readyFrames.filter deliverable)) = w.released.filter deliverable
  alone : w.connected = true → w.sending ≠ none → w.pendingData = []

theorem Ordered.of_closed {w : Worker} (h : w.connected = false) : Ordered w :=
  ⟨fun hc => absurd (h.symm.trans hc) (by simp), fun hc => absurd (h.symm.trans hc) (by simp)⟩

theorem Ordered.step {w w' : Worker} {a : WorkerAction} (he : Effect w a w') (h : Ordered w)
    (hturn : InTurn w a) : Ordered w' := by
  cases he with
  | stay => exact h
  | shut => exact .of_closed rfl
  | release payloads hready =>
    refine ⟨fun hconnected => ?_, h.alone⟩
    have hflow := h.flow hconnected
    rw [hready, List.filter_nil, List.append_nil] at hflow
    simp only [List.filter_append, ← hflow, List.append_assoc]
  | reserve payload rest hpending hready hsending =>
    refine ⟨fun hconnected => ?_, fun _ hs => absurd hsending hs⟩
    have hflow := h.flow hconnected
    rw [hpending, hsending] at hflow
    simpa [Worker.enter, hsending] using hflow
  | skip payload rest hready hpayload =>
    refine ⟨fun hconnected => ?_, h.alone⟩
    have hflow := h.flow hconnected
    rwa [hready, List.filter_cons_of_neg (by simp [hpayload])] at hflow
  | enter payload rest hready hsending hpayload _ hgame ha =>
    -- nothing is pending: the payload is the next in order
    have hpending : w.pendingData = [] := by
      by_cases hg : isGame payload = true
      · exact hgame hg
      · exact hturn ha payload (by simp [hready]) hpayload (by simpa using hg)
    refine ⟨fun hconnected => ?_, fun _ hs => absurd hsending hs⟩
    have hflow := h.flow hconnected
    rw [hready, hpending, hsending, List.filter_cons_of_pos hpayload] at hflow
    simpa [Worker.enter, hsending, hpending] using hflow
  | postpone payload rest hready hsending hpayload =>
    refine ⟨fun hconnected => ?_, fun _ hs => absurd hsending hs⟩
    have hflow := h.flow hconnected
    rw [hready, List.filter_cons_of_pos hpayload] at hflow
    simpa [Worker.postpone] using hflow
  | wait payload rest hready hsending hpayload hgame ha =>
    have hpending : w.pendingData = [] := hturn ha payload (by simp [hready]) hpayload hgame
    refine ⟨fun hconnected => ?_, fun _ _ => hpending⟩
    have hflow := h.flow hconnected
    rw [hready, hpending, hsending, List.filter_cons_of_pos hpayload] at hflow
    simpa [hpending] using hflow
  | send payload hsending =>
    refine ⟨fun hconnected => ?_, fun _ hs => absurd rfl hs⟩
    have hpending : w.pendingData = [] := h.alone hconnected (by simp [hsending])
    have hflow := h.flow hconnected
    rw [hsending] at hflow
    simpa [Worker.enter] using hflow
  | recv => exact ⟨h.flow, h.alone⟩
  | close => exact .of_closed rfl
  | dropReceiver => exact ⟨h.flow, h.alone⟩
  | abandon hclosed | stop hclosed => exact .of_closed hclosed

/-- **Payload order under backpressure.** The pending bytes are counted right in every run. In a run
in which no payload passes through `handle` to the application while others are pending, and as long
as the connection is open, what enters the channel is a beginning of what `RecvQ` has released for
the application and nothing is lost: the rest is the payload that waits in `handle`, what is pending
and what is ready, in this order. -/
theorem payload_order (actions : List WorkerAction) :
    (runWorker actions).pendingBytes = ((runWorker actions).pendingData.map List.length).sum ∧
      (runWorker actions).received ++ (runWorker actions).channel = (runWorker actions).entered ∧
      (Always Worker.step .new InTurn actions → (runWorker actions).connected = true →
        (runWorker actions).entered <+: (runWorker actions).released.filter deliverable ∧
          (runWorker actions).entered ++ ((runWorker actions).sending.toList ++
            ((runWorker actions).pendingData ++
              (runWorker actions).readyFrames.filter deliverable)) =
            (runWorker actions).released.filter deliverable) := by
  have hbooks := books_run actions
  refine ⟨hbooks.bytes, hbooks.channel, fun hturn hconnected => ?_⟩
  have hordered : Ordered (runWorker actions) :=
    run_invariant_of (I := Ordered) ⟨fun _ => rfl, fun _ _ => rfl⟩
      (fun w a h ht => h.step (step_effect w a) ht) hturn
  have hflow := hordered.flow hconnected
  exact ⟨⟨_, hflow⟩, hflow⟩

/-- The action releases no payload for the application but `Game` payloads. -/
def GamesOnly (a : WorkerAction) : Prop :=
  ∀ payloads, a = .release payloads → ∀ payload ∈ payloads, deliverable payload = true →
    isGame payload = true

/-- Between peers that send `Game` payloads only, nothing is overtaken. -/
theorem inTurn_of_gamesOnly {actions : List WorkerAction} (h : ∀ a ∈ actions, GamesOnly a) :
    Always Worker.step .new InTurn actions := by
  intro before a after he ha payload hhead hpayload hgame
  have hready : ∀ payload ∈ (runWorker before).readyFrames, deliverable payload = true →
      isGame payload = true := by
    refine run_invariant_of (I := fun w : Worker => ∀ payload ∈ w.readyFrames,
      deliverable payload = true → isGame payload = true) (P := fun _ a => GamesOnly a)
      (fun _ hmem => (List.not_mem_nil hmem).elim) (fun w a hw hgames => ?_) ?_
    · have hrest : ∀ {payload rest}, w.readyFrames = payload :: rest → ∀ p ∈ rest,
          deliverable p = true → isGame p = true :=
        fun hready p hp => hw p (hready ▸ List.mem_cons_of_mem _ hp)
      have heffect := step_effect w a
      generalize w.step a = w' at heffect
      cases heffect with
      | shut _ hready => exact fun p hp => hw p (hready hp)
      | release payloads _ _ _ ha => exact hgames payloads ha
      | skip _ _ hready | enter _ _ hready | postpone _ _ hready | wait _ _ hready =>
        exact hrest hready
      | abandon => exact fun p hp => absurd hp List.not_mem_nil
      | _ => exact hw
    · intro before' a' after' he'
      exact h a' (by rw [he, he']; simp)
  have hmem := List.mem_of_mem_head? hhead
  exact absurd ((hready payload hmem hpayload).symm.trans hgame) Bool.noConfusion

/-- A hundred payloads fill the channel, one more is pending, and a payload of another kind follows
it. The application reads once. -/
def congested : List WorkerAction :=
  .release ((List.range 101).map (fun i => [0xfe, i.toUInt8]) ++ [[0xc0]]) ::
    List.replicate 102 .dispatch ++ [.recv, .send]

/-- **The later payload overtakes the pending one.** -/
theorem pending_overtaken :
    (runWorker congested).connected = true ∧
      (runWorker congested).released.drop 100 = [[0xfe, 100], [0xc0]] ∧
      (runWorker congested).entered.drop 100 = [[0xc0]] ∧
      (runWorker congested).pendingData = [[0xfe, 100]] := by
  decide +kernel

end RustRaknet.Socket
