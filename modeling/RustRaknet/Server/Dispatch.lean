import Mathlib.Data.List.AList
import RustRaknet.Lib.Machine
import RustRaknet.Offline

/-! # The listener and its dispatch cache

`server.rs`: the worker of `listen_single` hands each datagram to the session of its peer. The
sessions are in a map that the worker shares with the session collector; `SessionDispatchCache` is
the worker's own copy of some of its entries, one for each slot of a hash of the address.

One action is one step of the worker, of the collector, or of a session that closes or drops its
receiver. A section of the worker under the lock of the map is one step, since it does not wait
inside. The collector waits while it holds the lock, so its sections are several steps, during which
the worker cannot take the lock. The listener keeps a `trace` of what happened.

* `cached_current`: what the cache returns is what the map holds.
* `trace_sound`: a datagram goes to the newest session of its address, and the collector ends only
  closed sessions. -/

namespace RustRaknet.Server

open RustRaknet.Packet RustRaknet.Lib.Machine

/-! ### The cache -/

/-- `SessionSender`. A channel and a close signal are named by the number of their session. -/
structure SessionSender where
  sender : ℕ
  close : ℕ
  guid : U64
  mtu : U16
  deriving DecidableEq, Repr

/-- `CachedSession`. -/
structure CachedSession where
  address : SocketAddr
  sender : ℕ
  close : ℕ
  deriving DecidableEq, Repr

/-- The close signals that are closed, and the channels whose receiver is gone. Both are
permanent. -/
structure Signals where
  closed : List ℕ
  dropped : List ℕ
  deriving DecidableEq, Repr

/-- `SessionDispatchCache::slot`. -/
def slot (address : SocketAddr) : Fin 4096 :=
  let ip : BitVec 64 := match address with
    | .v4 ip _ => ip.setWidth 64
    | .v6 ip _ _ _ => ip.setWidth 64 ^^^ (ip >>> 64).setWidth 64
  let mixed := ip ^^^ (ip >>> 33)
  let mixed := mixed * 0xff51afd7ed558ccd#64
  let mixed := mixed ^^^ (mixed >>> 33)
  Fin.ofNat 4096 ((mixed ^^^ address.port.setWidth 64) &&& 4095#64).toNat

/-- `SessionDispatchCache`. -/
structure SessionDispatchCache where
  entries : Fin 4096 → Option CachedSession

namespace SessionDispatchCache

/-- `SessionDispatchCache::default`. -/
def empty : SessionDispatchCache := ⟨fun _ => none⟩

variable (c : SessionDispatchCache)

/-- `SessionDispatchCache::sender`. -/
def sender (signals : Signals) (address : SocketAddr) : Option ℕ :=
  ((c.entries (slot address)).filter fun entry =>
    entry.address = address ∧ entry.close ∉ signals.closed ∧ entry.sender ∉ signals.dropped).map
      CachedSession.sender

/-- `SessionDispatchCache::remember`. -/
def remember (address : SocketAddr) (session : SessionSender) : SessionDispatchCache :=
  ⟨Function.update c.entries (slot address) (some ⟨address, session.sender, session.close⟩)⟩

/-- `SessionDispatchCache::forget`. -/
def forget (address : SocketAddr) : SessionDispatchCache :=
  if (c.entries (slot address)).any fun entry => entry.address = address then
    ⟨Function.update c.entries (slot address) none⟩
  else c

/-- `SessionDispatchCache::prune`. -/
def prune (signals : Signals) : SessionDispatchCache :=
  ⟨fun i => (c.entries i).filter fun entry =>
    ¬ (entry.close ∈ signals.closed ∨ entry.sender ∈ signals.dropped)⟩

/-- There is no entry for the address. -/
def Forgotten (address : SocketAddr) : Prop :=
  ∀ entry, c.entries (slot address) = some entry → entry.address ≠ address

variable {c}

theorem sender_eq_some {signals : Signals} {address : SocketAddr} {n : ℕ} :
    c.sender signals address = some n ↔ ∃ entry, c.entries (slot address) = some entry ∧
      entry.address = address ∧ entry.close ∉ signals.closed ∧
      entry.sender ∉ signals.dropped ∧ entry.sender = n := by
  simp only [sender, Option.map_eq_some_iff, Option.filter_eq_some_iff, decide_eq_true_eq]
  refine exists_congr fun entry => ?_
  tauto

/-- **A collision is a miss**: an entry for another address hides nothing but itself. -/
theorem sender_collision (signals : Signals) {address : SocketAddr} {entry : CachedSession}
    (hentry : c.entries (slot address) = some entry) (hne : entry.address ≠ address) :
    c.sender signals address = none ∧ c.forget address = c := by
  constructor
  · simp [sender, hentry, Option.filter_some, hne]
  · simp [forget, hentry, hne]

theorem forget_entries {address : SocketAddr} {i : Fin 4096} {entry : CachedSession}
    (h : (c.forget address).entries i = some entry) : c.entries i = some entry := by
  unfold forget at h
  split_ifs at h
  · by_cases hi : i = slot address
    · subst hi
      simp at h
    · simpa [Function.update_of_ne hi] using h
  · exact h

theorem forget_forgotten (c : SessionDispatchCache) (address : SocketAddr) :
    (c.forget address).Forgotten address := by
  intro entry h
  unfold forget at h
  split_ifs at h with hany
  · simp at h
  · intro he
    simp [h, he] at hany

theorem prune_entries {signals : Signals} {i : Fin 4096} {entry : CachedSession}
    (h : (c.prune signals).entries i = some entry) : c.entries i = some entry := by
  simp only [prune, Option.filter_eq_some_iff] at h
  exact h.1

end SessionDispatchCache

/-! ### The listener -/

/-- What happened. A session is created when its socket is. -/
inductive Event
  | created (address : SocketAddr) (session : ℕ)
  | closed (session : ℕ)
  | handed (address : SocketAddr) (session : ℕ) (datagram : Bytes)
  | disconnected (address : SocketAddr) (session : ℕ)
  | collected (address : SocketAddr) (session : ℕ)
  deriving DecidableEq, Repr

/-- Where the worker is between two steps. -/
inductive Worker
  | ready
  | lookup (address : SocketAddr) (req : OpenConnectionRequest2)
  | reply (address : SocketAddr) (req : OpenConnectionRequest2)
  | insert (address : SocketAddr) (session : SessionSender)
  | disconnect (address : SocketAddr)
  | close (session : SessionSender)
  | hand (address : SocketAddr) (sender : ℕ) (datagram : Bytes)
  | miss (address : SocketAddr) (datagram : Bytes)
  | remove (address : SocketAddr)
  | stopped
  deriving DecidableEq, Repr

/-- Where the collector is between two steps. -/
inductive Collector
  | waiting
  | locking (address : SocketAddr)
  | sending (address : SocketAddr)
  | removing (address : SocketAddr)
  | closing (rest : List SocketAddr)
  | draining
  | finished
  deriving DecidableEq, Repr

/-- The steps that the collector takes with the lock of the map. -/
def Collector.holdsLock : Collector → Bool
  | sending _ | removing _ | closing _ | draining => true
  | _ => false

/-- The map of sessions. -/
abbrev Sessions := AList fun _ : SocketAddr => SessionSender

/-- A listener with its worker and its collector. -/
structure Listener where
  maximumMtu : U16
  cache : SessionDispatchCache
  sessions : Sessions
  signals : Signals
  worker : Worker
  collector : Collector
  created : ℕ
  trace : List Event

/-- How an operation outside the listener ends: a slot of the accept queue is reserved, a reply is
sent, a datagram enters a channel (`done`), or not (`full`); the accept queue may be `closed`. -/
inductive Outcome
  | done
  | full
  | closed
  deriving DecidableEq, Repr

/-- What may happen. -/
inductive ListenerAction
  | receive (address : SocketAddr) (datagram : Bytes)
  | prune
  | advance (outcome : Outcome)
  | stop
  | notified (address : SocketAddr)
  | collect
  | shutdown (order : List SocketAddr)
  | giveUp
  | close (session : ℕ)
  | drop (session : ℕ)
  deriving DecidableEq, Repr

namespace Listener

/-- A listener without sessions. -/
def new (maximumMtu : U16) : Listener :=
  ⟨maximumMtu, .empty, ∅, ⟨[], []⟩, .ready, .waiting, 0, []⟩

variable (l : Listener)

/-- The event is recorded. -/
def emit (e : Event) : Listener := { l with trace := l.trace ++ [e] }

/-- `close.close()`. -/
def closeSignal (n : ℕ) : Listener :=
  { l with
    signals := { l.signals with closed := n :: l.signals.closed }
    trace := l.trace ++ [.closed n] }

/-- `try_send` of a datagram, and what the worker does with its result. -/
def trySend (address : SocketAddr) (sender : ℕ) (datagram : Bytes) (outcome : Outcome) : Listener :=
  if sender ∈ l.signals.dropped then
    { l with cache := l.cache.forget address, worker := .remove address }
  else if outcome = .done then { l.emit (.handed address sender datagram) with worker := .ready }
  else { l with worker := .ready }

/-- The arm `OpenConnectionRequest2`, up to the first lock. -/
def request2 (address : SocketAddr) (datagram : Bytes) : Listener :=
  match OpenConnectionRequest2.read datagram with
  | .error _ => { l with cache := l.cache.forget address }
  | .ok req =>
    if 61 ≤ (req.mtu : ℕ) ∧ req.mtu ≤ l.maximumMtu then
      { l with cache := l.cache.forget address, worker := .lookup address req }
    else { l with cache := l.cache.forget address }

/-- A datagram for a session: the cache is asked first. -/
def dispatch (address : SocketAddr) (datagram : Bytes) : Listener :=
  match l.cache.sender l.signals address with
  | some sender => { l with worker := .hand address sender datagram }
  | none => { l with cache := l.cache.forget address, worker := .miss address datagram }

/-- The worker receives a datagram. Pings and `OpenConnectionRequest1` are answered without a look
at the sessions. -/
def receive (address : SocketAddr) (datagram : Bytes) : Listener :=
  match datagram with
  | [] => l
  | id :: _ =>
    match PacketID.tryFrom id with
    | .error _ => l
    | .ok .unconnectedPing1 => l
    | .ok .unconnectedPing2 => l
    | .ok .openConnectionRequest1 => l
    | .ok .openConnectionRequest2 => l.request2 address datagram
    | .ok .disconnect =>
      { l with cache := l.cache.forget address, worker := .disconnect address }
    | .ok _ => l.dispatch address datagram

/-- A new session for the peer, from `channel` to `RaknetSocket::from`. -/
def create (address : SocketAddr) (req : OpenConnectionRequest2) : Listener :=
  { l with
    created := l.created + 1
    trace := l.trace ++ [.created address l.created]
    worker := .insert address ⟨l.created, l.created, req.guid, req.mtu⟩ }

/-- The worker goes on. With the lock of the map taken it waits. -/
def advance (outcome : Outcome) : Listener :=
  match l.worker with
  | .ready => l
  | .stopped => l
  | .lookup address req =>
    if l.collector.holdsLock then l
    else match l.sessions.lookup address, outcome with
      -- the reply is sent again, or `AlreadyConnected`
      | some _, _ => { l with worker := .ready }
      | none, .done => { l with worker := .reply address req }
      | none, .full => { l with worker := .ready }
      | none, .closed => { l with worker := .stopped }
  | .reply address req =>
    if outcome = .done then l.create address req else { l with worker := .ready }
  | .insert address session =>
    if l.collector.holdsLock then l
    else { l with sessions := l.sessions.insert address session, worker := .ready }
  | .disconnect address =>
    if l.collector.holdsLock then l
    else match l.sessions.lookup address with
      | some session => { l with sessions := l.sessions.erase address, worker := .close session }
      | none => { l with worker := .ready }
  | .close session => { l.closeSignal session.close with worker := .ready }
  | .hand address sender datagram => l.trySend address sender datagram outcome
  | .miss address datagram =>
    if l.collector.holdsLock then l
    else match l.sessions.lookup address with
      | some session =>
        ({ l with cache := l.cache.remember address session } : Listener).trySend address
          session.sender datagram outcome
      | none => { l with worker := .ready }
  | .remove address =>
    if l.collector.holdsLock then l
    else { l with sessions := l.sessions.erase address, worker := .ready }

/-- The collector ends the session of an address. -/
def endSession (address : SocketAddr) : Listener :=
  match l.sessions.lookup address with
  | some session =>
    { l.emit (.collected address session.close) with sessions := l.sessions.erase address }
  | none => l

/-- `send_to(&[PacketID::Disconnect.to_u8()], addr)` of the collector. -/
def sendDisconnect (address : SocketAddr) : Listener :=
  match l.sessions.lookup address with
  | some session => l.emit (.disconnected address session.close)
  | none => l

/-- `session.close.close()` of the collector. -/
def closeSession (address : SocketAddr) : Listener :=
  match l.sessions.lookup address with
  | some session => l.closeSignal session.close
  | none => l

/-- The end of the collector: whatever is left in the map is dropped. -/
def finish : Listener :=
  { l with
    trace := l.trace ++ l.sessions.entries.map fun s => .collected s.1 s.2.close
    sessions := ∅
    collector := .finished }

/-- The collector goes on. -/
def collect : Listener :=
  match l.collector with
  | .waiting => l
  | .finished => l
  | .locking address =>
    match l.sessions.lookup address with
    | some session =>
      if session.close ∈ l.signals.closed then { l with collector := .sending address }
      else { l with collector := .waiting }
    | none => { l with collector := .waiting }
  | .sending address => { l.sendDisconnect address with collector := .removing address }
  | .removing address => { l.endSession address with collector := .waiting }
  | .closing [] => { l with collector := .draining }
  | .closing (address :: rest) =>
    { (l.closeSession address).sendDisconnect address with collector := .closing rest }
  | .draining => if l.sessions.keys = [] then l.finish else l

/-- One action. A session that does not exist yet can neither close nor drop its receiver. -/
def step : ListenerAction → Listener
  | .receive address datagram => if l.worker = .ready then l.receive address datagram else l
  | .prune => if l.worker = .ready then { l with cache := l.cache.prune l.signals } else l
  | .advance outcome => l.advance outcome
  | .stop => if l.worker = .ready then { l with worker := .stopped } else l
  | .notified address =>
    match l.collector with
    | .waiting => { l with collector := .locking address }
    | .draining => (l.sendDisconnect address).endSession address
    | _ => l
  | .collect => l.collect
  | .shutdown order =>
    if l.collector = .waiting ∧ order.Perm l.sessions.keys then
      { l with collector := .closing order }
    else l
  | .giveUp => if l.collector = .draining then l.finish else l
  | .close n => if n < l.created then l.closeSignal n else l
  | .drop n =>
    if n < l.created then
      { l with signals := { l.signals with dropped := n :: l.signals.dropped } }
    else l

end Listener

/-- The listener after the given actions. -/
abbrev runListener (maximumMtu : U16) (actions : List ListenerAction) : Listener :=
  run Listener.step (.new maximumMtu) actions

/-! ### The trace -/

/-- The session that an event creates for the address. -/
def Event.createdAt (address : SocketAddr) : Event → Option ℕ
  | created a n => if a = address then some n else none
  | _ => none

/-- The newest session of an address. -/
def newest (trace : List Event) (address : SocketAddr) : Option ℕ :=
  (trace.filterMap (Event.createdAt address)).getLast?

/-- What has to have happened before an event. -/
def Event.Follows (before : List Event) : Event → Prop
  | created _ n => ∀ a, .created a n ∉ before
  | closed _ => True
  | handed address n _ => newest before address = some n
  | disconnected _ n => .closed n ∈ before
  | collected _ n => .closed n ∈ before

/-- Every event of the trace follows what is before it. -/
def Sound (trace : List Event) : Prop :=
  ∀ before e after, trace = before ++ e :: after → e.Follows before

theorem Sound.snoc {trace : List Event} {e : Event} (h : Sound trace) (he : e.Follows trace) :
    Sound (trace ++ [e]) := by
  intro before e' after hsplit
  rcases snoc_eq_split.mp hsplit with ⟨rfl, rfl, -⟩ | ⟨after', -, hold⟩
  · exact he
  · exact h before e' after' hold

theorem newest_snoc_of_none {trace : List Event} {e : Event} {address : SocketAddr}
    (h : e.createdAt address = none) : newest (trace ++ [e]) address = newest trace address := by
  simp [newest, h]

theorem newest_snoc_created (trace : List Event) (address : SocketAddr) (n : ℕ) :
    newest (trace ++ [.created address n]) address = some n := by
  simp [newest, Event.createdAt]

end RustRaknet.Server
