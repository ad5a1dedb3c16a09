import RustRaknet.Send.Queue
import RustRaknet.Server.Dispatch

/-! # The offline handshake

`socket.rs`: `connect_with_version_and_mtu` up to the negotiated MTU, and `server.rs`: the answers
of `listen_single` to `OpenConnectionRequest1` and `OpenConnectionRequest2`. The network keeps every
datagram that was sent and may deliver it at any time, any number of times or never. The listener
also receives whatever other peers send, from other addresses. One step of the listener is the
handling of one datagram. Sessions do not end during the handshake.

* `Agreement` is what holds of the client, the listener and the datagrams on the network at any
  time; `negotiated_mtu_agrees` is the result. -/

namespace RustRaknet.Server

open RustRaknet.Packet RustRaknet.Lib.Machine RustRaknet.Lib.Result RustRaknet.Send

/-! ### The listener -/

/-- An MTU that the crate accepts, as the client's request and as the maximum of a listener. -/
structure Mtu where
  value : U16
  low : 61 ≤ (value : ℕ)
  high : (value : ℕ) ≤ 1492

/-- The part of `RaknetSocket` that the handshake decides. -/
structure RaknetSocket where
  peerAddr : SocketAddr
  sendq : SendQ
  raknetVersion : U8
  mtu : U16

/-- `RaknetSocket::from`. -/
def RaknetSocket.from (address : SocketAddr) (mtu : U16) (raknetVersion : U8) : RaknetSocket :=
  ⟨address, .new mtu, raknetVersion, mtu⟩

/-- `RAKNET_PROTOCOL_VERSION`. -/
def raknetProtocolVersion : U8 := ⟨10, by decide⟩

/-- `RAKNET_PROTOCOL_VERSION_LIST`. -/
def raknetProtocolVersionList : List U8 := [⟨10, by decide⟩, ⟨11, by decide⟩]

/-- A `u8` that is zero. -/
def noEncryption : U8 := ⟨0, by decide⟩

/-- The listener as the handshake sees it. `sockets` are the sockets of all sessions it created, and
a session is named by its place there. Times are in seconds. -/
structure Acceptor where
  guid : U64
  maximumMtu : Mtu
  pendingVersions : AList fun _ : SocketAddr => U8 × ℕ
  sessions : Sessions
  sockets : List RaknetSocket
  running : Bool

/-- What the listener meets outside while it handles a datagram: the time, the state of the accept
queue, and whether its reply could be sent. -/
structure Circumstance where
  now : ℕ
  accept : Outcome
  sent : Bool
  deriving DecidableEq, Repr

namespace Acceptor

/-- A new listener. -/
def new (guid : U64) (maximumMtu : Mtu) : Acceptor := ⟨guid, maximumMtu, ∅, ∅, [], true⟩

variable (s : Acceptor)

/-- The arm `OpenConnectionRequest1`: the new state and the reply. -/
def request1 (address : SocketAddr) (datagram : Bytes) (c : Circumstance) :
    Acceptor × Option Bytes :=
  match OpenConnectionRequest1.read datagram with
  | .error _ => (s, none)
  | .ok req =>
    if req.protocolVersion ∉ raknetProtocolVersionList then
      (s, some (IncompatibleProtocolVersion.mk raknetProtocolVersion s.guid).write)
    else if 4096 ≤ s.pendingVersions.keys.length ∧ address ∉ s.pendingVersions then (s, none)
    else
      ({ s with pendingVersions := s.pendingVersions.insert address (req.protocolVersion, c.now) },
        some (OpenConnectionReply1.mk s.guid noEncryption
          (min req.mtuSize s.maximumMtu.value)).write)

/-- The version that the peer asked for less than a minute ago. -/
def pendingVersion (address : SocketAddr) (now : ℕ) : U8 :=
  (((s.pendingVersions.lookup address).filter fun p => now - p.2 < 60).map Prod.fst).getD
    raknetProtocolVersion

/-- A session for the peer. -/
def accept (address : SocketAddr) (req : OpenConnectionRequest2) (now : ℕ) : Acceptor :=
  { s with
    pendingVersions := s.pendingVersions.erase address
    sessions := s.sessions.insert address ⟨s.sockets.length, s.sockets.length, req.guid, req.mtu⟩
    sockets := s.sockets ++ [.from address req.mtu (s.pendingVersion address now)] }

/-- `OpenConnectionReply2` for the peer. -/
def reply2 (address : SocketAddr) (mtu : U16) : Bytes :=
  (OpenConnectionReply2.mk s.guid address mtu noEncryption).write

/-- The arm `OpenConnectionRequest2`. The session is created after its reply was sent. -/
def request2 (address : SocketAddr) (datagram : Bytes) (c : Circumstance) :
    Acceptor × Option Bytes :=
  match OpenConnectionRequest2.read datagram with
  | .error _ => (s, none)
  | .ok req =>
    if ¬ (61 ≤ (req.mtu : ℕ) ∧ req.mtu ≤ s.maximumMtu.value) then (s, none)
    else match s.sessions.lookup address with
      | some session =>
        if session.guid = req.guid then (s, some (s.reply2 address session.mtu))
        else (s, some (AlreadyConnected.mk s.guid).write)
      | none =>
        match c.accept with
        | .full => (s, none)
        | .closed => ({ s with running := false }, none)
        | .done =>
          if c.sent then (s.accept address req c.now, some (s.reply2 address req.mtu))
          else (s, none)

/-- The handling of one datagram. Pings are answered without a change, and other datagrams go to
their session. -/
def handle (address : SocketAddr) (datagram : Bytes) (c : Circumstance) :
    Acceptor × Option Bytes :=
  match datagram with
  | [] => (s, none)
  | id :: _ =>
    match PacketID.tryFrom id with
    | .ok .openConnectionRequest1 => s.request1 address datagram c
    | .ok .openConnectionRequest2 => s.request2 address datagram c
    | .ok .disconnect => ({ s with sessions := s.sessions.erase address }, none)
    | _ => (s, none)

/-- The cleanup timer: `pending_versions.retain`. -/
def cleanup (now : ℕ) : Acceptor :=
  { s with pendingVersions :=
      ⟨s.pendingVersions.entries.filter fun p => now - p.2.2 < 60,
        s.pendingVersions.nodupKeys.sublist List.filter_sublist⟩ }

end Acceptor

/-! ### The client -/

/-- The arguments of `connect_with_version_and_mtu`, and the identity and the source address of the
attempt. -/
structure Attempt where
  server : SocketAddr
  address : SocketAddr
  guid : U64
  raknetVersion : U8
  requested : Mtu

/-- Where the client is: it sends a request, waits for the reply, or is done. -/
inductive Client
  | send1 (buf : Bytes)
  | wait1 (buf : Bytes)
  | send2 (mtu : U16) (buf : Bytes)
  | wait2 (mtu : U16) (buf : Bytes)
  | negotiated (mtu : U16)
  | failed (error : RaknetError)
  deriving DecidableEq, Repr

namespace Client

/-- The start of the attempt. -/
def start (a : Attempt) : Client :=
  match (OpenConnectionRequest1.mk a.raknetVersion a.requested.value).write with
  | .ok buf => send1 buf
  | .error e => failed e

/-- A datagram while the client waits for `OpenConnectionReply1`. -/
def onReply1 (a : Attempt) (buf datagram : Bytes) : Client :=
  if datagram.head? = some PacketID.openConnectionReply1.toU8 then
    match OpenConnectionReply1.read datagram with
    | .error _ => failed .packetParseError
    | .ok reply1 =>
      if 61 ≤ (reply1.mtuSize : ℕ) ∧ reply1.mtuSize ≤ a.requested.value then
        send2 reply1.mtuSize (OpenConnectionRequest2.mk a.server reply1.mtuSize a.guid).write
      else failed .incorrectReply
  else if datagram.head? = some PacketID.incompatibleProtocolVersion.toU8 then
    failed .notSupportVersion
  else send1 buf

/-- A datagram while the client waits for `OpenConnectionReply2`. -/
def onReply2 (mtu : U16) (buf datagram : Bytes) : Client :=
  match datagram with
  | [] => send2 mtu buf
  | id :: _ =>
    if id = PacketID.openConnectionReply1.toU8 then send2 mtu buf
    else if PacketID.tryFrom id = .ok .alreadyConnected ∨ PacketID.tryFrom id = .ok .disconnect then
      failed .connectionClosed
    else if id ≠ PacketID.openConnectionReply2.toU8 then send2 mtu buf
    else match OpenConnectionReply2.read datagram with
      | .error _ => failed .packetParseError
      | .ok reply2 =>
        if 61 ≤ (reply2.mtu : ℕ) ∧ reply2.mtu ≤ mtu then negotiated reply2.mtu
        else failed .incorrectReply

/-- The client receives a datagram. What does not come from the server only ends the wait. -/
def receive (a : Attempt) (source : SocketAddr) (datagram : Bytes) : Client → Client
  | wait1 buf =>
    if datagram = [] ∨ source ≠ a.server then send1 buf else onReply1 a buf datagram
  | wait2 mtu buf =>
    if datagram = [] ∨ source ≠ a.server then send2 mtu buf else onReply2 mtu buf datagram
  | c => c

/-- The datagram that the client is about to send. -/
def outgoing : Client → Option Bytes
  | send1 buf => some buf
  | send2 _ buf => some buf
  | _ => none

/-- `send_to` succeeded. -/
def sent : Client → Client
  | send1 buf => wait1 buf
  | send2 mtu buf => wait2 mtu buf
  | c => c

/-- A wait ends without a datagram. -/
def timeout : Client → Client
  | wait1 buf => send1 buf
  | wait2 mtu buf => send2 mtu buf
  | c => c

end Client

/-! ### The network -/

/-- The client, the listener and what was sent between them. -/
structure Handshake where
  client : Client
  listener : Acceptor
  toListener : List Bytes
  toClient : List Bytes

/-- What may happen. The client's `send_to` may fail. -/
inductive HandshakeAction
  | send (ok : Bool)
  | timeout
  | toClient (source : SocketAddr) (datagram : Bytes)
  | toListener (source : SocketAddr) (datagram : Bytes) (c : Circumstance)
  | cleanup (now : ℕ)

namespace Handshake

/-- The start of the handshake. -/
def new (a : Attempt) (guid : U64) (maximumMtu : Mtu) : Handshake :=
  ⟨.start a, .new guid maximumMtu, [], []⟩

variable (a : Attempt) (h : Handshake)

/-- The listener handles a datagram; its reply goes back to where the datagram came from. -/
def answer (source : SocketAddr) (datagram : Bytes) (c : Circumstance) : Handshake :=
  let (listener, reply) := h.listener.handle source datagram c
  { h with
    listener
    toClient := h.toClient ++ if source = a.address ∧ c.sent then reply.toList else [] }

/-- One action. Datagrams under the addresses of the client and of the listener are their own. -/
def step : HandshakeAction → Handshake
  | .send ok =>
    match h.client.outgoing with
    | some buf =>
      if ok then { h with client := h.client.sent, toListener := h.toListener ++ [buf] } else h
    | none => h
  | .timeout => { h with client := h.client.timeout }
  | .toClient source datagram =>
    if source = a.server → datagram ∈ h.toClient then
      { h with client := h.client.receive a source datagram }
    else h
  | .toListener source datagram c =>
    if h.listener.running ∧ (source = a.address → datagram ∈ h.toListener) then
      h.answer a source datagram c
    else h
  | .cleanup now => { h with listener := h.listener.cleanup now }

end Handshake

/-- The handshake after the given actions. -/
abbrev runHandshake (a : Attempt) (guid : U64) (maximumMtu : Mtu)
    (actions : List HandshakeAction) : Handshake :=
  run (Handshake.step a) (.new a guid maximumMtu) actions

/-! ### What holds at any time -/

section agreement

variable {a : Attempt} {guid : U64} {maximumMtu : Mtu} {s : Acceptor} {source : SocketAddr}
  {datagram : Bytes} {c : Circumstance}

/-- The MTU that the parties agree on. -/
def agreedMtu (a : Attempt) (maximumMtu : Mtu) : U16 := min a.requested.value maximumMtu.value

theorem agreedMtu_le (a : Attempt) (maximumMtu : Mtu) :
    61 ≤ (agreedMtu a maximumMtu : ℕ) ∧ agreedMtu a maximumMtu ≤ a.requested.value ∧
      agreedMtu a maximumMtu ≤ maximumMtu.value := by
  refine ⟨?_, min_le_left _ _, min_le_right _ _⟩
  rcases min_choice a.requested.value maximumMtu.value with h | h
  · rw [agreedMtu, h]
    exact a.requested.low
  · rw [agreedMtu, h]
    exact maximumMtu.low

/-- The listener has one session for the client, of the agreed MTU. -/
structure Served (a : Attempt) (maximumMtu : Mtu) (s : Acceptor) : Prop where
  socket : ∃ version, s.sockets.filter (fun x => x.peerAddr = a.address) =
    [.from a.address (agreedMtu a maximumMtu) version]
  session : ∃ session, s.sessions.lookup a.address = some session ∧ session.guid = a.guid ∧
    session.mtu = agreedMtu a maximumMtu

/-- The listener has no session for the client. -/
structure Unserved (a : Attempt) (s : Acceptor) : Prop where
  socket : s.sockets.filter (fun x => x.peerAddr = a.address) = []
  session : s.sessions.lookup a.address = none

/-- The second request of the client. -/
def Attempt.secondRequest (a : Attempt) (maximumMtu : Mtu) : Bytes :=
  (OpenConnectionRequest2.mk a.server (agreedMtu a maximumMtu) a.guid).write

/-- The datagrams the client sends. -/
inductive Requested (a : Attempt) (maximumMtu : Mtu) : Bytes → Prop
  | first {buf : Bytes}
      (h : (OpenConnectionRequest1.mk a.raknetVersion a.requested.value).write = .ok buf) :
      Requested a maximumMtu buf
  | second : Requested a maximumMtu (a.secondRequest maximumMtu)

/-- The datagrams the listener sends to the client. -/
inductive Replied (a : Attempt) (maximumMtu : Mtu) (s : Acceptor) : Bytes → Prop
  | incompatible (p : IncompatibleProtocolVersion) : Replied a maximumMtu s p.write
  | first (g : U64) : Replied a maximumMtu s
      (OpenConnectionReply1.mk g noEncryption (agreedMtu a maximumMtu)).write
  | second (g : U64) (h : Served a maximumMtu s) : Replied a maximumMtu s
      (OpenConnectionReply2.mk g a.address (agreedMtu a maximumMtu) noEncryption).write

/-- What the client knows. -/
def Client.Agrees (a : Attempt) (maximumMtu : Mtu) (s : Acceptor) : Client → Prop
  | send1 buf | wait1 buf =>
    (OpenConnectionRequest1.mk a.raknetVersion a.requested.value).write = .ok buf
  | send2 mtu buf | wait2 mtu buf =>
    mtu = agreedMtu a maximumMtu ∧ buf = a.secondRequest maximumMtu
  | negotiated mtu => mtu = agreedMtu a maximumMtu ∧ Served a maximumMtu s
  | failed _ => True

/-- What holds of the handshake at any time. -/
structure Agreement (a : Attempt) (maximumMtu : Mtu) (h : Handshake) : Prop where
  maximum : h.listener.maximumMtu = maximumMtu
  listener : Unserved a h.listener ∨ Served a maximumMtu h.listener
  toListener : ∀ b ∈ h.toListener, Requested a maximumMtu b
  toClient : ∀ b ∈ h.toClient, Replied a maximumMtu h.listener b
  client : h.client.Agrees a maximumMtu h.listener

/-! ### The listener -/

/-- The two ways of `request2`: no session, or a new one. -/
theorem request2_effect (s : Acceptor) (source : SocketAddr) (datagram : Bytes)
    (c : Circumstance) :
    (∃ running reply, s.request2 source datagram c = ({ s with running }, reply)) ∨
      ∃ req reply, s.request2 source datagram c = (s.accept source req c.now, reply) := by
  unfold Acceptor.request2
  cases OpenConnectionRequest2.read datagram with
  | error e => exact .inl ⟨_, _, rfl⟩
  | ok req =>
    simp only
    by_cases hmtu : 61 ≤ (req.mtu : ℕ) ∧ req.mtu ≤ s.maximumMtu.value
    · rw [if_neg (not_not_intro hmtu)]
      cases s.sessions.lookup source with
      | some session =>
        simp only
        split_ifs
        · exact .inl ⟨_, _, rfl⟩
        · exact .inl ⟨_, _, rfl⟩
      | none =>
        cases c.accept with
        | full | closed => exact .inl ⟨_, _, rfl⟩
        | done =>
          simp only
          split_ifs
          · exact .inr ⟨req, _, rfl⟩
          · exact .inl ⟨_, _, rfl⟩
    · rw [if_pos hmtu]
      exact .inl ⟨_, _, rfl⟩

theorem request1_effect (s : Acceptor) (source : SocketAddr) (datagram : Bytes)
    (c : Circumstance) :
    ∃ pendingVersions reply, s.request1 source datagram c = ({ s with pendingVersions }, reply) := by
  unfold Acceptor.request1
  cases OpenConnectionRequest1.read datagram with
  | error e => exact ⟨_, _, rfl⟩
  | ok req =>
    simp only
    split_ifs <;> exact ⟨_, _, rfl⟩

/-- **Other peers** change nothing for the client. -/
theorem handle_other (s : Acceptor) (datagram : Bytes) (c : Circumstance)
    (hsource : source ≠ a.address) :
    (s.handle source datagram c).1.sockets.filter (fun x => x.peerAddr = a.address) =
        s.sockets.filter (fun x => x.peerAddr = a.address) ∧
      (s.handle source datagram c).1.sessions.lookup a.address = s.sessions.lookup a.address ∧
      (s.handle source datagram c).1.maximumMtu = s.maximumMtu := by
  unfold Acceptor.handle
  split
  · exact ⟨rfl, rfl, rfl⟩
  · split
    · obtain ⟨_, _, heq⟩ := request1_effect s source _ c
      rw [heq]
      exact ⟨rfl, rfl, rfl⟩
    · rcases request2_effect s source _ c with ⟨_, _, heq⟩ | ⟨_, _, heq⟩
      · rw [heq]
        exact ⟨rfl, rfl, rfl⟩
      · rw [heq]
        refine ⟨?_, ?_, rfl⟩
        · simp [Acceptor.accept, RaknetSocket.from, hsource]
        · simp [Acceptor.accept, AList.lookup_insert_ne hsource.symm]
    · exact ⟨rfl, AList.lookup_erase_ne hsource.symm, rfl⟩
    · exact ⟨rfl, rfl, rfl⟩

/-- The first request creates no session, and the reply offers the agreed MTU. -/
theorem handle_first
    (hbuf : (OpenConnectionRequest1.mk a.raknetVersion a.requested.value).write = .ok datagram)
    (s : Acceptor) :
    ∃ pendingVersions reply, s.handle a.address datagram c =
        ({ s with pendingVersions }, reply) ∧
      ∀ b ∈ reply, ∀ s', Replied a s.maximumMtu s' b := by
  have hread := OpenConnectionRequest1.read_write hbuf
  have hhandle : s.handle a.address datagram c = s.request1 a.address datagram c := by
    unfold OpenConnectionRequest1.write at hbuf
    split_ifs at hbuf
    obtain rfl := Except.ok.inj hbuf
    rfl
  rw [hhandle, Acceptor.request1, hread]
  simp only
  by_cases hversion : a.raknetVersion ∈ raknetProtocolVersionList
  · rw [if_neg (not_not_intro hversion)]
    split_ifs
    · exact ⟨_, _, rfl, fun b hb => absurd hb (by simp)⟩
    · refine ⟨_, _, rfl, fun b hb s' => ?_⟩
      rw [← Option.some.inj hb]
      exact .first s.guid
  · rw [if_pos hversion]
    refine ⟨_, _, rfl, fun b hb s' => ?_⟩
    rw [← Option.some.inj hb]
    exact .incompatible _

/-- The second request leaves one session of the agreed MTU when it is answered, and it is answered
in the same way again. -/
theorem handle_second (s : Acceptor) (hs : Unserved a s ∨ Served a s.maximumMtu s) :
    let r := s.handle a.address (a.secondRequest s.maximumMtu) c
    r.1.maximumMtu = s.maximumMtu ∧
      (Unserved a r.1 ∧ r.2 = none ∨ Served a s.maximumMtu r.1 ∧
        ∀ b ∈ r.2, Replied a s.maximumMtu r.1 b) ∧
      (Served a s.maximumMtu s → Served a s.maximumMtu r.1) := by
  have hread : OpenConnectionRequest2.read (a.secondRequest s.maximumMtu) =
      .ok ⟨a.server.bare, agreedMtu a s.maximumMtu, a.guid⟩ :=
    OpenConnectionRequest2.read_write _
  obtain ⟨hlow, -, hhigh⟩ := agreedMtu_le a s.maximumMtu
  have hhandle : s.handle a.address (a.secondRequest s.maximumMtu) c =
      s.request2 a.address (a.secondRequest s.maximumMtu) c := rfl
  intro r
  have hr : r = s.request2 a.address (a.secondRequest s.maximumMtu) c := hhandle
  rw [Acceptor.request2, hread] at hr
  simp only at hr
  rw [if_neg (not_not_intro ⟨hlow, hhigh⟩)] at hr
  rcases hs with hs | hs
  · rw [hs.session] at hr
    have hno : ¬ Served a s.maximumMtu s := fun hserved => by
      obtain ⟨session, hsession, -⟩ := hserved.session
      rw [hs.session] at hsession
      exact absurd hsession (by simp)
    have hstay : ∀ running : Bool, r = ({ s with running }, none) →
        r.1.maximumMtu = s.maximumMtu ∧
          (Unserved a r.1 ∧ r.2 = none ∨ Served a s.maximumMtu r.1 ∧
            ∀ b ∈ r.2, Replied a s.maximumMtu r.1 b) ∧
          (Served a s.maximumMtu s → Served a s.maximumMtu r.1) := by
      intro running hrun
      rw [hrun]
      exact ⟨rfl, .inl ⟨⟨hs.socket, hs.session⟩, rfl⟩, fun h => absurd h hno⟩
    cases haccept : c.accept with
    | full => exact hstay s.running (by simpa [haccept] using hr)
    | closed => exact hstay false (by simpa [haccept] using hr)
    | done =>
      rw [haccept] at hr
      simp only at hr
      split_ifs at hr with hsent
      · have hserved : Served a s.maximumMtu r.1 := by
          rw [hr]
          refine ⟨⟨s.pendingVersion a.address c.now, ?_⟩, ⟨_, AList.lookup_insert _, rfl, rfl⟩⟩
          rw [Acceptor.accept, List.filter_append, hs.socket]
          simp [RaknetSocket.from]
        refine ⟨by rw [hr]; rfl, .inr ⟨hserved, fun b hb => ?_⟩, fun _ => hserved⟩
        have hb' : b = s.reply2 a.address (agreedMtu a s.maximumMtu) := by
          rw [hr] at hb
          exact (Option.some.inj hb).symm
        rw [hb']
        exact .second s.guid hserved
      · exact hstay s.running hr
  · obtain ⟨session, hsession, hguid, hmtu⟩ := hs.session
    rw [hsession] at hr
    simp only [hguid, if_true, hmtu] at hr
    rw [hr]
    refine ⟨rfl, .inr ⟨hs, fun b hb => ?_⟩, id⟩
    rw [← Option.some.inj hb]
    exact .second s.guid hs

/-! ### The client -/

theorem Replied.mono {s' : Acceptor} {b : Bytes} (h : Replied a maximumMtu s b)
    (hs : Served a maximumMtu s → Served a maximumMtu s') : Replied a maximumMtu s' b := by
  cases h with
  | incompatible p => exact .incompatible p
  | first g => exact .first g
  | second g hserved => exact .second g (hs hserved)

theorem Client.Agrees.mono {s' : Acceptor} {x : Client} (h : x.Agrees a maximumMtu s)
    (hs : Served a maximumMtu s → Served a maximumMtu s') : x.Agrees a maximumMtu s' := by
  cases x with
  | send1 buf | wait1 buf | send2 mtu buf | wait2 mtu buf => exact h
  | negotiated mtu => exact ⟨h.1, hs h.2⟩
  | failed e => trivial

theorem Client.agrees_start (a : Attempt) (maximumMtu : Mtu) (s : Acceptor) :
    (Client.start a).Agrees a maximumMtu s := by
  unfold Client.start
  cases hbuf : (OpenConnectionRequest1.mk a.raknetVersion a.requested.value).write with
  | ok buf => exact hbuf
  | error e => trivial

/-- A reply of the listener to the first request. -/
theorem Client.agrees_onReply1 {buf b : Bytes}
    (hbuf : (OpenConnectionRequest1.mk a.raknetVersion a.requested.value).write = .ok buf)
    (hb : Replied a maximumMtu s b) : (Client.onReply1 a buf b).Agrees a maximumMtu s := by
  obtain ⟨hlow, hrequested, -⟩ := agreedMtu_le a maximumMtu
  unfold Client.onReply1
  cases hb with
  | incompatible p =>
    have hid : p.write.head? = some PacketID.incompatibleProtocolVersion.toU8 := rfl
    rw [hid, if_neg (by decide), if_pos rfl]
    trivial
  | first g =>
    rw [if_pos (by rfl), OpenConnectionReply1.read_write]
    simp only
    rw [if_pos ⟨hlow, hrequested⟩]
    exact ⟨rfl, rfl⟩
  | second g hserved =>
    have hid : (OpenConnectionReply2.mk g a.address (agreedMtu a maximumMtu)
        noEncryption).write.head? = some PacketID.openConnectionReply2.toU8 := rfl
    rw [hid, if_neg (by decide), if_neg (by decide)]
    exact hbuf

/-- A reply of the listener to the second request. -/
theorem Client.agrees_onReply2 {b : Bytes} (hb : Replied a maximumMtu s b) :
    (Client.onReply2 (agreedMtu a maximumMtu) (a.secondRequest maximumMtu) b).Agrees a maximumMtu
      s := by
  obtain ⟨hlow, -, -⟩ := agreedMtu_le a maximumMtu
  have hagain : (Client.send2 (agreedMtu a maximumMtu) (a.secondRequest maximumMtu)).Agrees a
    maximumMtu s := ⟨rfl, rfl⟩
  cases hb with
  | incompatible p =>
    rw [IncompatibleProtocolVersion.write]
    simp only [Client.onReply2]
    rw [if_neg (by decide), if_neg (by decide), if_pos (by decide)]
    exact hagain
  | first g =>
    rw [OpenConnectionReply1.write, offlineHeader]
    simp only [Client.onReply2, List.cons_append]
    rw [if_pos trivial]
    exact hagain
  | second g hserved =>
    have hread := OpenConnectionReply2.read_write
      ⟨g, a.address, agreedMtu a maximumMtu, noEncryption⟩
    rw [OpenConnectionReply2.write, offlineHeader] at hread ⊢
    simp only [Client.onReply2, List.cons_append] at hread ⊢
    rw [if_neg (by decide), if_neg (by decide), if_neg (by simp), hread]
    simp only
    rw [if_pos ⟨hlow, le_refl _⟩]
    exact ⟨rfl, hserved⟩

theorem Client.agrees_receive {x : Client} {source : SocketAddr} {b : Bytes}
    (h : x.Agrees a maximumMtu s) (hb : source = a.server → Replied a maximumMtu s b) :
    (x.receive a source b).Agrees a maximumMtu s := by
  cases x with
  | send1 buf | send2 mtu buf | negotiated mtu => exact h
  | failed e => trivial
  | wait1 buf =>
    simp only [Client.receive]
    split_ifs with hstray
    · exact h
    · exact Client.agrees_onReply1 h (hb (by tauto))
  | wait2 mtu buf =>
    obtain ⟨rfl, rfl⟩ := h
    simp only [Client.receive]
    split_ifs with hstray
    · exact ⟨rfl, rfl⟩
    · exact Client.agrees_onReply2 (hb (by tauto))

theorem Client.agrees_sent {x : Client} (h : x.Agrees a maximumMtu s) :
    x.sent.Agrees a maximumMtu s := by
  cases x <;> exact h

theorem Client.agrees_timeout {x : Client} (h : x.Agrees a maximumMtu s) :
    x.timeout.Agrees a maximumMtu s := by
  cases x <;> exact h

theorem Client.requested_of_outgoing {x : Client} {buf : Bytes} (h : x.Agrees a maximumMtu s)
    (hbuf : x.outgoing = some buf) : Requested a maximumMtu buf := by
  cases x with
  | send1 b =>
    obtain rfl := Option.some.inj hbuf
    exact .first h
  | send2 mtu b =>
    obtain rfl := Option.some.inj hbuf
    obtain ⟨rfl, rfl⟩ := h
    exact .second
  | wait1 b | wait2 mtu b | negotiated mtu | failed e =>
    exact absurd hbuf (by simp [Client.outgoing])

/-! ### Every order of steps -/

/-- The listener's answer keeps the agreement when the listener does its part. -/
theorem Agreement.answer {h : Handshake} (ha : Agreement a maximumMtu h)
    (hmax : (h.listener.handle source datagram c).1.maximumMtu = maximumMtu)
    (hlistener : Unserved a (h.listener.handle source datagram c).1 ∨
      Served a maximumMtu (h.listener.handle source datagram c).1)
    (hserved : Served a maximumMtu h.listener →
      Served a maximumMtu (h.listener.handle source datagram c).1)
    (hreply : source = a.address → ∀ b ∈ (h.listener.handle source datagram c).2,
      Replied a maximumMtu (h.listener.handle source datagram c).1 b) :
    Agreement a maximumMtu (h.answer a source datagram c) where
  maximum := hmax
  listener := hlistener
  toListener := ha.toListener
  toClient b hb := by
    rcases List.mem_append.mp hb with hb | hb
    · exact (ha.toClient b hb).mono hserved
    · split_ifs at hb with hsource
      · exact hreply hsource.1 b (Option.mem_toList.mp hb)
      · simp at hb
  client := ha.client.mono hserved

theorem Agreement.step {h : Handshake} (ha : Agreement a maximumMtu h) (x : HandshakeAction) :
    Agreement a maximumMtu (h.step a x) := by
  cases x with
  | send ok =>
    simp only [Handshake.step]
    cases hout : h.client.outgoing with
    | none => exact ha
    | some buf =>
      simp only
      split_ifs
      · refine { ha with toListener := fun b hb => ?_, client := Client.agrees_sent ha.client }
        obtain hb | rfl := Lib.mem_snoc.mp hb
        · exact ha.toListener b hb
        · exact Client.requested_of_outgoing ha.client hout
      · exact ha
  | timeout => exact { ha with client := Client.agrees_timeout ha.client }
  | toClient source datagram =>
    simp only [Handshake.step]
    split_ifs with hknown
    · have hclient := Client.agrees_receive ha.client fun hs => ha.toClient datagram (hknown hs)
      exact { ha with client := hclient }
    · exact ha
  | toListener source datagram c =>
    simp only [Handshake.step]
    split_ifs with hknown
    · by_cases hsource : source = a.address
      · subst hsource
        obtain rfl := ha.maximum
        cases ha.toListener datagram (hknown.2 rfl) with
        | first hbuf =>
          obtain ⟨pendingVersions, reply, heq, hreply⟩ := handle_first (c := c) hbuf h.listener
          have hserved : Served a h.listener.maximumMtu h.listener →
              Served a h.listener.maximumMtu (h.listener.handle a.address datagram c).1 := by
            rw [heq]
            exact fun hs => ⟨hs.socket, hs.session⟩
          refine ha.answer (by rw [heq]) ?_ hserved fun _ b hb => hreply b (by rwa [heq] at hb) _
          rcases ha.listener with hs | hs
          · rw [heq]
            exact .inl ⟨hs.socket, hs.session⟩
          · exact .inr (hserved hs)
        | second =>
          obtain ⟨hmax, hcases, hserved⟩ := handle_second (c := c) h.listener ha.listener
          refine ha.answer hmax (hcases.imp And.left And.left) hserved fun _ b hb => ?_
          rcases hcases with ⟨-, hnone⟩ | ⟨-, hreply⟩
          · rw [hnone] at hb
            exact absurd hb (by simp)
          · exact hreply b hb
      · obtain ⟨hsockets, hsessions, hmax⟩ := handle_other h.listener datagram c hsource
        have hserved : Served a maximumMtu h.listener →
            Served a maximumMtu (h.listener.handle source datagram c).1 := fun hs =>
          ⟨hsockets ▸ hs.socket, hsessions ▸ hs.session⟩
        refine ha.answer (hmax.trans ha.maximum) ?_ hserved fun hs => absurd hs hsource
        rcases ha.listener with hs | hs
        · exact .inl ⟨hsockets.trans hs.socket, hsessions.trans hs.session⟩
        · exact .inr (hserved hs)
    · exact ha
  | cleanup now =>
    have hserved : Served a maximumMtu h.listener →
        Served a maximumMtu (h.listener.cleanup now) := fun hs => ⟨hs.socket, hs.session⟩
    refine ⟨ha.maximum, ?_, ha.toListener, fun b hb => (ha.toClient b hb).mono hserved,
      ha.client.mono hserved⟩
    exact ha.listener.imp (fun hs => ⟨hs.socket, hs.session⟩) hserved

theorem agreement_run (a : Attempt) (guid : U64) (maximumMtu : Mtu)
    (actions : List HandshakeAction) :
    Agreement a maximumMtu (runHandshake a guid maximumMtu actions) := by
  refine run_invariant ?_ (fun _ x h => h.step x) actions
  exact ⟨rfl, .inl ⟨rfl, rfl⟩, fun b hb => absurd hb (by simp [Handshake.new]),
    fun b hb => absurd hb (by simp [Handshake.new]), Client.agrees_start a maximumMtu _⟩

end agreement

/-- **The MTU negotiation agrees.** If the client finishes the offline handshake with the MTU `m`,
the listener has created exactly one socket for its address, with a send queue of this MTU, its
session has stored the MTU, and `m` is between 61 and what both sides allow. -/
theorem negotiated_mtu_agrees (a : Attempt) (guid : U64) (maximumMtu : Mtu)
    (actions : List HandshakeAction) (m : U16)
    (hm : (runHandshake a guid maximumMtu actions).client = .negotiated m) :
    let s := (runHandshake a guid maximumMtu actions).listener
    (∃ socket, s.sockets.filter (fun x => x.peerAddr = a.address) = [socket] ∧
      socket.mtu = m ∧ socket.sendq = .new m) ∧
    (∃ session, s.sessions.lookup a.address = some session ∧ session.mtu = m) ∧
    61 ≤ (m : ℕ) ∧ m ≤ min a.requested.value maximumMtu.value := by
  have h := (agreement_run a guid maximumMtu actions).client
  rw [hm] at h
  obtain ⟨rfl, hserved⟩ := h
  obtain ⟨version, hsocket⟩ := hserved.socket
  obtain ⟨session, hsession, -, hmtu⟩ := hserved.session
  obtain ⟨hlow, -, -⟩ := agreedMtu_le a maximumMtu
  exact ⟨⟨_, hsocket, rfl, rfl⟩, ⟨session, hsession, hmtu⟩, hlow, le_refl _⟩

/-- A client that asks for an MTU of 100 bytes. -/
def smallAttempt : Attempt :=
  ⟨.v4 0x7f000001#32 19132#16, .v4 0x7f000001#32 50000#16, ⟨9, by decide⟩, ⟨11, by decide⟩,
    ⟨⟨100, by decide⟩, by decide, by decide⟩⟩

/-- It meets a listener that allows 80. The second request arrives twice, and the reply to the copy
is the one that reaches the client. -/
def smallExchange : List HandshakeAction :=
  let a := smallAttempt
  let first := offlineHeader .openConnectionRequest1 ++ [11] ++ List.replicate 54 0
  let second := a.secondRequest ⟨⟨80, by decide⟩, by decide, by decide⟩
  let c : Circumstance := ⟨0, .done, true⟩
  [.send true, .toListener a.address first c,
    .toClient a.server (OpenConnectionReply1.mk ⟨1, by decide⟩ noEncryption ⟨80, by decide⟩).write,
    .send true, .toListener a.address second { c with sent := false },
    .toListener a.address second c, .timeout, .send true, .toListener a.address second c,
    .toClient a.server
      (OpenConnectionReply2.mk ⟨1, by decide⟩ a.address ⟨80, by decide⟩ noEncryption).write]

theorem negotiated_mtu_agrees_small :
    let maximumMtu : Mtu := ⟨⟨80, by decide⟩, by decide, by decide⟩
    let s := (runHandshake smallAttempt ⟨1, by decide⟩ maximumMtu smallExchange).listener
    (∃ socket, s.sockets.filter (fun x => x.peerAddr = smallAttempt.address) = [socket] ∧
      socket.mtu = ⟨80, by decide⟩ ∧ socket.sendq = .new ⟨80, by decide⟩) ∧
    (∃ session, s.sessions.lookup smallAttempt.address = some session ∧
      session.mtu = ⟨80, by decide⟩) ∧
    61 ≤ ((⟨80, by decide⟩ : U16) : ℕ) ∧
      (⟨80, by decide⟩ : U16) ≤ min smallAttempt.requested.value maximumMtu.value :=
  negotiated_mtu_agrees smallAttempt _ _ smallExchange _ (by decide +kernel)

end RustRaknet.Server
