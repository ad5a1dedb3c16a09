import RustRaknet.AddressList
import RustRaknet.Send.Run

/-! # The replies to control messages

`socket.rs`: `RaknetSocket::handle`, which answers the connected handshake and the pings, and passes
everything else on to the application. -/

namespace RustRaknet.Reply

open RustRaknet.Packet RustRaknet.Frame RustRaknet.Send

/-- `ControlAction`. -/
inductive ControlAction
  | continue
  | handshakeComplete
  | disconnect
  deriving DecidableEq, Repr

/-- What a connection knows of itself. -/
structure Endpoint where
  peerAddr : SocketAddr
  localAddr : SocketAddr
  deriving DecidableEq

/-- `SendQ::insert`, on the channel 0 and with a copy of the buffer. -/
def message (reliability : Reliability) (buf : Bytes) : Message :=
  ⟨reliability, primaryChannel, buf, false⟩

/-- `RaknetSocket::handle`: what it inserts, and what it returns when the insertions succeed. The
clock is read once for the first reply and once for the second; a payload for the application needs
its channel. -/
def replies (e : Endpoint) (stamp stamp' : Int64) (receiverOpen : Bool) (data : Bytes) :
    Except RaknetError (List Message × ControlAction) := do
  match data with
  | [] => .error .packetHeaderError
  | id :: _ =>
    match ← PacketID.tryFrom id with
    | .connectionRequest =>
      let packet ← ConnectionRequest.read data
      .ok ([message .reliableOrdered (ConnectionRequestAccepted.write {
        clientAddress := e.peerAddr
        systemIndex := U16.of 0
        requestTimestamp := packet.time
        acceptedTimestamp := stamp })], .continue)
    | .connectionRequestAccepted =>
      let packet ← ConnectionRequestAccepted.read data
      .ok ([message .reliableOrdered (NewIncomingConnection.write {
        serverAddress := e.localAddr
        requestTimestamp := packet.requestTimestamp
        acceptedTimestamp := stamp }),
        message .unreliable (ConnectedPing.write ⟨stamp'⟩)], .handshakeComplete)
    | .newIncomingConnection =>
      let _ ← NewIncomingConnection.read data
      .ok ([], .handshakeComplete)
    | .connectedPing =>
      let packet ← ConnectedPing.read data
      .ok ([message .unreliable (ConnectedPong.write {
        clientTimestamp := packet.clientTimestamp
        serverTimestamp := stamp })], .continue)
    | .connectedPong => .ok ([], .continue)
    | .disconnect => .ok ([], .disconnect)
    | _ => .ok ([], if receiverOpen then .continue else .disconnect)

/-- One of several insertions; after an error there are no more. -/
def insertNext (B : Build) (x : Except RaknetError Unit × Run) (m : Message) :
    Except RaknetError Unit × Run :=
  match x with
  | (.error e, r) => (.error e, r)
  | (.ok (), r) =>
    match r.queue.insertPayload B m with
    | .error e => (.error e, r)
    | .ok queue => (.ok (), { r with queue })

/-- Insertions one after the other; the first error ends them. -/
def insertEach (B : Build) (r : Run) (ms : List Message) : Except RaknetError Unit × Run :=
  ms.foldl (insertNext B) (.ok (), r)

/-- `RaknetSocket::handle`. A reply that was inserted before an error stays in the queue. -/
def handle (B : Build) (e : Endpoint) (stamp stamp' : Int64) (receiverOpen : Bool) (data : Bytes)
    (r : Run) : Except RaknetError ControlAction × Run :=
  match replies e stamp stamp' receiverOpen data with
  | .error e => (.error e, r)
  | .ok (ms, action) =>
    match insertEach B r ms with
    | (.error e, r) => (.error e, r)
    | (.ok (), r) => (.ok action, r)

end RustRaknet.Reply
