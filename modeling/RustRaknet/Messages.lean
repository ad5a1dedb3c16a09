import RustRaknet.Offline

/-! # The messages of a fixed layout

`packet.rs`: the rest of the readers and writers that have no list in them. These are the pings of
the server list, the refusals of the offline handshake, and the messages that a connection carries.
Ten of the eleven readers accept what their writers produce. The eleventh does not: the writer of
`IncompatibleProtocolVersion` puts the version in front of the magic, and the reader looks for it
behind (`IncompatibleProtocolVersion.read_write`). -/

namespace RustRaknet.Packet

open RustRaknet.Datatype RustRaknet.Lib.Result RustRaknet.Lib.Endian

/-- `PacketUnconnectedPing`. -/
structure PacketUnconnectedPing where
  time : Int64
  guid : U64
  deriving DecidableEq

/-- `PacketUnconnectedPong`. -/
structure PacketUnconnectedPong where
  time : Int64
  guid : U64
  motd : String
  deriving DecidableEq

/-- `ConnectionRequest`. -/
structure ConnectionRequest where
  guid : U64
  time : Int64
  useEncryption : U8
  deriving DecidableEq

/-- `ConnectedPing`. -/
structure ConnectedPing where
  clientTimestamp : Int64
  deriving DecidableEq

/-- `ConnectedPong`. -/
structure ConnectedPong where
  clientTimestamp : Int64
  serverTimestamp : Int64
  deriving DecidableEq

/-! ### Writers -/

/-- `RaknetWriter::write_string`: the length in two bytes, then UTF-8. -/
def writeString (body : String) : Except RaknetError Bytes :=
  let raw := body.toUTF8.data.toList
  if 2 ^ 16 ≤ raw.length then .error .packetParseError
  else .ok (writeU16 raw.length .big ++ raw)

/-- `write_packet_ping`. -/
def PacketUnconnectedPing.write (p : PacketUnconnectedPing) : Bytes :=
  PacketID.unconnectedPing1.toU8 :: (writeI64 p.time.toInt .big ++ magic ++ writeU64 p.guid .big)

/-- `write_packet_pong`. -/
def PacketUnconnectedPong.write (p : PacketUnconnectedPong) : Except RaknetError Bytes := do
  let motd ← writeString p.motd
  .ok (PacketID.unconnectedPong.toU8 :: (writeI64 p.time.toInt .big ++ writeU64 p.guid .big ++ magic ++
    motd))

/-- `write_packet_connection_request`. -/
def ConnectionRequest.write (p : ConnectionRequest) : Bytes :=
  PacketID.connectionRequest.toU8 :: (writeU64 p.guid .big ++ writeI64 p.time.toInt .big ++
    writeU8 p.useEncryption)

/-- `write_packet_connected_ping`. -/
def ConnectedPing.write (p : ConnectedPing) : Bytes :=
  PacketID.connectedPing.toU8 :: writeI64 p.clientTimestamp.toInt .big

/-- `write_packet_connected_pong`. -/
def ConnectedPong.write (p : ConnectedPong) : Bytes :=
  PacketID.connectedPong.toU8 :: (writeI64 p.clientTimestamp.toInt .big ++
    writeI64 p.serverTimestamp.toInt .big)

/-! ### Readers -/

/-- `RaknetReader::read_string`. -/
def readString (r : Bytes) : Except RaknetError (String × Bytes) := do
  let (size, r) ← readU16 .big r
  let (buf, r) ← readSlice size r
  match String.fromUTF8? ⟨buf.toArray⟩ with
  | some body => .ok (body, r)
  | none => .error .packetParseError

/-- `read_packet_ping`. -/
def PacketUnconnectedPing.read (buf : Bytes) : Except RaknetError PacketUnconnectedPing := do
  let (_, r) ← readU8 buf
  let (time, r) ← readI64 .big r
  let r ← readMagic r
  let (guid, _) ← readU64 .big r
  .ok ⟨Int64.ofInt time, U64.of guid⟩

/-- `read_packet_pong`. -/
def PacketUnconnectedPong.read (buf : Bytes) : Except RaknetError PacketUnconnectedPong := do
  let (_, r) ← readU8 buf
  let (time, r) ← readI64 .big r
  let (guid, r) ← readU64 .big r
  let r ← readMagic r
  let (motd, _) ← readString r
  .ok ⟨Int64.ofInt time, U64.of guid, motd⟩

/-- `_read_packet_already_connected`. -/
def AlreadyConnected.read (buf : Bytes) : Except RaknetError AlreadyConnected := do
  let r ← readHeader buf
  let (guid, _) ← readU64 .big r
  .ok ⟨U64.of guid⟩

/-- `read_packet_incompatible_protocol_version`. The magic is looked for in front of the version. -/
def IncompatibleProtocolVersion.read (buf : Bytes) :
    Except RaknetError IncompatibleProtocolVersion := do
  let r ← readHeader buf
  let (serverProtocol, r) ← readU8 r
  let (serverGuid, _) ← readU64 .big r
  .ok ⟨U8.of serverProtocol, U64.of serverGuid⟩

/-- `read_packet_connection_request`. -/
def ConnectionRequest.read (buf : Bytes) : Except RaknetError ConnectionRequest := do
  let (_, r) ← readU8 buf
  let (guid, r) ← readU64 .big r
  let (time, r) ← readI64 .big r
  let (useEncryption, _) ← readU8 r
  .ok ⟨U64.of guid, Int64.ofInt time, U8.of useEncryption⟩

/-- `read_packet_connected_ping`. -/
def ConnectedPing.read (buf : Bytes) : Except RaknetError ConnectedPing := do
  let (_, r) ← readU8 buf
  let (clientTimestamp, _) ← readI64 .big r
  .ok ⟨Int64.ofInt clientTimestamp⟩

/-- `_read_packet_connected_pong`. -/
def ConnectedPong.read (buf : Bytes) : Except RaknetError ConnectedPong := do
  let (_, r) ← readU8 buf
  let (clientTimestamp, r) ← readI64 .big r
  let (serverTimestamp, _) ← readI64 .big r
  .ok ⟨Int64.ofInt clientTimestamp, Int64.ofInt serverTimestamp⟩

/-! ### Reading what was written -/

theorem readU8_cons (b : UInt8) (rest : Bytes) : readU8 (b :: rest) = .ok (b.toNat, rest) := by
  have h := readU8_append (UInt8.toNat_lt b) rest
  have hbyte : writeU8 b.toNat = [b] := by simp [writeU8, writeUInt, beBytes, leBytes]
  rwa [hbyte] at h

theorem readI64_time (time : Int64) (rest : Bytes) :
    readI64 .big (writeI64 time.toInt .big ++ rest) = .ok (time.toInt, rest) :=
  readI64_append .big (Int64.le_toInt time) (Int64.toInt_lt time) rest

/-- **A string is read as it was written.** -/
theorem readString_append {body : String} {raw : Bytes} (h : writeString body = .ok raw)
    (rest : Bytes) : readString (raw ++ rest) = .ok (body, rest) := by
  obtain ⟨hsize, h⟩ := guard_eq_ok.mp h
  obtain rfl : _ = raw := Except.ok.inj h
  have hback : (⟨body.toUTF8.data.toList.toArray⟩ : ByteArray) = body.toByteArray := by
    rw [Array.toArray_toList]
    rfl
  have hvalid : String.fromUTF8? body.toByteArray = some body := dif_pos body.isValidUTF8
  unfold readString
  rw [List.append_assoc, readU16_append .big (by omega)]
  simp only [ok_bind]
  rw [readSlice_append]
  simp only [ok_bind]
  rw [hback, hvalid]

theorem PacketUnconnectedPing.read_write (p : PacketUnconnectedPing) :
    PacketUnconnectedPing.read p.write = .ok p := by
  have hguid := readU64_append .big p.guid.isLt []
  rw [List.append_nil] at hguid
  unfold PacketUnconnectedPing.read PacketUnconnectedPing.write
  rw [readU8_cons]
  simp only [ok_bind, List.append_assoc, readI64_time, readMagic_append, hguid]
  simp

theorem PacketUnconnectedPong.read_write {p : PacketUnconnectedPong} {buf : Bytes}
    (h : p.write = .ok buf) : PacketUnconnectedPong.read buf = .ok p := by
  obtain ⟨motd, hmotd, h⟩ := bind_eq_ok.mp h
  obtain rfl : _ = buf := Except.ok.inj h
  have hstring := readString_append hmotd []
  rw [List.append_nil] at hstring
  unfold PacketUnconnectedPong.read
  rw [readU8_cons]
  simp only [ok_bind, List.append_assoc, readI64_time]
  rw [readU64_append .big p.guid.isLt]
  simp only [ok_bind, readMagic_append, hstring]
  simp

theorem AlreadyConnected.read_write (p : AlreadyConnected) :
    AlreadyConnected.read p.write = .ok p := by
  have hguid := readU64_append .big p.guid.isLt []
  rw [List.append_nil] at hguid
  unfold AlreadyConnected.read AlreadyConnected.write
  rw [readHeader_append]
  simp only [ok_bind, hguid]
  simp

/-- **The refusal of a version is never read**: the second byte of the magic is not its first. -/
theorem IncompatibleProtocolVersion.read_write (p : IncompatibleProtocolVersion) :
    IncompatibleProtocolVersion.read p.write = .error .packetHeaderError := by
  obtain ⟨version, hversion⟩ : ∃ version, writeU8 p.serverProtocol = [version] := ⟨_, rfl⟩
  have hslice : readSlice 16 (version :: (magic ++ writeU64 p.serverGuid .big)) =
      .ok (version :: magic.take 15, magic.drop 15 ++ writeU64 p.serverGuid .big) :=
    readSlice_append (version :: magic.take 15) _
  have hshifted : version :: magic.take 15 ≠ magic := by simp [magic]
  unfold IncompatibleProtocolVersion.read IncompatibleProtocolVersion.write readHeader
  rw [readU8_cons, hversion]
  simp only [ok_bind, readMagic, List.cons_append, List.nil_append, hslice, if_neg hshifted,
    error_bind]

theorem ConnectionRequest.read_write (p : ConnectionRequest) :
    ConnectionRequest.read p.write = .ok p := by
  have hlast := readU8_append p.useEncryption.isLt []
  rw [List.append_nil] at hlast
  unfold ConnectionRequest.read ConnectionRequest.write
  rw [readU8_cons]
  simp only [ok_bind, List.append_assoc]
  rw [readU64_append .big p.guid.isLt]
  simp only [ok_bind, readI64_time, hlast]
  simp

theorem ConnectedPing.read_write (p : ConnectedPing) : ConnectedPing.read p.write = .ok p := by
  have hlast := readI64_time p.clientTimestamp []
  rw [List.append_nil] at hlast
  unfold ConnectedPing.read ConnectedPing.write
  rw [readU8_cons]
  simp only [ok_bind, hlast]
  simp

theorem ConnectedPong.read_write (p : ConnectedPong) : ConnectedPong.read p.write = .ok p := by
  have hlast := readI64_time p.serverTimestamp []
  rw [List.append_nil] at hlast
  unfold ConnectedPong.read ConnectedPong.write
  rw [readU8_cons]
  simp only [ok_bind, readI64_time, hlast]
  simp

/-! ### All of them -/

/-- The messages of a fixed layout. -/
inductive FixedMessage
  | unconnectedPing (p : PacketUnconnectedPing)
  | unconnectedPong (p : PacketUnconnectedPong)
  | openConnectionRequest1 (p : OpenConnectionRequest1)
  | openConnectionRequest2 (p : OpenConnectionRequest2)
  | openConnectionReply1 (p : OpenConnectionReply1)
  | openConnectionReply2 (p : OpenConnectionReply2)
  | alreadyConnected (p : AlreadyConnected)
  | incompatibleProtocolVersion (p : IncompatibleProtocolVersion)
  | connectionRequest (p : ConnectionRequest)
  | connectedPing (p : ConnectedPing)
  | connectedPong (p : ConnectedPong)
  deriving DecidableEq

namespace FixedMessage

/-- The identifier that the writer puts in front. -/
def id : FixedMessage → PacketID
  | unconnectedPing _ => .unconnectedPing1
  | unconnectedPong _ => .unconnectedPong
  | openConnectionRequest1 _ => .openConnectionRequest1
  | openConnectionRequest2 _ => .openConnectionRequest2
  | openConnectionReply1 _ => .openConnectionReply1
  | openConnectionReply2 _ => .openConnectionReply2
  | alreadyConnected _ => .alreadyConnected
  | incompatibleProtocolVersion _ => .incompatibleProtocolVersion
  | connectionRequest _ => .connectionRequest
  | connectedPing _ => .connectedPing
  | connectedPong _ => .connectedPong

/-- The writer of the message. -/
def write : FixedMessage → Except RaknetError Bytes
  | unconnectedPing p => .ok p.write
  | unconnectedPong p => p.write
  | openConnectionRequest1 p => p.write
  | openConnectionRequest2 p => .ok p.write
  | openConnectionReply1 p => .ok p.write
  | openConnectionReply2 p => .ok p.write
  | alreadyConnected p => .ok p.write
  | incompatibleProtocolVersion p => .ok p.write
  | connectionRequest p => .ok p.write
  | connectedPing p => .ok p.write
  | connectedPong p => .ok p.write

/-- The reader that belongs to an identifier. -/
def readAs (id : PacketID) (buf : Bytes) : Except RaknetError FixedMessage :=
  match id with
  | .unconnectedPing1 => (PacketUnconnectedPing.read buf).map unconnectedPing
  | .unconnectedPong => (PacketUnconnectedPong.read buf).map unconnectedPong
  | .openConnectionRequest1 => (OpenConnectionRequest1.read buf).map openConnectionRequest1
  | .openConnectionRequest2 => (OpenConnectionRequest2.read buf).map openConnectionRequest2
  | .openConnectionReply1 => (OpenConnectionReply1.read buf).map openConnectionReply1
  | .openConnectionReply2 => (OpenConnectionReply2.read buf).map openConnectionReply2
  | .alreadyConnected => (AlreadyConnected.read buf).map alreadyConnected
  | .incompatibleProtocolVersion =>
    (IncompatibleProtocolVersion.read buf).map incompatibleProtocolVersion
  | .connectionRequest => (ConnectionRequest.read buf).map connectionRequest
  | .connectedPing => (ConnectedPing.read buf).map connectedPing
  | .connectedPong => (ConnectedPong.read buf).map connectedPong
  | _ => .error .incorrectPacketID

/-- The address in the message, if it carries one. -/
def address? : FixedMessage → Option SocketAddr
  | openConnectionRequest2 p => some p.address
  | openConnectionReply2 p => some p.address
  | _ => none

/-- No flow information and no scope, which the wire does not keep. -/
def Bare (m : FixedMessage) : Prop := ∀ a ∈ m.address?, a.bare = a

end FixedMessage

theorem FixedMessage.read_write {m : FixedMessage} (hbare : m.Bare)
    (hid : m.id ≠ .incompatibleProtocolVersion) {buf : Bytes} (hwrite : m.write = .ok buf) :
    FixedMessage.readAs m.id buf = .ok m := by
  cases m with
  | unconnectedPing p | openConnectionReply1 p | alreadyConnected p
  | connectionRequest p | connectedPing p | connectedPong p =>
    obtain rfl : _ = buf := Except.ok.inj hwrite
    exact congrArg (Except.map _) p.read_write
  | unconnectedPong p => exact congrArg (Except.map _) (PacketUnconnectedPong.read_write hwrite)
  | openConnectionRequest1 p =>
    exact congrArg (Except.map _) (OpenConnectionRequest1.read_write hwrite)
  | openConnectionRequest2 p | openConnectionReply2 p =>
    obtain rfl : _ = buf := Except.ok.inj hwrite
    have haddress : p.address.bare = p.address := hbare p.address rfl
    have hread := p.read_write
    rw [haddress] at hread
    exact congrArg (Except.map _) hread
  | incompatibleProtocolVersion p => exact absurd rfl hid

/-- **Reading what was written**: exactly the messages other than the refusal of a version are read
back by the reader of their identifier, whenever their writer accepts them. The padding of
`OpenConnectionRequest1` says every MTU from 46 on. -/
theorem fixed_messages_read_back (m : FixedMessage) (hbare : m.Bare) :
    ((∀ buf, m.write = .ok buf → FixedMessage.readAs m.id buf = .ok m) ↔
      m.id ≠ .incompatibleProtocolVersion) ∧
    (∀ p : OpenConnectionRequest1, m = .openConnectionRequest1 p → 46 ≤ (p.mtuSize : ℕ) →
      ∃ buf, m.write = .ok buf ∧ OpenConnectionRequest1.read buf = .ok p) := by
  refine ⟨⟨fun hread hid => ?_, fun hid buf => FixedMessage.read_write hbare hid⟩, ?_⟩
  · obtain ⟨p, rfl⟩ : ∃ p, m = .incompatibleProtocolVersion p := by
      cases m with
      | incompatibleProtocolVersion p => exact ⟨p, rfl⟩
      | _ => cases hid
    have herror := congrArg (Except.map FixedMessage.incompatibleProtocolVersion) p.read_write
    cases herror.symm.trans (hread p.write rfl)
  · rintro p rfl hmtu
    obtain ⟨buf, hwrite⟩ : ∃ buf, p.write = .ok buf := ⟨_, if_neg (Nat.not_lt.mpr hmtu)⟩
    exact ⟨buf, hwrite, OpenConnectionRequest1.read_write hwrite⟩

/-- A request for an MTU of 1400 arrives as one. -/
theorem fixed_messages_read_back_request :
    ∃ buf, FixedMessage.write (.openConnectionRequest1 ⟨11, 1400⟩) = .ok buf ∧
      OpenConnectionRequest1.read buf = .ok ⟨11, 1400⟩ :=
  (fixed_messages_read_back (.openConnectionRequest1 ⟨11, 1400⟩) (by rintro a ⟨⟩)).2 _ rfl
    (by decide)

/-- A server of version 11 refuses a client, and the client cannot read why. -/
theorem version_refusal_unread :
    ∃ buf, FixedMessage.write (.incompatibleProtocolVersion ⟨11, 1⟩) = .ok buf ∧
      FixedMessage.readAs .incompatibleProtocolVersion buf = .error .packetHeaderError :=
  ⟨_, rfl, by decide +kernel⟩

end RustRaknet.Packet
