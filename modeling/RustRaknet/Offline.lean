import RustRaknet.Address
import RustRaknet.Packet

/-! # The messages of the offline handshake

`packet.rs`: the readers and writers of the messages that a client and a listener exchange before
there is a connection. `OpenConnectionRequest1` does not carry its MTU as a number. It is padded to
the size, and the reader takes the MTU from the length of the datagram. -/

namespace RustRaknet.Packet

open RustRaknet.Datatype RustRaknet.Lib.Result RustRaknet.Lib.Endian

/-- A `u8`. -/
abbrev U8 := Fin (2 ^ 8)

/-- A `u16`. -/
abbrev U16 := Fin (2 ^ 16)

/-- A `u64`. -/
abbrev U64 := Fin (2 ^ 64)

/-- `OpenConnectionRequest1`. -/
structure OpenConnectionRequest1 where
  protocolVersion : U8
  mtuSize : U16
  deriving DecidableEq, Repr

/-- `OpenConnectionRequest2`. -/
structure OpenConnectionRequest2 where
  address : SocketAddr
  mtu : U16
  guid : U64
  deriving DecidableEq, Repr

/-- `OpenConnectionReply1`. -/
structure OpenConnectionReply1 where
  guid : U64
  useEncryption : U8
  mtuSize : U16
  deriving DecidableEq, Repr

/-- `OpenConnectionReply2`. -/
structure OpenConnectionReply2 where
  guid : U64
  address : SocketAddr
  mtu : U16
  encryptionEnabled : U8
  deriving DecidableEq, Repr

/-- `IncompatibleProtocolVersion`. -/
structure IncompatibleProtocolVersion where
  serverProtocol : U8
  serverGuid : U64
  deriving DecidableEq, Repr

/-- `AlreadyConnected`. -/
structure AlreadyConnected where
  guid : U64
  deriving DecidableEq, Repr

/-- `write_u8(id.to_u8())` and `write_magic`, with which an offline message begins. -/
def offlineHeader (id : PacketID) : Bytes := id.toU8 :: magic

/-! ### Writers -/

/-- `write_packet_connection_open_request_1`. -/
def OpenConnectionRequest1.write (p : OpenConnectionRequest1) : Except RaknetError Bytes :=
  if (p.mtuSize : ℕ) < 46 then .error .packetSizeExceedMTU
  else .ok (offlineHeader .openConnectionRequest1 ++ writeU8 p.protocolVersion ++
    List.replicate (p.mtuSize - 46) 0)

/-- `write_packet_connection_open_request_2`. -/
def OpenConnectionRequest2.write (p : OpenConnectionRequest2) : Bytes :=
  offlineHeader .openConnectionRequest2 ++ p.address.write ++ writeU16 p.mtu .big ++
    writeU64 p.guid .big

/-- `write_packet_connection_open_reply_1`. -/
def OpenConnectionReply1.write (p : OpenConnectionReply1) : Bytes :=
  offlineHeader .openConnectionReply1 ++ writeU64 p.guid .big ++ writeU8 p.useEncryption ++
    writeU16 p.mtuSize .big

/-- `write_packet_connection_open_reply_2`. -/
def OpenConnectionReply2.write (p : OpenConnectionReply2) : Bytes :=
  offlineHeader .openConnectionReply2 ++ writeU64 p.guid .big ++ p.address.write ++
    writeU16 p.mtu .big ++ writeU8 p.encryptionEnabled

/-- `write_packet_incompatible_protocol_version`. The magic comes after the version. -/
def IncompatibleProtocolVersion.write (p : IncompatibleProtocolVersion) : Bytes :=
  PacketID.incompatibleProtocolVersion.toU8 :: (writeU8 p.serverProtocol ++ magic ++
    writeU64 p.serverGuid .big)

/-- `write_packet_already_connected`. -/
def AlreadyConnected.write (p : AlreadyConnected) : Bytes :=
  offlineHeader .alreadyConnected ++ writeU64 p.guid .big

/-! ### Readers -/

/-- A `u8` from the number that was read. -/
def U8.of (n : ℕ) : U8 := Fin.ofNat _ n

/-- A `u16` from the number that was read. -/
def U16.of (n : ℕ) : U16 := Fin.ofNat _ n

/-- A `u64` from the number that was read. -/
def U64.of (n : ℕ) : U64 := Fin.ofNat _ n

@[simp] theorem U8.of_val (n : U8) : U8.of n = n := Fin.ofNat_val_eq_self n

@[simp] theorem U16.of_val (n : U16) : U16.of n = n := Fin.ofNat_val_eq_self n

@[simp] theorem U64.of_val (n : U64) : U64.of n = n := Fin.ofNat_val_eq_self n

/-- `cursor.read_u8()?` and `read_magic`. The identifier has been looked at before. -/
def readHeader (r : Bytes) : Except RaknetError Bytes := do
  let (_, r) ← readU8 r
  readMagic r

/-- `read_packet_connection_open_request_1`. The reported MTU includes the IPv4 and UDP headers. -/
def OpenConnectionRequest1.read (buf : Bytes) : Except RaknetError OpenConnectionRequest1 := do
  let r ← readHeader buf
  let (protocolVersion, _) ← readU8 r
  if 2 ^ 16 ≤ buf.length + 28 then .error .packetSizeExceedMTU
  else .ok ⟨.of protocolVersion, .of (buf.length + 28)⟩

/-- `read_packet_connection_open_request_2`. -/
def OpenConnectionRequest2.read (buf : Bytes) : Except RaknetError OpenConnectionRequest2 := do
  let r ← readHeader buf
  let (address, r) ← SocketAddr.read r
  let (mtu, r) ← readU16 .big r
  let (guid, _) ← readU64 .big r
  .ok ⟨address, .of mtu, .of guid⟩

/-- `read_packet_connection_open_reply_1`. -/
def OpenConnectionReply1.read (buf : Bytes) : Except RaknetError OpenConnectionReply1 := do
  let r ← readHeader buf
  let (guid, r) ← readU64 .big r
  let (useEncryption, r) ← readU8 r
  let (mtuSize, _) ← readU16 .big r
  .ok ⟨.of guid, .of useEncryption, .of mtuSize⟩

/-- `read_packet_connection_open_reply_2`. -/
def OpenConnectionReply2.read (buf : Bytes) : Except RaknetError OpenConnectionReply2 := do
  let r ← readHeader buf
  let (guid, r) ← readU64 .big r
  let (address, r) ← SocketAddr.read r
  let (mtu, r) ← readU16 .big r
  let (encryptionEnabled, _) ← readU8 r
  .ok ⟨.of guid, address, .of mtu, .of encryptionEnabled⟩

/-! ### Reading what was written -/

theorem readHeader_append (id : PacketID) (rest : Bytes) :
    readHeader (offlineHeader id ++ rest) = .ok rest := by
  have hid : readU8 (offlineHeader id ++ rest) = .ok (id.toU8.toNat, magic ++ rest) := by
    have h := readU8_append (UInt8.toNat_lt id.toU8) (magic ++ rest)
    have hbyte : writeU8 id.toU8.toNat = [id.toU8] := by
      simp [writeU8, writeUInt, beBytes, leBytes]
    rwa [hbyte] at h
  simp [readHeader, hid]

@[simp] theorem head?_offlineHeader (id : PacketID) (rest : Bytes) :
    (offlineHeader id ++ rest).head? = some id.toU8 := rfl

@[simp] theorem length_offlineHeader (id : PacketID) : (offlineHeader id).length = 17 := rfl

/-- **The padding carries the MTU**: `OpenConnectionRequest1` is read as it was written. -/
theorem OpenConnectionRequest1.read_write {p : OpenConnectionRequest1} {buf : Bytes}
    (h : p.write = .ok buf) : OpenConnectionRequest1.read buf = .ok p := by
  unfold OpenConnectionRequest1.write at h
  split_ifs at h with hmtu
  obtain rfl : _ = buf := Except.ok.inj h
  have hlt := p.mtuSize.isLt
  have hlen : (offlineHeader .openConnectionRequest1 ++ writeU8 p.protocolVersion ++
      List.replicate (p.mtuSize - 46) 0).length + 28 = (p.mtuSize : ℕ) := by
    simp [writeU8]
    omega
  unfold OpenConnectionRequest1.read
  rw [hlen, List.append_assoc, readHeader_append]
  simp only [ok_bind]
  rw [readU8_append p.protocolVersion.isLt]
  simp only [ok_bind]
  rw [if_neg (by omega)]
  simp

theorem OpenConnectionRequest2.read_write (p : OpenConnectionRequest2) :
    OpenConnectionRequest2.read p.write = .ok { p with address := p.address.bare } := by
  have hguid := readU64_append .big p.guid.isLt []
  rw [List.append_nil] at hguid
  unfold OpenConnectionRequest2.read OpenConnectionRequest2.write
  rw [List.append_assoc, List.append_assoc, readHeader_append]
  simp only [ok_bind]
  rw [SocketAddr.read_write]
  simp only [ok_bind]
  rw [readU16_append .big p.mtu.isLt]
  simp only [ok_bind, hguid]
  simp

theorem OpenConnectionReply1.read_write (p : OpenConnectionReply1) :
    OpenConnectionReply1.read p.write = .ok p := by
  have hmtu := readU16_append .big p.mtuSize.isLt []
  rw [List.append_nil] at hmtu
  unfold OpenConnectionReply1.read OpenConnectionReply1.write
  rw [List.append_assoc, List.append_assoc, readHeader_append]
  simp only [ok_bind]
  rw [readU64_append .big p.guid.isLt]
  simp only [ok_bind]
  rw [readU8_append p.useEncryption.isLt]
  simp only [ok_bind, hmtu]
  simp

theorem OpenConnectionReply2.read_write (p : OpenConnectionReply2) :
    OpenConnectionReply2.read p.write = .ok { p with address := p.address.bare } := by
  have hlast := readU8_append p.encryptionEnabled.isLt []
  rw [List.append_nil] at hlast
  unfold OpenConnectionReply2.read OpenConnectionReply2.write
  rw [List.append_assoc, List.append_assoc, List.append_assoc, readHeader_append]
  simp only [ok_bind]
  rw [readU64_append .big p.guid.isLt]
  simp only [ok_bind]
  rw [SocketAddr.read_write]
  simp only [ok_bind]
  rw [readU16_append .big p.mtu.isLt]
  simp only [ok_bind, hlast]
  simp

end RustRaknet.Packet
