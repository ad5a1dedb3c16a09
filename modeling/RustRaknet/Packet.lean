import RustRaknet.Error

/-! # Packet identifiers

`packet.rs`: the first byte of a datagram, and of a payload that a frame carries, names its kind. -/

namespace RustRaknet.Packet

/-- `PacketID`. -/
inductive PacketID
  | connectedPing
  | unconnectedPing1
  | unconnectedPing2
  | connectedPong
  | unconnectedPong
  | openConnectionRequest1
  | openConnectionReply1
  | openConnectionRequest2
  | openConnectionReply2
  | connectionRequest
  | connectionRequestAccepted
  | alreadyConnected
  | newIncomingConnection
  | disconnect
  | incompatibleProtocolVersion
  | frameSetPacketBegin
  | frameSetPacketEnd
  | nack
  | ack
  | game
  deriving DecidableEq, Repr

namespace PacketID

/-- `PacketID::to_u8`. -/
def toU8 : PacketID → UInt8
  | connectedPing => 0x00
  | unconnectedPing1 => 0x01
  | unconnectedPing2 => 0x02
  | connectedPong => 0x03
  | unconnectedPong => 0x1c
  | openConnectionRequest1 => 0x05
  | openConnectionReply1 => 0x06
  | openConnectionRequest2 => 0x07
  | openConnectionReply2 => 0x08
  | connectionRequest => 0x09
  | connectionRequestAccepted => 0x10
  | alreadyConnected => 0x12
  | newIncomingConnection => 0x13
  | disconnect => 0x15
  | incompatibleProtocolVersion => 0x19
  | frameSetPacketBegin => 0x80
  | frameSetPacketEnd => 0x8d
  | nack => 0xa0
  | ack => 0xc0
  | game => 0xfe

/-- `PacketID::try_from`. Every frame set identifier reads as the first one, so
the two arms for `0x80` and `0x8d` are never reached. -/
def tryFrom (id : UInt8) : Except RaknetError PacketID :=
  if 0x80 ≤ id ∧ id ≤ 0x8d then .ok frameSetPacketBegin
  else
    match id with
    | 0x00 => .ok connectedPing
    | 0x01 => .ok unconnectedPing1
    | 0x02 => .ok unconnectedPing2
    | 0x03 => .ok connectedPong
    | 0x1c => .ok unconnectedPong
    | 0x05 => .ok openConnectionRequest1
    | 0x06 => .ok openConnectionReply1
    | 0x07 => .ok openConnectionRequest2
    | 0x08 => .ok openConnectionReply2
    | 0x09 => .ok connectionRequest
    | 0x10 => .ok connectionRequestAccepted
    | 0x12 => .ok alreadyConnected
    | 0x13 => .ok newIncomingConnection
    | 0x15 => .ok disconnect
    | 0x19 => .ok incompatibleProtocolVersion
    | 0xa0 => .ok nack
    | 0xc0 => .ok ack
    | 0xfe => .ok game
    | _ => .error .incorrectPacketID

end PacketID

end RustRaknet.Packet
