import Mathlib.Tactic

/-! # Errors

The error type of the crate (`error.rs`). Messages are only displayed, never compared, so they are
left out. -/

namespace RustRaknet

/-- `RaknetError`. -/
inductive RaknetError
  | setRaknetRawSocketError
  | notListen
  | bindAddressError
  | connectionClosed
  | notSupportVersion
  | incorrectReply
  | packetParseError
  | socketError
  | incorrectReliability
  | incorrectPacketID
  | readPacketBufferError
  | packetSizeExceedMTU
  | packetHeaderError
  | setMotdError
  deriving DecidableEq, Repr

/-- A byte string. -/
abbrev Bytes := List UInt8

end RustRaknet
