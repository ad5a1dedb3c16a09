import RustRaknet.Error

/-! # Frames

`arq.rs`: the reliability modes, the payload of a frame and the frame itself. A frame of the source
is a record of fixed-width integers; here they are natural numbers, and `InRange` says that they fit
their types.

A payload is stored in one of three ways (`FramePayload`); every reader goes through `deref`, the
bytes it stands for. The message a fragment belongs to shares one counter between all its clones:
`SharedPayload` holds the address of that counter and the length of the whole message. -/

namespace RustRaknet.Frame

/-! ### Reliability -/

/-- `Reliability`. -/
inductive Reliability
  | unreliable
  | unreliableSequenced
  | reliable
  | reliableOrdered
  | reliableSequenced
  deriving DecidableEq, Repr

/-- `Reliability::to_u8`. -/
def Reliability.toU8 : Reliability → ℕ
  | .unreliable => 0x00
  | .unreliableSequenced => 0x01
  | .reliable => 0x02
  | .reliableOrdered => 0x03
  | .reliableSequenced => 0x04

/-- `Reliability::from`. -/
def Reliability.ofU8 (flags : ℕ) : Except RaknetError Reliability :=
  match flags with
  | 0x00 => .ok .unreliable
  | 0x01 => .ok .unreliableSequenced
  | 0x02 => .ok .reliable
  | 0x03 => .ok .reliableOrdered
  | 0x04 => .ok .reliableSequenced
  | _ => .error .incorrectReliability

/-- The modes that carry a reliable index. -/
def Reliability.isReliable : Reliability → Bool
  | .reliable | .reliableOrdered | .reliableSequenced => true
  | _ => false

/-- The modes that carry an ordered index and a channel. -/
def Reliability.isOrdered : Reliability → Bool
  | .unreliableSequenced | .reliableOrdered | .reliableSequenced => true
  | _ => false

/-- The modes that carry a sequenced index. -/
def Reliability.isSequenced : Reliability → Bool
  | .unreliableSequenced | .reliableSequenced => true
  | _ => false

/-! ### Payloads -/

/-- `FramePayload`. -/
inductive FramePayload
  | owned (data : Bytes)
  | bytes (data : Bytes)
  | shared (owner : Bytes) (start length : ℕ)
  deriving DecidableEq, Repr

/-- `FramePayload::deref`: the bytes of the payload. -/
def FramePayload.deref : FramePayload → Bytes
  | .owned data => data
  | .bytes data => data
  | .shared owner start length => (owner.drop start).take length

/-- The length of the payload. -/
def FramePayload.len (p : FramePayload) : ℕ := p.deref.length

/-- `FramePayload::copy_shared`. -/
def FramePayload.copyShared (data : Bytes) : FramePayload := .shared data 0 (data.length % 65536)

@[simp] theorem deref_owned (d : Bytes) : (FramePayload.owned d).deref = d := rfl
@[simp] theorem deref_bytes (d : Bytes) : (FramePayload.bytes d).deref = d := rfl

theorem deref_copyShared {d : Bytes} (h : d.length < 65536) :
    (FramePayload.copyShared d).deref = d := by
  simp [FramePayload.copyShared, FramePayload.deref, Nat.mod_eq_of_lt h]

/-- `SharedPayload`: the address of the counter `remaining`, which all clones of a fragment of one
message share, and the length of the message. -/
structure SharedPayload where
  cell : ℕ
  bytes : ℕ
  deriving DecidableEq, Repr

/-! ### The frame -/

/-- `FrameSetPacket`. -/
structure FrameSetPacket where
  sequenceNumber : ℕ
  flags : ℕ
  lengthInBytes : ℕ
  reliableFrameIndex : ℕ
  sequencedFrameIndex : ℕ
  orderedFrameIndex : ℕ
  orderChannel : ℕ
  compoundSize : ℕ
  compoundId : ℕ
  fragmentIndex : ℕ
  data : FramePayload
  sharedPayload : Option SharedPayload
  deriving DecidableEq, Repr

namespace FrameSetPacket

variable (f : FrameSetPacket)

/-- The integers of a frame fit the types of the source. -/
structure InRange : Prop where
  sequenceNumber : f.sequenceNumber < 2 ^ 32
  flags : f.flags < 2 ^ 8
  lengthInBytes : f.lengthInBytes < 2 ^ 16
  reliableFrameIndex : f.reliableFrameIndex < 2 ^ 32
  sequencedFrameIndex : f.sequencedFrameIndex < 2 ^ 32
  orderedFrameIndex : f.orderedFrameIndex < 2 ^ 32
  orderChannel : f.orderChannel < 2 ^ 8
  compoundSize : f.compoundSize < 2 ^ 32
  compoundId : f.compoundId < 2 ^ 16
  fragmentIndex : f.fragmentIndex < 2 ^ 32

/-- `FrameSetPacket::from_payload`. -/
def fromPayload (r : Reliability) (data : FramePayload) : FrameSetPacket where
  sequenceNumber := 0
  flags := r.toU8 <<< 5
  lengthInBytes := data.len % 65536
  reliableFrameIndex := 0
  sequencedFrameIndex := 0
  orderedFrameIndex := 0
  orderChannel := 0
  compoundSize := 0
  compoundId := 0
  fragmentIndex := 0
  data := data
  sharedPayload := none

/-- `FrameSetPacket::new`. -/
def new (r : Reliability) (data : Bytes) : FrameSetPacket := fromPayload r (.owned data)

/-- `FrameSetPacket::is_fragment`: bit 4 of the flags. -/
def isFragment : Bool := f.flags &&& 16 != 0

/-- `FrameSetPacket::reliability`: the top three bits of the flags. -/
def reliability : Except RaknetError Reliability := Reliability.ofU8 ((f.flags &&& 224) >>> 5)

/-- `FrameSetPacket::is_reliable`. -/
def isReliable : Except RaknetError Bool := f.reliability.map Reliability.isReliable

/-- `FrameSetPacket::is_ordered`. -/
def isOrdered : Except RaknetError Bool := f.reliability.map Reliability.isOrdered

/-- `FrameSetPacket::is_sequenced`. -/
def isSequenced : Except RaknetError Bool := f.reliability.map Reliability.isSequenced

/-- The length of an encoded frame of mode `r`: identifier, sequence number, flags and length, the
indexes of the mode, the compound fields of a fragment, and the body. -/
def sizeOf (r : Reliability) (fragment : Bool) (len : ℕ) : ℕ :=
  1 + 3 + 1 + 2 + (if r.isReliable then 3 else 0) + (if r.isSequenced then 3 else 0) +
    (if r.isOrdered then 4 else 0) + (if fragment then 10 else 0) + len

/-- `FrameSetPacket::_size`. -/
def size : Except RaknetError ℕ :=
  f.reliability.map fun r => sizeOf r f.isFragment f.data.len

/-- `FrameSetPacket::validate`. -/
def validate : Except RaknetError Unit :=
  if f.data.len ≠ f.lengthInBytes ∨ 65535 / 8 < f.data.len ∨
      (f.isFragment ∧ (f.compoundSize = 0 ∨ f.compoundSize ≤ f.fragmentIndex)) then
    .error .packetParseError
  else f.size.map fun _ => ()

end FrameSetPacket

/-! ### Basic facts -/

@[simp] theorem reliability_shift (r : Reliability) :
    Reliability.ofU8 ((r.toU8 <<< 5 &&& 224) >>> 5) = .ok r := by cases r <;> rfl

@[simp] theorem reliability_shift_fragment (r : Reliability) :
    Reliability.ofU8 (((r.toU8 <<< 5 ||| 16) &&& 224) >>> 5) = .ok r := by cases r <;> rfl

@[simp] theorem shift_and_fragment (r : Reliability) : r.toU8 <<< 5 &&& 16 = 0 := by
  cases r <;> rfl

@[simp] theorem shift_or_and_fragment (r : Reliability) : (r.toU8 <<< 5 ||| 16) &&& 16 = 16 := by
  cases r <;> rfl

/-- What a valid frame satisfies. -/
theorem validate_ok {f : FrameSetPacket} :
    f.validate = .ok () ↔ f.data.len = f.lengthInBytes ∧ f.data.len ≤ 8191 ∧
      (f.isFragment = true → f.compoundSize ≠ 0 ∧ f.fragmentIndex < f.compoundSize) ∧
      ∃ r, f.reliability = .ok r := by
  unfold FrameSetPacket.validate FrameSetPacket.size
  split_ifs with h
  · constructor
    · intro h'; cases h'
    · rintro ⟨h1, h2, h3, -⟩
      exfalso
      rcases h with h | h | ⟨hf, h⟩
      · exact h h1
      · omega
      · obtain ⟨h4, h5⟩ := h3 hf
        omega
  · push Not at h
    obtain ⟨h1, h2, h3⟩ := h
    refine ⟨fun hr => ⟨h1, by omega, h3, ?_⟩, ?_⟩
    · cases hf : f.reliability with
      | ok r => exact ⟨r, rfl⟩
      | error e => rw [hf] at hr; cases hr
    · rintro ⟨-, -, -, r, hr⟩
      rw [hr]; rfl

end RustRaknet.Frame
