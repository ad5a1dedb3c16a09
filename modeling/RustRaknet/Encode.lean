import RustRaknet.Codec

/-! # The frame encoders and their buffers

`arq.rs` and `socket.rs`: `serialize`, `serialize_group_into`, `encode_header` and the buffer of
`send_frame` with everything that could stop them. A write to a slice that is full panics, and so
does a product that overflows its type; `Stop` tells a panic from an `Err`.

The header of a frame takes at most 27 bytes, so none of this happens, and all encoders write the
same bytes (`encoders_agree`). -/

namespace RustRaknet.Codec

open RustRaknet.Frame RustRaknet.Datatype RustRaknet.Lib.Result

/-- How a call ends without a value: with an `Err`, or by a panic. -/
inductive Stop
  | panic
  | err (e : RaknetError)
  deriving DecidableEq, Repr

/-- The operator `?`. -/
def orStop {α : Type} : Except RaknetError α → Except Stop α
  | .ok a => .ok a
  | .error e => .error (.err e)

/-- A write to a buffer: to a slice of `capacity` bytes, or to a vector. -/
def put (capacity : Option ℕ) (buffer b : Bytes) : Except Stop Bytes :=
  if capacity.all fun c => decide (buffer.length + b.length ≤ c) then .ok (buffer ++ b)
  else .error .panic

/-- A write that is made only when the flags ask for it. -/
def putIf (capacity : Option ℕ) (c : Bool) (buffer b : Bytes) : Except Stop Bytes :=
  if c then put capacity buffer b else .ok buffer

/-- The product of two numbers of type `u16`. -/
def mulU16 (a b : ℕ) : Except Stop ℕ := if a * b < 65536 then .ok (a * b) else .error .panic

/-- `FrameSetPacket::write_header`, to an empty buffer. -/
def writeHeaderTo (capacity : Option ℕ) (f : FrameSetPacket) : Except Stop Bytes := do
  let buffer ← put capacity [] (writeU8 (packetId f))
  let buffer ← put capacity buffer (writeU24 f.sequenceNumber .little)
  let buffer ← put capacity buffer (writeU8 f.flags)
  let bits ← mulU16 f.lengthInBytes 8
  let buffer ← put capacity buffer (writeU16 bits .big)
  let reliable ← orStop f.isReliable
  let buffer ← putIf capacity reliable buffer (writeU24 f.reliableFrameIndex .little)
  let sequenced ← orStop f.isSequenced
  let buffer ← putIf capacity sequenced buffer (writeU24 f.sequencedFrameIndex .little)
  let ordered ← orStop f.isOrdered
  let buffer ← putIf capacity ordered buffer (writeU24 f.orderedFrameIndex .little)
  let buffer ← putIf capacity ordered buffer (writeU8 f.orderChannel)
  let buffer ← putIf capacity f.isFragment buffer (writeU32 f.compoundSize .big)
  let buffer ← putIf capacity f.isFragment buffer (writeU16 f.compoundId .big)
  putIf capacity f.isFragment buffer (writeU32 f.fragmentIndex .big)

/-- `FrameSetPacket::encode_header`: the bytes of the array up to the returned length. -/
def encodeHeaderTo (f : FrameSetPacket) : Except Stop Bytes := do
  orStop f.validate
  writeHeaderTo (some 32) f

/-- `FrameSetPacket::serialize_into`, and with a new vector `serialize`. -/
def serialize (f : FrameSetPacket) : Except Stop Bytes := do
  orStop f.validate
  let _ ← orStop f.size
  let buffer ← writeHeaderTo none f
  put none buffer f.data.deref

/-- The slice `b[start..]`. -/
def sliceFrom (b : Bytes) (start : ℕ) : Except Stop Bytes :=
  if start ≤ b.length then .ok (b.drop start) else .error .panic

/-- The loop of `serialize_group_into`. -/
def groupLoopTo (sequenceNumber : ℕ) : ℕ → List FrameSetPacket → Bytes → Except Stop Bytes
  | _, [], output => .ok output
  | index, frame :: rest, output =>
    if frame.sequenceNumber ≠ sequenceNumber then .error (.err .packetParseError)
    else do
      let header ← encodeHeaderTo frame
      let header ← sliceFrom header (if index = 0 then 0 else 4)
      groupLoopTo sequenceNumber (index + 1) rest (output ++ header ++ frame.data.deref)

/-- `FrameSetPacket::serialize_group_into`. -/
def serializeGroupTo : List FrameSetPacket → Except Stop Bytes
  | [] => .error (.err .packetParseError)
  | first :: rest => groupLoopTo first.sequenceNumber 0 (first :: rest) []

/-- The datagram of `send_frame`: a small frame is put together in an array of 160 bytes, a larger
one is sent as two slices. -/
def sendFrameTo (f : FrameSetPacket) : Except Stop Bytes := do
  let header ← encodeHeaderTo f
  if f.data.len ≤ 128 then do
    let packet ← put (some 160) [] header
    put (some 160) packet f.data.deref
  else .ok (header ++ f.data.deref)

/-! ### The writes fit -/

section fits

variable {capacity : Option ℕ} {buffer b : Bytes} {f : FrameSetPacket} {r : Reliability}

theorem put_eq (h : ∀ c ∈ capacity, buffer.length + b.length ≤ c) :
    put capacity buffer b = .ok (buffer ++ b) := by
  unfold put
  refine if_pos ?_
  cases capacity with
  | none => rfl
  | some c => simpa using h c rfl

theorem putIf_eq {c : Bool} (h : ∀ n ∈ capacity, buffer.length + b.length ≤ n) :
    putIf capacity c buffer b = .ok (buffer ++ if c then b else []) := by
  unfold putIf
  split_ifs
  · exact put_eq h
  · rw [List.append_nil]

theorem length_fieldBytes (f : FrameSetPacket) (r : Reliability) :
    (fieldBytes f r).length + 4 = FrameSetPacket.sizeOf r f.isFragment 0 := by
  have hbyte : (writeU8 f.flags).length = 1 := by simp [writeU8]
  have hbits : (writeU16 (f.lengthInBytes * 8) .big).length = 2 := by simp [writeU16]
  simp only [fieldBytes, List.length_append, length_writeIf, hbyte, hbits, FrameSetPacket.sizeOf]
  split_ifs <;> omega

theorem sizeOf_le (r : Reliability) (fragment : Bool) (len : ℕ) :
    FrameSetPacket.sizeOf r fragment len ≤ len + 27 := by
  unfold FrameSetPacket.sizeOf
  split_ifs <;> omega

/-- **A header is written** to a vector, or to a slice of at least 27 bytes. -/
theorem writeHeaderTo_eq (hr : f.reliability = .ok r) (hbits : f.lengthInBytes * 8 < 65536)
    (hcapacity : ∀ c ∈ capacity, 27 ≤ c) :
    writeHeaderTo capacity f = .ok (datagramHeader f ++ fieldBytes f r) := by
  -- every write ends within the first 27 bytes
  have hput : ∀ {buffer b : Bytes}, buffer.length + b.length ≤ 27 →
      put capacity buffer b = .ok (buffer ++ b) := fun h =>
    put_eq fun c hc => h.trans (hcapacity c hc)
  have hputIf : ∀ {c : Bool} {buffer b : Bytes}, buffer.length + b.length ≤ 27 →
      putIf capacity c buffer b = .ok (buffer ++ if c then b else []) := fun h =>
    putIf_eq fun c hc => h.trans (hcapacity c hc)
  have hmul : mulU16 f.lengthInBytes 8 = .ok (f.lengthInBytes * 8) := if_pos hbits
  have hmodes : f.isReliable = .ok r.isReliable ∧ f.isSequenced = .ok r.isSequenced ∧
      f.isOrdered = .ok r.isOrdered := by
    simp [FrameSetPacket.isReliable, FrameSetPacket.isSequenced, FrameSetPacket.isOrdered, hr]
  have hlengths : ∀ (c : Bool) (b : Bytes), (if c then b else []).length =
      if c then b.length else 0 := fun c b => by split_ifs <;> rfl
  have hwidths : ∀ (n : ℕ) (e : Endian) (v : ℕ), (writeUInt n e v).length = n := fun n e v => by
    cases e <;> simp [writeUInt]
  unfold writeHeaderTo writeU8 writeU16 writeU24 writeU32
  rw [hmodes.1, hmodes.2.1, hmodes.2.2, hmul]
  simp (disch := (simp only [hlengths, hwidths, List.length_append, List.length_nil]; grind)) only
    [orStop, ok_bind, hput, hputIf]
  simp only [datagramHeader, fieldBytes, List.nil_append, List.append_assoc]
  rfl

end fits

/-! ### Nothing panics -/

section total

variable {f : FrameSetPacket}

theorem length_header (f : FrameSetPacket) (r : Reliability) :
    (datagramHeader f ++ fieldBytes f r).length = FrameSetPacket.sizeOf r f.isFragment 0 := by
  have := length_fieldBytes f r
  rw [List.length_append, length_datagramHeader]
  omega

/-- **`encode_header` never panics.** -/
theorem encodeHeaderTo_eq (f : FrameSetPacket) : encodeHeaderTo f = orStop (encodeHeader f) := by
  cases hv : f.validate with
  | error e => simp [encodeHeaderTo, encodeHeader, hv, orStop]
  | ok u =>
    obtain ⟨hlen, hmax, -, r, hr⟩ := validate_ok.mp hv
    rw [encodeHeader_eq hv hr]
    simp only [encodeHeaderTo, hv, orStop, ok_bind]
    refine writeHeaderTo_eq hr (by omega) fun c hc => ?_
    rw [← Option.some.inj hc]
    omega

theorem four_le_header {header : Bytes} (h : encodeHeader f = .ok header) : 4 ≤ header.length := by
  cases hv : f.validate with
  | error e => simp [encodeHeader, hv] at h
  | ok u =>
    obtain ⟨-, -, -, r, hr⟩ := validate_ok.mp hv
    rw [encodeHeader_eq hv hr] at h
    rw [← Except.ok.inj h, List.length_append, length_datagramHeader]
    omega

theorem groupLoopTo_eq (sequenceNumber : ℕ) : ∀ (fs : List FrameSetPacket) (index : ℕ)
    (output : Bytes), groupLoopTo sequenceNumber index fs output =
      orStop (groupLoop sequenceNumber index fs output)
  | [], _, _ => rfl
  | f :: fs, index, output => by
    unfold groupLoopTo groupLoop
    by_cases hs : f.sequenceNumber ≠ sequenceNumber
    · rw [if_pos hs, if_pos hs]
      rfl
    rw [if_neg hs, if_neg hs, encodeHeaderTo_eq]
    cases hheader : encodeHeader f with
    | error e => rfl
    | ok header =>
      have hslice : sliceFrom header (if index = 0 then 0 else 4) =
          .ok (header.drop (if index = 0 then 0 else 4)) := by
        have := four_le_header hheader
        refine if_pos ?_
        split_ifs <;> omega
      simp only [orStop, ok_bind, hslice]
      exact groupLoopTo_eq sequenceNumber fs (index + 1) _

/-- **`serialize_group_into` never panics**, whatever the frames. -/
theorem serializeGroupTo_eq (fs : List FrameSetPacket) :
    serializeGroupTo fs = orStop (serializeGroupInto fs) := by
  cases fs with
  | nil => rfl
  | cons f fs => exact groupLoopTo_eq f.sequenceNumber (f :: fs) 0 []

end total

/-- **All encoders write the same bytes**, and nothing overflows: a frame is invalid, and every one
of them returns an `Err`; or it is valid, and they write the header of at most 32 bytes and the
payload, as many bytes as `_size` says. -/
theorem encoders_agree (f : FrameSetPacket) :
    ((∃ e, f.validate = .error e) ∧ (∃ e, serialize f = .error (.err e)) ∧
      (∃ e, serializeGroupTo [f] = .error (.err e)) ∧ (∃ e, encodeHeaderTo f = .error (.err e)) ∧
      ∃ e, sendFrameTo f = .error (.err e)) ∨
    (f.validate = .ok () ∧ ∃ header, encodeHeaderTo f = .ok header ∧
      serialize f = .ok (header ++ f.data.deref) ∧
      serializeGroupTo [f] = .ok (header ++ f.data.deref) ∧
      sendFrameTo f = .ok (header ++ f.data.deref) ∧
      f.size = .ok (header ++ f.data.deref).length ∧ header.length ≤ 32 ∧
      (f.data.len ≤ 128 → header.length + f.data.len ≤ 160) ∧ f.lengthInBytes * 8 < 65536) := by
  cases hv : f.validate with
  | error e =>
    have hheader : encodeHeaderTo f = .error (.err e) := by simp [encodeHeaderTo, hv, orStop]
    refine .inl ⟨⟨e, rfl⟩, ⟨e, ?_⟩, ⟨e, ?_⟩, ⟨e, hheader⟩, ⟨e, ?_⟩⟩
    · simp [serialize, hv, orStop]
    · simp [serializeGroupTo, groupLoopTo, hheader]
    · simp [sendFrameTo, hheader]
  | ok u =>
    obtain ⟨hlen, hmax, -, r, hr⟩ := validate_ok.mp hv
    have hheader : encodeHeaderTo f = .ok (datagramHeader f ++ fieldBytes f r) := by
      rw [encodeHeaderTo_eq, encodeHeader_eq hv hr, orStop]
    have hlength := length_header f r
    have hshort := sizeOf_le r f.isFragment 0
    have hsize : f.size = .ok (FrameSetPacket.sizeOf r f.isFragment f.data.len) := by
      simp [FrameSetPacket.size, hr]
    have hsplit : FrameSetPacket.sizeOf r f.isFragment f.data.len =
        FrameSetPacket.sizeOf r f.isFragment 0 + f.data.deref.length := rfl
    refine .inr ⟨rfl, _, hheader, ?_, ?_, ?_, ?_, by omega, fun hsmall => by omega, by omega⟩
    · simp only [serialize, hv, hsize, orStop, ok_bind]
      rw [writeHeaderTo_eq hr (by omega) (by simp), ok_bind, put_eq (by simp)]
    · simp [serializeGroupTo, groupLoopTo, hheader, sliceFrom]
    · unfold sendFrameTo
      rw [hheader, ok_bind]
      split_ifs with hsmall
      · have hdata : f.data.deref.length ≤ 128 := hsmall
        have hfirst : put (some 160) [] (datagramHeader f ++ fieldBytes f r) =
            .ok ([] ++ (datagramHeader f ++ fieldBytes f r)) := put_eq fun c hc => by
          rw [← Option.some.inj hc, List.length_nil]
          omega
        rw [hfirst, ok_bind, List.nil_append]
        refine put_eq fun c hc => ?_
        rw [← Option.some.inj hc]
        omega
      · rfl
    · rw [hsize, hsplit, ← hlength, ← List.length_append]

end RustRaknet.Codec
