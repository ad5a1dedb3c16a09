import RustRaknet.Frame
import RustRaknet.Datatype

/-! # The frame-set codec

`arq.rs`: `write_header`, `encode_header` and `serialize_group_into`, which put a list of frames of
one sequence number into a datagram, and `FrameVec::decode`, which takes a datagram apart. The
layout of a frame follows its flags: the fields a mode does not use are not on the wire, and the
decoder leaves them zero.

* `fieldBytes f r` is what a frame of mode `r` puts on the wire between the datagram header and its
  body; `readFrame_append` and `readFrame_ok` say that `readFrame` reads exactly such strings.
* `decode_serializeGroupInto`: decoding what was encoded gives the frames back.
* `serializeGroupInto_decode`: encoding what was decoded gives the datagram back, up to its first
  byte. -/

namespace RustRaknet.Codec

open RustRaknet.Frame RustRaknet.Datatype RustRaknet.Lib.Result RustRaknet.Lib.Endian

/-! ### Encoding -/

/-- The packet identifier `write_header` starts with: the continuation bit is set for every
fragment after the first. -/
def packetId (f : FrameSetPacket) : ℕ :=
  if f.isFragment && f.fragmentIndex != 0 then 0x80 ||| 0x4 ||| 0x8 else 0x80 ||| 0x4

/-- `FrameSetPacket::write_header`. -/
def writeHeader (f : FrameSetPacket) : Except RaknetError Bytes := do
  let start := writeU8 (packetId f) ++ writeU24 f.sequenceNumber .little ++ writeU8 f.flags ++
    writeU16 (f.lengthInBytes * 8) .big
  let reliable ← f.isReliable
  let start := start ++ if reliable then writeU24 f.reliableFrameIndex .little else []
  let sequenced ← f.isSequenced
  let start := start ++ if sequenced then writeU24 f.sequencedFrameIndex .little else []
  let ordered ← f.isOrdered
  let start := start ++
    if ordered then writeU24 f.orderedFrameIndex .little ++ writeU8 f.orderChannel else []
  .ok (start ++ if f.isFragment then
    writeU32 f.compoundSize .big ++ writeU16 f.compoundId .big ++ writeU32 f.fragmentIndex .big
    else [])

/-- `FrameSetPacket::encode_header`. -/
def encodeHeader (f : FrameSetPacket) : Except RaknetError Bytes := do
  f.validate
  writeHeader f

/-- The loop of `serialize_group_into`: every frame after the first leaves out the four bytes of
the datagram header. -/
def groupLoop (sequenceNumber : ℕ) : ℕ → List FrameSetPacket → Bytes → Except RaknetError Bytes
  | _, [], output => .ok output
  | index, frame :: rest, output =>
    if frame.sequenceNumber ≠ sequenceNumber then .error .packetParseError
    else do
      let header ← encodeHeader frame
      groupLoop sequenceNumber (index + 1) rest
        (output ++ header.drop (if index = 0 then 0 else 4) ++ frame.data.deref)

/-- `FrameSetPacket::serialize_group_into`. -/
def serializeGroupInto : List FrameSetPacket → Except RaknetError Bytes
  | [] => .error .packetParseError
  | first :: rest => groupLoop first.sequenceNumber 0 (first :: rest) []

/-! ### Decoding -/

/-- A read that is made only when the flags ask for it. -/
def readIf (c : Bool) (n : ℕ) (e : Endian) (r : Bytes) : Except RaknetError (ℕ × Bytes) :=
  if c then readUInt n e r else .ok (0, r)

/-- The body of the loop of `FrameVec::decode`: one frame without its payload, the payload, and the
bytes after it. -/
def readFrame (sequenceNumber : ℕ) (r : Bytes) :
    Except RaknetError (FrameSetPacket × Bytes × Bytes) := do
  let (flags, r) ← readU8 r
  let (lengthInBits, r) ← readU16 .big r
  if lengthInBits % 8 ≠ 0 then .error .packetParseError else
  let frame : FrameSetPacket :=
    { sequenceNumber, flags, lengthInBytes := lengthInBits / 8, reliableFrameIndex := 0
      sequencedFrameIndex := 0, orderedFrameIndex := 0, orderChannel := 0, compoundSize := 0
      compoundId := 0, fragmentIndex := 0, data := .owned [], sharedPayload := none }
  let reliable ← frame.isReliable
  let (reliableFrameIndex, r) ← readIf reliable 3 .little r
  let sequenced ← frame.isSequenced
  let (sequencedFrameIndex, r) ← readIf sequenced 3 .little r
  let ordered ← frame.isOrdered
  let (orderedFrameIndex, r) ← readIf ordered 3 .little r
  let (orderChannel, r) ← readIf ordered 1 .big r
  let (compoundSize, r) ← readIf frame.isFragment 4 .big r
  let (compoundId, r) ← readIf frame.isFragment 2 .big r
  let (fragmentIndex, r) ← readIf frame.isFragment 4 .big r
  if frame.isFragment ∧ (compoundSize = 0 ∨ compoundSize ≤ fragmentIndex) then
    .error .packetParseError else
  let (data, r) ← readSlice frame.lengthInBytes r
  .ok ({ frame with
          reliableFrameIndex, sequencedFrameIndex, orderedFrameIndex, orderChannel,
          compoundSize, compoundId, fragmentIndex }, data, r)

/-- The loop of `FrameVec::decode`. Every frame takes at least three bytes, so the number of bytes
is enough turns (`decodeLoop_append`, `decodeLoop_ok`). With `owned` set the payload of a datagram's
only frame is left for the caller to move. -/
def decodeLoop (sequenceNumber : ℕ) (owned : Bool) :
    ℕ → Bytes → List FrameSetPacket → Except RaknetError (List FrameSetPacket)
  | _, [], frames => .ok frames
  | 0, _ :: _, _ => .error .packetParseError
  | n + 1, b :: r, frames => do
    let (frame, data, rest) ← readFrame sequenceNumber (b :: r)
    let frame := if !owned || !frames.isEmpty || !rest.isEmpty then
      { frame with data := .owned data } else frame
    decodeLoop sequenceNumber owned n rest (frames ++ [frame])

/-- `FrameVec::decode`. -/
def decode (buf : Bytes) (owned : Bool) : Except RaknetError (List FrameSetPacket) := do
  let (id, r) ← readU8 buf
  if ¬ (0x80 ≤ id ∧ id ≤ 0x8d) then .error .packetHeaderError else
  let (sequenceNumber, r) ← readU24 .little r
  if r = [] then .error .packetParseError else
  decodeLoop sequenceNumber owned r.length r []

/-- `FrameVec::decode_into`. -/
def decodeInto (buf : Bytes) : Except RaknetError (List FrameSetPacket) := decode buf false

/-! ### The bytes of one frame -/

/-- What a field puts on the wire when the flags ask for it. -/
def writeIf (c : Bool) (n : ℕ) (e : Endian) (v : ℕ) : Bytes := if c then writeUInt n e v else []

theorem length_writeIf (c : Bool) (n : ℕ) (e : Endian) (v : ℕ) :
    (writeIf c n e v).length = if c then n else 0 := by
  unfold writeIf
  split_ifs
  · cases e <;> simp [writeUInt]
  · rfl

/-- The bytes of a frame of mode `r` after the datagram header and before the body. -/
def fieldBytes (f : FrameSetPacket) (r : Reliability) : Bytes :=
  writeU8 f.flags ++ (writeU16 (f.lengthInBytes * 8) .big ++
    (writeIf r.isReliable 3 .little f.reliableFrameIndex ++
    (writeIf r.isSequenced 3 .little f.sequencedFrameIndex ++
    (writeIf r.isOrdered 3 .little f.orderedFrameIndex ++
    (writeIf r.isOrdered 1 .big f.orderChannel ++
    (writeIf f.isFragment 4 .big f.compoundSize ++
    (writeIf f.isFragment 2 .big f.compoundId ++
    writeIf f.isFragment 4 .big f.fragmentIndex)))))))

/-- The four bytes in front of the first frame of a datagram. -/
def datagramHeader (f : FrameSetPacket) : Bytes :=
  writeU8 (packetId f) ++ writeU24 f.sequenceNumber .little

/-- A field that is on the wire fits its `n` bytes, one that is not is zero. -/
def Fits (c : Bool) (n v : ℕ) : Prop := if c then v < 256 ^ n else v = 0

/-- The fields a frame does not put on the wire are zero, and the others fit their place. -/
structure OnWire (f : FrameSetPacket) (r : Reliability) : Prop where
  reliable : Fits r.isReliable 3 f.reliableFrameIndex
  sequenced : Fits r.isSequenced 3 f.sequencedFrameIndex
  ordered : Fits r.isOrdered 3 f.orderedFrameIndex
  channel : Fits r.isOrdered 1 f.orderChannel
  compoundSize : Fits f.isFragment 4 f.compoundSize
  compoundId : Fits f.isFragment 2 f.compoundId
  fragmentIndex : Fits f.isFragment 4 f.fragmentIndex

/-- A frame as the decoder builds it: it owns its payload and is not part of a send queue. -/
def asDecoded (f : FrameSetPacket) : FrameSetPacket :=
  { f with data := .owned f.data.deref, sharedPayload := none }

theorem readIf_append {c : Bool} {n v : ℕ} {e : Endian} (h : Fits c n v) (rest : Bytes) :
    readIf c n e (writeIf c n e v ++ rest) = .ok (v, rest) := by
  cases c with
  | true => exact readUInt_append e (by simpa [Fits] using h) rest
  | false => simp [Fits] at h; simp [readIf, writeIf, h]

theorem readIf_ok {c : Bool} {n v : ℕ} {e : Endian} {r rest : Bytes}
    (h : readIf c n e r = .ok (v, rest)) :
    r = writeIf c n e v ++ rest ∧ Fits c n v := by
  cases c with
  | true => exact readUInt_ok h
  | false =>
    simp only [readIf, Bool.false_eq_true, if_false, Except.ok.injEq, Prod.mk.injEq] at h
    obtain ⟨rfl, rfl⟩ := h
    simp [writeIf, Fits]

theorem encodeHeader_eq {f : FrameSetPacket} {r : Reliability} (hv : f.validate = .ok ())
    (hr : f.reliability = .ok r) :
    encodeHeader f = .ok (datagramHeader f ++ fieldBytes f r) := by
  have e : (if r.isOrdered then writeU24 f.orderedFrameIndex .little ++ writeU8 f.orderChannel
      else []) = writeIf r.isOrdered 3 .little f.orderedFrameIndex ++
        writeIf r.isOrdered 1 .big f.orderChannel := by
    unfold writeIf; split_ifs <;> rfl
  have e' : (if f.isFragment then writeU32 f.compoundSize .big ++ (writeU16 f.compoundId .big ++
      writeU32 f.fragmentIndex .big) else []) = writeIf f.isFragment 4 .big f.compoundSize ++
        (writeIf f.isFragment 2 .big f.compoundId ++
        writeIf f.isFragment 4 .big f.fragmentIndex) := by
    unfold writeIf; split_ifs <;> rfl
  unfold encodeHeader writeHeader
  simp only [hv, FrameSetPacket.isReliable, FrameSetPacket.isSequenced, FrameSetPacket.isOrdered,
    hr, map_ok, ok_bind, e, e', datagramHeader, fieldBytes, List.append_assoc]
  rfl

/-- **A frame is read back.** -/
theorem readFrame_append {f : FrameSetPacket} {r : Reliability} (hr : f.reliability = .ok r)
    (hv : f.validate = .ok ()) (hflags : f.flags < 2 ^ 8) (hw : OnWire f r) (rest : Bytes) :
    readFrame f.sequenceNumber (fieldBytes f r ++ (f.data.deref ++ rest)) =
      .ok ({ f with data := .owned [], sharedPayload := none }, f.data.deref, rest) := by
  obtain ⟨hlen, hmax, hfrag, -⟩ := validate_ok.mp hv
  have hdata : readSlice f.lengthInBytes (f.data.deref ++ rest) = .ok (f.data.deref, rest) := by
    rw [← hlen]; exact readSlice_append _ _
  have hbits : f.lengthInBytes * 8 < 2 ^ 16 := by omega
  unfold readFrame fieldBytes
  simp only [List.append_assoc, readU8_append hflags, readU16_append .big hbits, ok_bind,
    Nat.mul_mod_left, ne_eq, not_true_eq_false, if_false,
    Nat.mul_div_cancel _ (by decide : 0 < 8)]
  -- the mode and the fragment bit are read off the flags alone
  have hrel : ∀ s l i j k c x y z p q,
      (FrameSetPacket.mk s f.flags l i j k c x y z p q).reliability = .ok r :=
    fun _ _ _ _ _ _ _ _ _ _ _ => hr
  have hfr : ∀ s l i j k c x y z p q,
      (FrameSetPacket.mk s f.flags l i j k c x y z p q).isFragment = f.isFragment :=
    fun _ _ _ _ _ _ _ _ _ _ _ => rfl
  simp only [FrameSetPacket.isReliable, FrameSetPacket.isSequenced, FrameSetPacket.isOrdered,
    hrel, hfr, map_ok, ok_bind, readIf_append hw.reliable, readIf_append hw.sequenced,
    readIf_append hw.ordered, readIf_append hw.channel, readIf_append hw.compoundSize,
    readIf_append hw.compoundId, readIf_append hw.fragmentIndex]
  rw [if_neg, hdata]
  · rfl
  · rintro ⟨h1, h2⟩
    have := hfrag h1
    omega

/-- **A string that is read as a frame** is the encoding of that frame. -/
theorem readFrame_ok {s : ℕ} {b data rest : Bytes} {g : FrameSetPacket}
    (h : readFrame s b = .ok (g, data, rest)) :
    ∃ f r, f = { g with data := .owned data } ∧ f.sequenceNumber = s ∧ f.reliability = .ok r ∧
      f.validate = .ok () ∧ f.flags < 2 ^ 8 ∧ OnWire f r ∧ f.sharedPayload = none ∧
      b = fieldBytes f r ++ (data ++ rest) := by
  unfold readFrame at h
  obtain ⟨⟨flags, r1⟩, h1, h⟩ := bind_eq_ok.mp h
  obtain ⟨⟨bits, r2⟩, h2, h⟩ := bind_eq_ok.mp h
  obtain ⟨hbits, h⟩ := guard_eq_ok.mp h
  obtain ⟨reliable, hrel, h⟩ := bind_eq_ok.mp h
  obtain ⟨r, hr, rfl⟩ := map_eq_ok.mp hrel
  obtain ⟨⟨ri, r3⟩, h3, h⟩ := bind_eq_ok.mp h
  obtain ⟨sequenced, hseq, h⟩ := bind_eq_ok.mp h
  obtain ⟨r', hr', rfl⟩ := map_eq_ok.mp hseq
  obtain ⟨⟨si, r4⟩, h4, h⟩ := bind_eq_ok.mp h
  obtain ⟨ordered, hord, h⟩ := bind_eq_ok.mp h
  obtain ⟨r'', hr'', rfl⟩ := map_eq_ok.mp hord
  obtain ⟨⟨oi, r5⟩, h5, h⟩ := bind_eq_ok.mp h
  obtain ⟨⟨ch, r6⟩, h6, h⟩ := bind_eq_ok.mp h
  obtain ⟨⟨cs, r7⟩, h7, h⟩ := bind_eq_ok.mp h
  obtain ⟨⟨ci, r8⟩, h8, h⟩ := bind_eq_ok.mp h
  obtain ⟨⟨fi, r9⟩, h9, h⟩ := bind_eq_ok.mp h
  obtain ⟨hfrag, h⟩ := guard_eq_ok.mp h
  obtain ⟨⟨d, r10⟩, h10, h⟩ := bind_eq_ok.mp h
  simp only [Except.ok.injEq, Prod.mk.injEq] at h
  obtain ⟨rfl, rfl, rfl⟩ := h
  cases hr.symm.trans hr'
  cases hr.symm.trans hr''
  obtain ⟨rfl, hflags⟩ := readUInt_ok h1
  obtain ⟨rfl, hb⟩ := readUInt_ok h2
  obtain ⟨rfl, e3⟩ := readIf_ok h3
  obtain ⟨rfl, e4⟩ := readIf_ok h4
  obtain ⟨rfl, e5⟩ := readIf_ok h5
  obtain ⟨rfl, e6⟩ := readIf_ok h6
  obtain ⟨rfl, e7⟩ := readIf_ok h7
  obtain ⟨rfl, e8⟩ := readIf_ok h8
  obtain ⟨rfl, e9⟩ := readIf_ok h9
  obtain ⟨rfl, hlen⟩ := readSlice_ok h10
  have hbits8 : bits / 8 * 8 = bits := by simp only [ne_eq, not_not] at hbits; omega
  refine ⟨_, r, rfl, rfl, hr, ?_, by simpa using hflags, ⟨e3, e4, e5, e6, e7, e8, e9⟩, rfl, ?_⟩
  · refine validate_ok.mpr ⟨hlen, ?_, fun hf => ?_, r, hr⟩
    · simp only [FramePayload.len, deref_owned, hlen]; omega
    · by_contra hc
      exact hfrag ⟨hf, by simp only at hc; omega⟩
  · simp only [fieldBytes, hbits8, List.append_assoc]
    rfl

/-! ### Datagrams -/

/-- A frame that has an encoding under the sequence number `s`. -/
structure Encodable (s : ℕ) (f : FrameSetPacket) : Prop where
  sequenceNumber : f.sequenceNumber = s
  flags : f.flags < 2 ^ 8
  valid : f.validate = .ok ()
  onWire : ∃ r, f.reliability = .ok r ∧ OnWire f r

/-- The bytes of a frame behind the datagram header. -/
def frameBytes (f : FrameSetPacket) : Bytes :=
  match f.reliability with
  | .ok r => fieldBytes f r ++ f.data.deref
  | .error _ => []

theorem frameBytes_eq {f : FrameSetPacket} {r : Reliability} (hr : f.reliability = .ok r) :
    frameBytes f = fieldBytes f r ++ f.data.deref := by
  unfold frameBytes; rw [hr]

@[simp] theorem length_datagramHeader (f : FrameSetPacket) : (datagramHeader f).length = 4 := by
  simp [datagramHeader, writeU8, writeU24]

theorem fieldBytes_ne_nil (f : FrameSetPacket) (r : Reliability) : fieldBytes f r ≠ [] := by
  intro h
  have := congrArg List.length h
  simp [fieldBytes, writeU8] at this

theorem groupLoop_eq {s : ℕ} :
    ∀ (fs : List FrameSetPacket) (index : ℕ) (output : Bytes), (∀ f ∈ fs, Encodable s f) →
      groupLoop s (index + 1) fs output = .ok (output ++ (fs.map frameBytes).flatten)
  | [], index, output, _ => by simp [groupLoop]
  | f :: fs, index, output, h => by
    have hf := h f (by simp)
    obtain ⟨r, hr, -⟩ := hf.onWire
    have ih := groupLoop_eq fs (index + 1) (output ++ frameBytes f)
      (fun g hg => h g (List.mem_cons_of_mem _ hg))
    have hdrop : (datagramHeader f ++ fieldBytes f r).drop 4 = fieldBytes f r := by
      rw [List.drop_append_of_le_length (by simp), List.drop_eq_nil_of_le (by simp),
        List.nil_append]
    unfold groupLoop
    rw [if_neg (by simp [hf.sequenceNumber]), encodeHeader_eq hf.valid hr, ok_bind,
      if_neg (Nat.succ_ne_zero index), hdrop, List.append_assoc, ← frameBytes_eq hr, ih]
    simp

/-- **The datagram of a list of frames**: one header, then the frames. -/
theorem serializeGroupInto_eq {s : ℕ} {f : FrameSetPacket} {fs : List FrameSetPacket}
    (h : ∀ g ∈ f :: fs, Encodable s g) :
    serializeGroupInto (f :: fs) =
      .ok (datagramHeader f ++ ((f :: fs).map frameBytes).flatten) := by
  have hf := h f (by simp)
  obtain ⟨r, hr, -⟩ := hf.onWire
  simp only [serializeGroupInto, groupLoop, ne_eq, not_true_eq_false, if_false,
    encodeHeader_eq hf.valid hr, ok_bind, if_true, List.drop_zero, hf.sequenceNumber,
    groupLoop_eq fs 0 _ (fun g hg => h g (List.mem_cons_of_mem _ hg))]
  simp [frameBytes_eq hr]

theorem groupLoop_ok {s : ℕ} :
    ∀ {fs : List FrameSetPacket} {index : ℕ} {output b : Bytes},
      groupLoop s index fs output = .ok b →
      ∀ f ∈ fs, f.sequenceNumber = s ∧ f.validate = .ok ()
  | [], _, _, _, _ => fun f hf => by cases hf
  | g :: fs, index, output, b, h => by
    unfold groupLoop at h
    obtain ⟨hs, h⟩ := guard_eq_ok.mp h
    obtain ⟨header, hheader, h⟩ := bind_eq_ok.mp h
    obtain ⟨⟨⟩, hvalid, -⟩ := bind_eq_ok.mp hheader
    intro f hf
    rcases List.mem_cons.mp hf with rfl | hf
    · exact ⟨not_not.mp hs, hvalid⟩
    · exact groupLoop_ok h f hf

theorem serializeGroupInto_ok {fs : List FrameSetPacket} {b : Bytes}
    (h : serializeGroupInto fs = .ok b) :
    fs ≠ [] ∧ ∃ s, ∀ f ∈ fs, f.sequenceNumber = s ∧ f.validate = .ok () := by
  cases fs with
  | nil => cases h
  | cons f fs => exact ⟨List.cons_ne_nil f fs, f.sequenceNumber, groupLoop_ok h⟩

theorem decodeLoop_append {s : ℕ} :
    ∀ (fs acc : List FrameSetPacket) (n : ℕ), (∀ f ∈ fs, Encodable s f) →
      ((fs.map frameBytes).flatten).length ≤ n →
      decodeLoop s false n ((fs.map frameBytes).flatten) acc = .ok (acc ++ fs.map asDecoded)
  | [], acc, n, _, _ => by
    cases n <;> simp [decodeLoop]
  | f :: fs, acc, n, h, hn => by
    have hf := h f (by simp)
    obtain ⟨r, hr, hw⟩ := hf.onWire
    have hread : readFrame s ((List.map frameBytes (f :: fs)).flatten) =
        .ok ({ f with data := .owned [], sharedPayload := none }, f.data.deref,
          (fs.map frameBytes).flatten) := by
      rw [List.map_cons, List.flatten_cons, frameBytes_eq hr, List.append_assoc,
        ← hf.sequenceNumber]
      exact readFrame_append hr hf.valid hf.flags hw _
    obtain ⟨b, l, hbl⟩ : ∃ b l, (List.map frameBytes (f :: fs)).flatten = b :: l := by
      apply List.exists_cons_of_ne_nil
      rw [List.map_cons, List.flatten_cons, frameBytes_eq hr]
      simp [fieldBytes_ne_nil]
    have hlen : ((fs.map frameBytes).flatten).length < (b :: l).length := by
      have hne := List.length_pos_of_ne_nil (fieldBytes_ne_nil f r)
      rw [← hbl, List.map_cons, List.flatten_cons, frameBytes_eq hr]
      simp only [List.length_append]
      omega
    rw [hbl] at hread hn ⊢
    cases n with
    | zero => simp at hn
    | succ n =>
      have ih := decodeLoop_append fs (acc ++ [asDecoded f]) n
        (fun g hg => h g (List.mem_cons_of_mem _ hg)) (by omega)
      simp only [decodeLoop, hread, ok_bind, Bool.not_false, Bool.true_or, if_true]
      rw [show ({ f with data := .owned f.data.deref, sharedPayload := none } : FrameSetPacket) =
        asDecoded f from rfl, ih]
      simp

theorem decodeLoop_ok {s : ℕ} :
    ∀ (n : ℕ) (b : Bytes) (acc fs : List FrameSetPacket), decodeLoop s false n b acc = .ok fs →
      ∃ gs, fs = acc ++ gs ∧ (∀ g ∈ gs, Encodable s g ∧ asDecoded g = g) ∧
        b = (gs.map frameBytes).flatten
  | n, [], acc, fs, h => by
    have : fs = acc := by cases n <;> simpa [decodeLoop, eq_comm] using h
    exact ⟨[], by simp [this], by simp, rfl⟩
  | 0, b :: l, acc, fs, h => by simp [decodeLoop] at h
  | n + 1, b :: l, acc, fs, h => by
    simp only [decodeLoop, Bool.not_false, Bool.true_or, if_true] at h
    obtain ⟨⟨g, data, rest⟩, hread, h⟩ := bind_eq_ok.mp h
    obtain ⟨f, r, hf, hs, hr, hv, hfl, hw, hsp, hb⟩ := readFrame_ok hread
    obtain ⟨gs, rfl, hgs, hrest⟩ := decodeLoop_ok n rest _ _ h
    refine ⟨f :: gs, by simp [hf], ?_, ?_⟩
    · intro x hx
      rcases List.mem_cons.mp hx with rfl | hx
      · refine ⟨⟨hs, hfl, hv, r, hr, hw⟩, ?_⟩
        subst hf
        simp only at hsp
        simp [asDecoded, hsp]
      · exact hgs x hx
    · rw [List.map_cons, List.flatten_cons, frameBytes_eq hr, ← hrest, hb, hf]
      simp

theorem decodeInto_append {s id : ℕ} (hid : 0x80 ≤ id ∧ id ≤ 0x8d) (hs : s < 2 ^ 24)
    {fs : List FrameSetPacket} (hne : fs ≠ []) (h : ∀ f ∈ fs, Encodable s f) :
    decodeInto (writeU8 id ++ writeU24 s .little ++ (fs.map frameBytes).flatten) =
      .ok (fs.map asDecoded) := by
  have hbody : (fs.map frameBytes).flatten ≠ [] := by
    obtain ⟨f, gs, rfl⟩ := List.exists_cons_of_ne_nil hne
    obtain ⟨r, hr, -⟩ := (h f (by simp)).onWire
    rw [List.map_cons, List.flatten_cons, frameBytes_eq hr]
    simp [fieldBytes_ne_nil]
  unfold decodeInto decode
  simp only [List.append_assoc, readU8_append (show id < 2 ^ 8 by omega), ok_bind, hid, and_self,
    not_true_eq_false, if_false, readU24_append .little hs, hbody]
  rw [decodeLoop_append fs [] _ h le_rfl]
  rfl

theorem decodeInto_ok {b : Bytes} {fs : List FrameSetPacket} (h : decodeInto b = .ok fs) :
    ∃ id s, s < 2 ^ 24 ∧ fs ≠ [] ∧ (∀ f ∈ fs, Encodable s f ∧ asDecoded f = f) ∧
      b = writeU8 id ++ writeU24 s .little ++ (fs.map frameBytes).flatten := by
  unfold decodeInto decode at h
  obtain ⟨⟨id, r1⟩, h1, hrest⟩ := bind_eq_ok.mp h
  obtain ⟨-, hrest'⟩ := guard_eq_ok.mp hrest
  obtain ⟨⟨s, r2⟩, h2, hrest''⟩ := bind_eq_ok.mp hrest'
  obtain ⟨hne, hloop⟩ := guard_eq_ok.mp hrest''
  obtain ⟨gs, rfl, hgs, hb⟩ := decodeLoop_ok _ _ _ _ hloop
  obtain ⟨e1, -⟩ := readUInt_ok h1
  obtain ⟨e2, hs⟩ := readUInt_ok h2
  refine ⟨id, s, by simpa using hs, ?_, hgs, ?_⟩
  · rintro rfl
    exact hne (by simpa using hb)
  · rw [e1, e2, ← hb, List.append_assoc]
    rfl

/-! ### The codec is exact -/

/-- A well-formed frame: it passes `validate`, its indexes have 24 bits, and the fields its flags do
not put on the wire are zero. -/
structure WellFormed (f : FrameSetPacket) : Prop where
  inRange : f.InRange
  valid : f.validate = .ok ()
  reliable24 : f.reliableFrameIndex < 2 ^ 24
  sequenced24 : f.sequencedFrameIndex < 2 ^ 24
  ordered24 : f.orderedFrameIndex < 2 ^ 24
  notReliable : f.isReliable = .ok false → f.reliableFrameIndex = 0
  notSequenced : f.isSequenced = .ok false → f.sequencedFrameIndex = 0
  notOrdered : f.isOrdered = .ok false → f.orderedFrameIndex = 0 ∧ f.orderChannel = 0
  notFragment : f.isFragment = false →
    f.compoundSize = 0 ∧ f.compoundId = 0 ∧ f.fragmentIndex = 0

theorem fits_of {c : Bool} {n v : ℕ} (h : v < 256 ^ n) (h0 : c = false → v = 0) : Fits c n v := by
  cases c with
  | true => simpa [Fits] using h
  | false => simpa [Fits] using h0 rfl

theorem Fits.lt {c : Bool} {n v : ℕ} (h : Fits c n v) : v < 256 ^ n := by
  cases c with
  | true => simpa [Fits] using h
  | false => simp [Fits] at h; simp [h]

theorem Fits.eq_zero {n v : ℕ} (h : Fits false n v) : v = 0 := by simpa [Fits] using h

theorem WellFormed.encodable {f : FrameSetPacket} (h : WellFormed f) :
    Encodable f.sequenceNumber f := by
  obtain ⟨-, -, -, r, hr⟩ := validate_ok.mp h.valid
  have hmode : ∀ p : Reliability → Bool, f.reliability.map p = .ok (p r) := fun p => by
    rw [hr]; rfl
  refine ⟨rfl, h.inRange.flags, h.valid, r, hr, ?_⟩
  constructor
  · exact fits_of (by simpa using h.reliable24) fun hz => h.notReliable (by rw [← hz]; exact hmode _)
  · exact fits_of (by simpa using h.sequenced24)
      fun hz => h.notSequenced (by rw [← hz]; exact hmode _)
  · exact fits_of (by simpa using h.ordered24)
      fun hz => (h.notOrdered (by rw [← hz]; exact hmode _)).1
  · exact fits_of (by simpa using h.inRange.orderChannel)
      fun hz => (h.notOrdered (by rw [← hz]; exact hmode _)).2
  · exact fits_of (by simpa using h.inRange.compoundSize) fun hz => (h.notFragment hz).1
  · exact fits_of (by simpa using h.inRange.compoundId) fun hz => (h.notFragment hz).2.1
  · exact fits_of (by simpa using h.inRange.fragmentIndex) fun hz => (h.notFragment hz).2.2

theorem Encodable.wellFormed {s : ℕ} {f : FrameSetPacket} (hs : s < 2 ^ 24) (h : Encodable s f) :
    WellFormed f := by
  obtain ⟨r, hr, hw⟩ := h.onWire
  obtain ⟨hlen, hmax, -, -⟩ := validate_ok.mp h.valid
  have hri := hw.reliable.lt
  have hsi := hw.sequenced.lt
  have hoi := hw.ordered.lt
  have hseq := h.sequenceNumber
  have hmode : ∀ {p : Reliability → Bool}, f.reliability.map p = .ok false → p r = false := by
    intro p hp; rw [hr] at hp; simpa using hp
  refine ⟨⟨by omega, h.flags, by omega, by omega, by omega, by omega, by simpa using hw.channel.lt,
    by simpa using hw.compoundSize.lt, by simpa using hw.compoundId.lt,
    by simpa using hw.fragmentIndex.lt⟩, h.valid, by simpa using hri, by simpa using hsi,
    by simpa using hoi, ?_, ?_, ?_, ?_⟩
  · intro hp
    exact Fits.eq_zero (hmode hp ▸ hw.reliable)
  · intro hp
    exact Fits.eq_zero (hmode hp ▸ hw.sequenced)
  · intro hp
    exact ⟨Fits.eq_zero (hmode hp ▸ hw.ordered), Fits.eq_zero (hmode hp ▸ hw.channel)⟩
  · intro hp
    exact ⟨Fits.eq_zero (hp ▸ hw.compoundSize), Fits.eq_zero (hp ▸ hw.compoundId),
      Fits.eq_zero (hp ▸ hw.fragmentIndex)⟩

/-- **Round trip**: a datagram of well-formed frames decodes to these frames. -/
theorem decode_serializeGroupInto {s : ℕ} {fs : List FrameSetPacket} (hne : fs ≠ [])
    (hs : s < 2 ^ 24) (h : ∀ f ∈ fs, Encodable s f) :
    ∃ b, serializeGroupInto fs = .ok b ∧ decodeInto b = .ok (fs.map asDecoded) := by
  obtain ⟨f, gs, rfl⟩ := List.exists_cons_of_ne_nil hne
  refine ⟨_, serializeGroupInto_eq h, ?_⟩
  have hid : 0x80 ≤ packetId f ∧ packetId f ≤ 0x8d := by
    unfold packetId; split_ifs <;> decide
  have := decodeInto_append hid hs hne h
  rwa [datagramHeader, (h f (by simp)).sequenceNumber]

/-- **Back**: the frames of a datagram encode to that datagram, up to its first byte. -/
theorem serializeGroupInto_decode {b : Bytes} {fs : List FrameSetPacket}
    (h : decodeInto b = .ok fs) :
    ∃ id : UInt8, (id = 0x84 ∨ id = 0x8c) ∧ serializeGroupInto fs = .ok (id :: b.tail) := by
  obtain ⟨id, s, -, hne, hfs, rfl⟩ := decodeInto_ok h
  obtain ⟨f, gs, rfl⟩ := List.exists_cons_of_ne_nil hne
  refine ⟨UInt8.ofNat (packetId f), ?_, ?_⟩
  · unfold packetId
    split_ifs
    · right; rfl
    · left; rfl
  · rw [serializeGroupInto_eq fun g hg => (hfs g hg).1, datagramHeader,
      (hfs f (by simp)).1.sequenceNumber]
    simp [writeU8, writeUInt, beBytes, leBytes]

/-- **The frame-set codec is exact in both directions.** -/
theorem frameSet_codec :
    (∀ (s : ℕ) (fs : List FrameSetPacket), fs ≠ [] → s < 2 ^ 24 →
      (∀ f ∈ fs, f.sequenceNumber = s ∧ WellFormed f) →
      ∃ b, serializeGroupInto fs = .ok b ∧ decodeInto b = .ok (fs.map asDecoded)) ∧
    ∀ (b : Bytes) (fs : List FrameSetPacket), decodeInto b = .ok fs →
      (∀ f ∈ fs, f.validate = .ok () ∧ WellFormed f) ∧
      ∃ id : UInt8, (id = 0x84 ∨ id = 0x8c) ∧ serializeGroupInto fs = .ok (id :: b.tail) := by
  refine ⟨fun s fs hne hs h => ?_, fun b fs h => ⟨?_, serializeGroupInto_decode h⟩⟩
  · refine decode_serializeGroupInto hne hs fun f hf => ?_
    obtain ⟨rfl, hw⟩ := h f hf
    exact hw.encodable
  · obtain ⟨id, s, hs, -, hfs, -⟩ := decodeInto_ok h
    exact fun f hf => ⟨(hfs f hf).1.valid, (hfs f hf).1.wellFormed hs⟩

end RustRaknet.Codec
