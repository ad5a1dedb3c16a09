import RustRaknet.Acks
import RustRaknet.Datatype
import RustRaknet.Packet

/-! # Acknowledgement packets

`packet.rs`: `write_control_ranges_into`, `read_packet_ack` and `read_packet_nack`. A packet holds a
count and that many records; a record of one number may be written in a single form, without its
end. `Record` is what stands on the wire, so it tells the two forms apart: the readers accept
exactly the strings of valid records (`readRecords_iff`), and the writer uses the single form for
every range of one number. -/

namespace RustRaknet.Packet

open RustRaknet.Datatype RustRaknet.Sequence RustRaknet.Indexes RustRaknet.Lib.Result
  RustRaknet.Lib.Ranges RustRaknet.Lib.Endian

/-! ### Writing -/

/-- One turn of `write_sequence_records`. -/
def writeRecord (r : ℕ × ℕ) : Bytes :=
  let isSingle := if r.1 = r.2 then 1 else 0
  writeU8 isSingle ++ writeU24 r.1 .little ++ if isSingle = 0 then writeU24 r.2 .little else []

/-- `write_sequence_records`. -/
def writeSequenceRecords (sequences : List (ℕ × ℕ)) : Bytes := sequences.flatMap writeRecord

/-- `write_control_ranges_into`. -/
def writeControlRangesInto (kind : PacketID) (sequences : List (ℕ × ℕ)) :
    Except RaknetError Bytes :=
  if 65535 < sequences.length then .error .packetParseError
  else .ok (kind.toU8 :: (writeU16 sequences.length .big ++ writeSequenceRecords sequences))

/-! ### Reading -/

/-- `Ack` and `Nack`. -/
structure ControlPacket where
  recordCount : ℕ
  sequences : List (ℕ × ℕ)
  deriving DecidableEq, Repr

/-- The end of a range: in the single form it is its start. -/
def readEnd (isSingle start : ℕ) (r : Bytes) : Except RaknetError (ℕ × Bytes) :=
  if isSingle = 1 then .ok (start, r) else readU24 .little r

/-- One turn of `read_sequence_records`. -/
def readRecord (r : Bytes) : Except RaknetError ((ℕ × ℕ) × Bytes) := do
  let (isSingle, r) ← readU8 r
  if 1 < isSingle then .error .packetParseError else
  let (start, r) ← readU24 .little r
  let (stop, r) ← readEnd isSingle start r
  if stop < start then .error .packetParseError else .ok ((start, stop), r)

/-- The loop of `read_sequence_records`. -/
def readRecords : ℕ → Bytes → Except RaknetError (List (ℕ × ℕ) × Bytes)
  | 0, r => .ok ([], r)
  | count + 1, r => do
    let (range, r) ← readRecord r
    let (ranges, r) ← readRecords count r
    .ok (range :: ranges, r)

/-- `read_sequence_records`, with the bytes it leaves. -/
def readSequenceRecords (recordCount : ℕ) (r : Bytes) :
    Except RaknetError (List (ℕ × ℕ) × Bytes) :=
  if r.length / 4 < recordCount then .error .packetParseError else readRecords recordCount r

/-- The body of the two readers, with the bytes it leaves. -/
def readControl (buf : Bytes) : Except RaknetError (ControlPacket × Bytes) := do
  let (_, r) ← readU8 buf
  let (recordCount, r) ← readU16 .big r
  let (sequences, r) ← readSequenceRecords recordCount r
  .ok (⟨recordCount, sequences⟩, r)

/-- `read_packet_ack`. -/
def readPacketAck (buf : Bytes) : Except RaknetError ControlPacket := (readControl buf).map Prod.fst

/-- `read_packet_nack`. -/
def readPacketNack (buf : Bytes) : Except RaknetError ControlPacket :=
  (readControl buf).map Prod.fst

/-- The two kinds of packets. -/
inductive ControlKind
  | ack
  | nack
  deriving DecidableEq, Repr

/-- The identifier of a kind. -/
def ControlKind.id : ControlKind → PacketID
  | ack => .ack
  | nack => .nack

/-- The reader of a kind. -/
def ControlKind.read : ControlKind → Bytes → Except RaknetError ControlPacket
  | ack => readPacketAck
  | nack => readPacketNack

theorem ControlKind.read_eq (kind : ControlKind) (buf : Bytes) :
    kind.read buf = (readControl buf).map Prod.fst := by
  cases kind <;> rfl

/-! ### Records on the wire -/

/-- A record on the wire. -/
structure Record where
  single : Bool
  start : ℕ
  stop : ℕ
  deriving DecidableEq, Repr

namespace Record

/-- The range of a record. -/
def range (x : Record) : ℕ × ℕ := (x.start, x.stop)

/-- The bytes of a record. -/
def bytes (x : Record) : Bytes :=
  writeU8 (if x.single then 1 else 0) ++ writeU24 x.start .little ++
    if x.single then [] else writeU24 x.stop .little

/-- The range is not empty and of 24 bits, and the single form is for one number. -/
structure Valid (x : Record) : Prop where
  le : x.start ≤ x.stop
  lt : x.stop < 2 ^ 24
  single : x.single = true → x.start = x.stop

/-- One number is written in the single form. -/
def Canonical (x : Record) : Prop := x.start = x.stop → x.single = true

/-- The record the writer makes of a range. -/
def ofRange (r : ℕ × ℕ) : Record := ⟨decide (r.1 = r.2), r.1, r.2⟩

@[simp] theorem range_ofRange (r : ℕ × ℕ) : (ofRange r).range = r := rfl

theorem bytes_ofRange (r : ℕ × ℕ) : (ofRange r).bytes = writeRecord r := by
  by_cases h : r.1 = r.2 <;> simp [ofRange, bytes, writeRecord, h]

theorem valid_ofRange {r : ℕ × ℕ} (h : r.1 ≤ r.2 ∧ r.2 ≤ mask) : (ofRange r).Valid :=
  ⟨h.1, by have := h.2; unfold mask at this; simp only [ofRange]; omega,
    fun hs => of_decide_eq_true hs⟩

theorem ofRange_range {x : Record} (hv : x.Valid) (hc : x.Canonical) : ofRange x.range = x := by
  obtain ⟨single, start, stop⟩ := x
  have hiff : start = stop ↔ single = true := ⟨hc, hv.single⟩
  simp [ofRange, range, hiff]

end Record

theorem le_length_bytes (x : Record) : 4 ≤ x.bytes.length := by
  unfold Record.bytes
  simp only [List.length_append, writeU8, writeU24, length_writeUInt]
  omega

theorem readRecord_append {x : Record} (h : x.Valid) (rest : Bytes) :
    readRecord (x.bytes ++ rest) = .ok (x.range, rest) := by
  have hstart : x.start < 2 ^ 24 := Nat.lt_of_le_of_lt h.le h.lt
  unfold readRecord Record.bytes
  cases hs : x.single with
  | true =>
    have heq := h.single hs
    simp only [if_true, List.append_nil, List.append_assoc]
    rw [readU8_append (by norm_num)]
    simp only [ok_bind]
    rw [readU24_append .little hstart]
    simp [readEnd, Record.range, heq]
  | false =>
    have hle : ¬ x.stop < x.start := by have := h.le; omega
    simp only [Bool.false_eq_true, if_false, List.append_assoc]
    rw [readU8_append (by norm_num)]
    simp only [ok_bind]
    rw [readU24_append .little hstart]
    simp only [ok_bind, readEnd]
    rw [if_neg (by norm_num), if_neg (by norm_num), readU24_append .little h.lt]
    simp [Record.range, hle]

/-- **What a turn of the reader accepts** is a valid record. -/
theorem readRecord_ok {r rest : Bytes} {range : ℕ × ℕ} (h : readRecord r = .ok (range, rest)) :
    ∃ x : Record, x.Valid ∧ x.range = range ∧ r = x.bytes ++ rest := by
  obtain ⟨⟨tag, r₁⟩, htag, h⟩ := bind_eq_ok.mp h
  obtain ⟨hle, h⟩ := guard_eq_ok.mp h
  obtain ⟨⟨start, r₂⟩, hstart, h⟩ := bind_eq_ok.mp h
  obtain ⟨⟨stop, r₃⟩, hstop, h⟩ := bind_eq_ok.mp h
  obtain ⟨hge, h⟩ := guard_eq_ok.mp h
  obtain ⟨rfl, rfl⟩ := Prod.mk.inj (Except.ok.inj h)
  obtain ⟨rfl, htag'⟩ := readUInt_ok htag
  obtain ⟨rfl, hstart'⟩ := readUInt_ok hstart
  unfold readEnd at hstop
  by_cases hone : tag = 1
  · rw [if_pos hone] at hstop
    obtain ⟨rfl, rfl⟩ := Prod.mk.inj (Except.ok.inj hstop)
    refine ⟨⟨true, start, start⟩, ⟨le_rfl, by simpa using hstart', fun _ => rfl⟩, rfl, ?_⟩
    simp [Record.bytes, hone, writeU8, writeU24]
  · rw [if_neg hone] at hstop
    obtain ⟨rfl, hstop'⟩ := readUInt_ok hstop
    have hzero : tag = 0 := by omega
    refine ⟨⟨false, start, stop⟩, ⟨by dsimp only; omega, by simpa using hstop', by simp⟩, rfl, ?_⟩
    simp [Record.bytes, hzero, writeU8, writeU24]

/-- **What the loop accepts** are strings of that many valid records. -/
theorem readRecords_iff {count : ℕ} {r rest : Bytes} {ranges : List (ℕ × ℕ)} :
    readRecords count r = .ok (ranges, rest) ↔ ∃ records : List Record,
      (∀ x ∈ records, x.Valid) ∧ records.length = count ∧ records.map Record.range = ranges ∧
        r = records.flatMap Record.bytes ++ rest := by
  induction count generalizing r ranges with
  | zero =>
    constructor
    · intro h
      obtain ⟨rfl, rfl⟩ := Prod.mk.inj (Except.ok.inj h)
      exact ⟨[], by simp, rfl, rfl, rfl⟩
    · rintro ⟨records, -, hlen, rfl, rfl⟩
      obtain rfl := List.length_eq_zero_iff.mp hlen
      rfl
  | succ count ih =>
    constructor
    · intro h
      obtain ⟨⟨range, r₁⟩, hrecord, h⟩ := bind_eq_ok.mp h
      obtain ⟨⟨ranges', r₂⟩, hrecords, h⟩ := bind_eq_ok.mp h
      obtain ⟨rfl, rfl⟩ := Prod.mk.inj (Except.ok.inj h)
      obtain ⟨x, hx, rfl, rfl⟩ := readRecord_ok hrecord
      obtain ⟨records, hvalid, rfl, rfl, rfl⟩ := ih.mp hrecords
      refine ⟨x :: records, fun y hy => ?_, rfl, rfl, by simp⟩
      rcases List.mem_cons.mp hy with rfl | hy
      · exact hx
      · exact hvalid y hy
    · rintro ⟨records, hvalid, hlen, rfl, rfl⟩
      cases records with
      | nil => simp at hlen
      | cons x records =>
        have hrest := ih.mpr ⟨records, fun y hy => hvalid y (by simp [hy]), by simpa using hlen,
          rfl, rfl⟩
        simp only [readRecords, List.flatMap_cons, List.append_assoc]
        rw [readRecord_append (hvalid x (by simp))]
        simp [hrest]

/-- **The check of the count rejects nothing** that the loop would accept. -/
theorem readSequenceRecords_of_readRecords {count : ℕ} {r : Bytes}
    {result : List (ℕ × ℕ) × Bytes} (h : readRecords count r = .ok result) :
    readSequenceRecords count r = .ok result := by
  obtain ⟨ranges, rest⟩ := result
  obtain ⟨records, -, rfl, -, rfl⟩ := readRecords_iff.mp h
  have hlen : 4 * records.length ≤ (records.flatMap Record.bytes).length := by
    clear h
    induction records with
    | nil => simp
    | cons x records ih =>
      have := le_length_bytes x
      simp only [List.length_cons, List.flatMap_cons, List.length_append]
      omega
  unfold readSequenceRecords
  rw [if_neg (by rw [List.length_append]; omega)]
  exact h

theorem readControl_append {count : ℕ} (hcount : count < 2 ^ 16) (first : UInt8) {r : Bytes}
    {ranges : List (ℕ × ℕ)} {rest : Bytes} (h : readRecords count r = .ok (ranges, rest)) :
    readControl (first :: (writeU16 count .big ++ r)) = .ok (⟨count, ranges⟩, rest) := by
  have hfirst : readU8 (first :: (writeU16 count .big ++ r)) =
      .ok (first.toNat, writeU16 count .big ++ r) := by
    have h := readU8_append (UInt8.toNat_lt first) (writeU16 count .big ++ r)
    have hbyte : writeU8 first.toNat = [first] := by simp [writeU8, writeUInt, beBytes, leBytes]
    rwa [hbyte] at h
  unfold readControl
  rw [hfirst]
  simp only [ok_bind]
  rw [readU16_append .big hcount]
  simp [readSequenceRecords_of_readRecords h]

theorem readControl_ok {buf rest : Bytes} {p : ControlPacket}
    (h : readControl buf = .ok (p, rest)) : ∃ (first : UInt8) (records : List Record),
      (∀ x ∈ records, x.Valid) ∧ records.length = p.recordCount ∧ p.recordCount < 2 ^ 16 ∧
        records.map Record.range = p.sequences ∧
        buf = first :: (writeU16 p.recordCount .big ++ records.flatMap Record.bytes) ++ rest := by
  obtain ⟨⟨first, r₁⟩, hfirst, h⟩ := bind_eq_ok.mp h
  obtain ⟨⟨count, r₂⟩, hcount, h⟩ := bind_eq_ok.mp h
  obtain ⟨⟨sequences, r₃⟩, hrecords, h⟩ := bind_eq_ok.mp h
  obtain ⟨rfl, rfl⟩ := Prod.mk.inj (Except.ok.inj h)
  obtain ⟨-, hrecords⟩ := guard_eq_ok.mp hrecords
  obtain ⟨records, hvalid, hlen, hranges, rfl⟩ := readRecords_iff.mp hrecords
  obtain ⟨rfl, -⟩ := readUInt_ok hfirst
  obtain ⟨rfl, hlt⟩ := readUInt_ok hcount
  refine ⟨UInt8.ofNat first, records, hvalid, hlen, by simpa using hlt, hranges, ?_⟩
  simp [writeUInt, beBytes, leBytes, writeU16]

theorem flatMap_bytes_ofRange (l : List (ℕ × ℕ)) :
    (l.map Record.ofRange).flatMap Record.bytes = writeSequenceRecords l := by
  rw [writeSequenceRecords, List.flatMap_map]
  exact List.flatMap_congr fun r _ => Record.bytes_ofRange r

theorem read_writeControlRangesInto (kind : ControlKind) {l : List (ℕ × ℕ)}
    (hlen : l.length ≤ 65535) (hl : Ordered l) :
    ∃ buf, writeControlRangesInto kind.id l = .ok buf ∧ kind.read buf = .ok ⟨l.length, l⟩ := by
  have hrecords : readRecords l.length (writeSequenceRecords l) = .ok (l, []) := by
    refine readRecords_iff.mpr ⟨l.map Record.ofRange, fun x hx => ?_, by simp, ?_, ?_⟩
    · obtain ⟨r, hr, rfl⟩ := List.mem_map.mp hx
      exact Record.valid_ofRange (hl r hr)
    · rw [List.map_map]
      exact List.map_id l
    · rw [flatMap_bytes_ofRange, List.append_nil]
  refine ⟨_, if_neg (by omega), ?_⟩
  rw [kind.read_eq, readControl_append (by omega) _ hrecords]
  rfl

/-! ### The results -/

/-- **The codec of acknowledgements.** Both readers give back what was written. What they accept is
the declared number of ranges that are not empty and of 24 bits, and when the packet began with its
identifier and every range of one number came in the single form, writing the ranges gives back the
bytes that were read. The check of the count against the remaining bytes rejects nothing that the
loop would accept. -/
theorem control_codec :
    (∀ (kind : ControlKind) (l : List (ℕ × ℕ)), l.length ≤ 65535 →
      (∀ r ∈ l, r.1 ≤ r.2 ∧ r.2 ≤ 0xffffff) →
      ∃ buf, writeControlRangesInto kind.id l = .ok buf ∧ kind.read buf = .ok ⟨l.length, l⟩) ∧
    (∀ (kind : ControlKind) (buf : Bytes) (p : ControlPacket), kind.read buf = .ok p →
      (∀ r ∈ p.sequences, r.1 ≤ r.2 ∧ r.2 ≤ 0xffffff) ∧ p.sequences.length = p.recordCount ∧
      ∃ (first : UInt8) (records : List Record) (rest : Bytes),
        buf = first :: (writeU16 p.recordCount .big ++ records.flatMap Record.bytes) ++ rest ∧
        records.map Record.range = p.sequences ∧
        (first = kind.id.toU8 → (∀ x ∈ records, x.start = x.stop → x.single = true) →
          writeControlRangesInto kind.id p.sequences =
            .ok (first :: (writeU16 p.recordCount .big ++ records.flatMap Record.bytes)))) ∧
    (∀ (count : ℕ) (r : Bytes) (result : List (ℕ × ℕ) × Bytes),
      readRecords count r = .ok result → readSequenceRecords count r = .ok result) := by
  refine ⟨?_, ?_, ?_⟩
  · intro kind l hlen hl
    exact read_writeControlRangesInto kind hlen hl
  · intro kind buf p hread
    rw [kind.read_eq] at hread
    obtain ⟨⟨p, rest⟩, hcontrol, rfl⟩ := map_eq_ok.mp hread
    obtain ⟨first, records, hvalid, hlen, hlt, hranges, hbuf⟩ := readControl_ok hcontrol
    dsimp only at hlen hlt hranges hbuf ⊢
    refine ⟨fun r hr => ?_, by rw [← hranges, List.length_map, hlen], first, records, rest, hbuf,
      hranges, fun hfirst hcanonical => ?_⟩
    · rw [← hranges] at hr
      obtain ⟨x, hx, rfl⟩ := List.mem_map.mp hr
      have hx' := hvalid x hx
      exact ⟨hx'.le, Nat.le_of_lt_succ hx'.lt⟩
    · have hof : p.sequences.map Record.ofRange = records := by
        rw [← hranges, List.map_map]
        exact (List.map_congr_left fun x hx =>
          Record.ofRange_range (hvalid x hx) (hcanonical x hx)).trans (List.map_id _)
      have hcount : p.sequences.length = p.recordCount := by rw [← hranges, List.length_map, hlen]
      rw [hfirst, ← hof, flatMap_bytes_ofRange, ← hcount]
      exact if_neg (by omega)
  · exact fun count r result h => readSequenceRecords_of_readRecords h

/-- The readers skip the identifier: a packet with another one is read, and written otherwise. -/
theorem control_id_skipped :
    readPacketAck [0, 0, 0] = .ok ⟨0, []⟩ ∧ writeControlRangesInto .ack [] = .ok [0xc0, 0, 0] := by
  decide

/-- **Acknowledgements are exact.** In every run of insertions of 24-bit numbers and of takes, the
ranges that a take hands out are the numbers inserted since the previous take; they are not empty
and of 24 bits, and the peer reads the same numbers from the packet that carries them. -/
theorem ack_ranges_exact (ops : List AckOp) (h : ValidOps ops) :
    let taken := (runAcks ops).set.takeAckInto.1
    (∀ x, Covers taken x ↔ Inserted ops x) ∧ (∀ r ∈ taken, r.1 ≤ r.2 ∧ r.2 ≤ 0xffffff) ∧
      (taken.length ≤ 65535 → ∃ buf p, writeControlRangesInto .ack taken = .ok buf ∧
        readPacketAck buf = .ok p ∧ ∀ x, Covers p.sequences x ↔ Inserted ops x) := by
  obtain ⟨hordered, hcovers⟩ := covers_ack_run h
  refine ⟨hcovers, hordered, fun hlen => ?_⟩
  obtain ⟨buf, hwrite, hread⟩ := read_writeControlRangesInto .ack hlen hordered
  exact ⟨buf, _, hwrite, hread, hcovers⟩

theorem ack_ranges_exact_holed :
    let taken := (runAcks holedOps).set.takeAckInto.1
    taken = [(0, 1), (4, 4), (2, 2), (6000000, 6000000), (12000000, 12000000),
        (16777214, 16777214)] ∧
      (∀ x, Covers taken x ↔ Inserted holedOps x) ∧
      (∀ r ∈ taken, r.1 ≤ r.2 ∧ r.2 ≤ 0xffffff) ∧
      (taken.length ≤ 65535 → ∃ buf p, writeControlRangesInto .ack taken = .ok buf ∧
        readPacketAck buf = .ok p ∧ ∀ x, Covers p.sequences x ↔ Inserted holedOps x) :=
  ⟨by decide, ack_ranges_exact holedOps (by decide)⟩

end RustRaknet.Packet
