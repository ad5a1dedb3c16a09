import RustRaknet.Error
import RustRaknet.Lib.Endian
import RustRaknet.Lib.Result

/-! # Readers and writers

`datatype.rs`: the fixed-width reads of `RaknetReader` and writes of `RaknetWriter`. The reader's
cursor is the list of bytes still to read, so `pos == len` is `rest = []`. All reads of `n` bytes
are `readUInt n`; every one fails when fewer bytes remain. -/

namespace RustRaknet.Datatype

open RustRaknet.Lib.Endian RustRaknet.Lib.Result

/-- `Endian`. -/
inductive Endian
  | big
  | little
  deriving DecidableEq, Repr

/-- The `n` bytes of a number in the given order. -/
def writeUInt (n : ℕ) (e : Endian) (v : ℕ) : Bytes :=
  match e with
  | .big => beBytes n v
  | .little => leBytes n v

/-- `RaknetWriter::write_u8`. -/
def writeU8 (v : ℕ) : Bytes := writeUInt 1 .big v

/-- `RaknetWriter::write_u16`. -/
def writeU16 (v : ℕ) (e : Endian) : Bytes := writeUInt 2 e v

/-- `RaknetWriter::write_u24`: three bytes of the `u32`. -/
def writeU24 (v : ℕ) (e : Endian) : Bytes := writeUInt 3 e v

/-- `RaknetWriter::write_u32`. -/
def writeU32 (v : ℕ) (e : Endian) : Bytes := writeUInt 4 e v

/-- `RaknetWriter::write_u64`. -/
def writeU64 (v : ℕ) (e : Endian) : Bytes := writeUInt 8 e v

/-- `RaknetWriter::write_i64`: the bytes of the two's complement. -/
def writeI64 (v : ℤ) (e : Endian) : Bytes := writeUInt 8 e (v % 2 ^ 64).toNat

/-- The bytes that mark an offline message. -/
def magic : Bytes :=
  [0x00, 0xff, 0xff, 0x00, 0xfe, 0xfe, 0xfe, 0xfe, 0xfd, 0xfd, 0xfd, 0xfd, 0x12, 0x34, 0x56, 0x78]

/-- `RaknetReader::read_slice`: the next `length` bytes, and the rest. -/
def readSlice (length : ℕ) (r : Bytes) : Except RaknetError (Bytes × Bytes) :=
  if length ≤ r.length then .ok (r.take length, r.drop length) else .error .readPacketBufferError

/-- A read of `n` bytes as a number. -/
def readUInt (n : ℕ) (e : Endian) (r : Bytes) : Except RaknetError (ℕ × Bytes) :=
  (readSlice n r).map fun (b, rest) =>
    (match e with
      | .big => ofBe b
      | .little => ofLe b, rest)

/-- `RaknetReader::read_u8`. -/
def readU8 (r : Bytes) : Except RaknetError (ℕ × Bytes) := readUInt 1 .big r

/-- `RaknetReader::read_u16`. -/
def readU16 (e : Endian) (r : Bytes) : Except RaknetError (ℕ × Bytes) := readUInt 2 e r

/-- `RaknetReader::read_u24`. -/
def readU24 (e : Endian) (r : Bytes) : Except RaknetError (ℕ × Bytes) := readUInt 3 e r

/-- `RaknetReader::read_u32`. -/
def readU32 (e : Endian) (r : Bytes) : Except RaknetError (ℕ × Bytes) := readUInt 4 e r

/-- `RaknetReader::read_u64`. -/
def readU64 (e : Endian) (r : Bytes) : Except RaknetError (ℕ × Bytes) := readUInt 8 e r

/-- `RaknetReader::read_i64`. -/
def readI64 (e : Endian) (r : Bytes) : Except RaknetError (ℤ × Bytes) :=
  (readUInt 8 e r).map fun (v, rest) => (if v < 2 ^ 63 then (v : ℤ) else (v : ℤ) - 2 ^ 64, rest)

/-- `RaknetReader::skip`. -/
def skip (n : ℕ) (r : Bytes) : Except RaknetError Bytes := (readSlice n r).map Prod.snd

/-- `read_magic` of `packet.rs`, with the `read_magic` of the reader. -/
def readMagic (r : Bytes) : Except RaknetError Bytes := do
  let (bytes, rest) ← readSlice 16 r
  if bytes = magic then .ok rest else .error .packetHeaderError

/-! ### Reads and writes are inverse -/

@[simp] theorem length_writeUInt (n : ℕ) (e : Endian) (v : ℕ) : (writeUInt n e v).length = n := by
  cases e <;> simp [writeUInt]

theorem readSlice_append (b rest : Bytes) : readSlice b.length (b ++ rest) = .ok (b, rest) := by
  simp [readSlice]

theorem readSlice_ok {n : ℕ} {r b rest : Bytes} (h : readSlice n r = .ok (b, rest)) :
    r = b ++ rest ∧ b.length = n := by
  unfold readSlice at h
  split_ifs at h with hn
  simp only [Except.ok.injEq, Prod.mk.injEq] at h
  obtain ⟨rfl, rfl⟩ := h
  exact ⟨(List.take_append_drop _ _).symm, by simp [hn]⟩

/-- **Reading what was written.** -/
theorem readUInt_append {n v : ℕ} (e : Endian) (h : v < 256 ^ n) (rest : Bytes) :
    readUInt n e (writeUInt n e v ++ rest) = .ok (v, rest) := by
  have hs : readSlice n (writeUInt n e v ++ rest) = .ok (writeUInt n e v, rest) := by
    have := readSlice_append (writeUInt n e v) rest
    rwa [length_writeUInt] at this
  unfold readUInt
  rw [hs]
  cases e with
  | big => simp [writeUInt, ofBe_beBytes h]
  | little => simp [writeUInt, ofLe_leBytes h]

/-- **What was read** is the encoding of the value. -/
theorem readUInt_ok {n v : ℕ} {e : Endian} {r rest : Bytes}
    (h : readUInt n e r = .ok (v, rest)) : r = writeUInt n e v ++ rest ∧ v < 256 ^ n := by
  obtain ⟨⟨b, rest'⟩, hs, he⟩ := map_eq_ok.mp h
  obtain ⟨rfl, hl⟩ := readSlice_ok hs
  simp only [Prod.mk.injEq] at he
  obtain ⟨rfl, rfl⟩ := he
  subst hl
  cases e with
  | big => exact ⟨by simp [writeUInt, beBytes_ofBe], ofBe_lt b⟩
  | little => exact ⟨by simp [writeUInt, leBytes_ofLe], ofLe_lt b⟩

theorem readU8_append {v : ℕ} (h : v < 2 ^ 8) (rest : Bytes) :
    readU8 (writeU8 v ++ rest) = .ok (v, rest) :=
  readUInt_append .big (by simpa using h) rest

theorem readU16_append {v : ℕ} (e : Endian) (h : v < 2 ^ 16) (rest : Bytes) :
    readU16 e (writeU16 v e ++ rest) = .ok (v, rest) :=
  readUInt_append e (by simpa using h) rest

theorem readU64_append {v : ℕ} (e : Endian) (h : v < 2 ^ 64) (rest : Bytes) :
    readU64 e (writeU64 v e ++ rest) = .ok (v, rest) :=
  readUInt_append e (by simpa using h) rest

theorem readI64_append {v : ℤ} (e : Endian) (hlow : -2 ^ 63 ≤ v) (hhigh : v < 2 ^ 63)
    (rest : Bytes) : readI64 e (writeI64 v e ++ rest) = .ok (v, rest) := by
  have hlt : (v % 2 ^ 64).toNat < 256 ^ 8 := by omega
  unfold readI64 writeI64
  rw [readUInt_append e hlt]
  simp only [map_ok, Except.ok.injEq, Prod.mk.injEq, and_true]
  split_ifs with hsign <;> omega

theorem skip_append (b rest : Bytes) : skip b.length (b ++ rest) = .ok rest := by
  simp [skip, readSlice_append]

@[simp] theorem readMagic_append (rest : Bytes) : readMagic (magic ++ rest) = .ok rest := by
  have hslice : readSlice 16 (magic ++ rest) = .ok (magic, rest) := readSlice_append magic rest
  simp [readMagic, hslice]

theorem readU24_append {v : ℕ} (e : Endian) (h : v < 2 ^ 24) (rest : Bytes) :
    readU24 e (writeU24 v e ++ rest) = .ok (v, rest) :=
  readUInt_append e (by simpa using h) rest

end RustRaknet.Datatype
