import RustRaknet.Datatype

/-! # Socket addresses

The addresses of peers, and `read_address` and `write_address` of `datatype.rs`. The octets of an
IPv4 address are complemented on the wire. An IPv6 address is written without its flow information
and scope, and is read with or without the version byte in front of the address family. -/

namespace RustRaknet

open RustRaknet.Datatype RustRaknet.Lib.Endian RustRaknet.Lib.Result

/-- `SocketAddr`. -/
inductive SocketAddr
  | v4 (ip : BitVec 32) (port : BitVec 16)
  | v6 (ip : BitVec 128) (port : BitVec 16) (flowinfo scopeId : BitVec 32)
  deriving DecidableEq, Repr

namespace SocketAddr

/-- `SocketAddr::port`. -/
def port : SocketAddr → BitVec 16
  | v4 _ port => port
  | v6 _ port _ _ => port

/-- The address as the wire keeps it: no flow information and no scope. -/
def bare : SocketAddr → SocketAddr
  | v4 ip port => v4 ip port
  | v6 ip port _ _ => v6 ip port 0 0

/-- `RaknetWriter::write_address`. -/
def write : SocketAddr → Bytes
  | v4 ip port => writeU8 4 ++ (beBytes 4 ip.toNat).map (255 - ·) ++ writeU16 port.toNat .big
  | v6 ip port _ _ =>
    writeU8 6 ++ writeUInt 2 .little 23 ++ writeU16 port.toNat .big ++ writeU32 0 .big ++
      beBytes 16 ip.toNat ++ writeU32 0 .big

/-- The tail of an IPv6 address, after the address family. -/
def readV6 (r : Bytes) : Except RaknetError (SocketAddr × Bytes) := do
  let (port, r) ← readU16 .big r
  let r ← skip 4 r
  let (octets, r) ← readSlice 16 r
  let r ← skip 4 r
  .ok (v6 (BitVec.ofNat 128 (ofBe octets)) (BitVec.ofNat 16 port) 0 0, r)

/-- `RaknetReader::read_address`. -/
def read (r : Bytes) : Except RaknetError (SocketAddr × Bytes) := do
  let (version, r) ← readU8 r
  if version = 4 then
    if r.length < 6 then .error .readPacketBufferError else
    let (octets, r) ← readSlice 4 r
    let (port, r) ← readU16 .big r
    .ok (v4 (BitVec.ofNat 32 (ofBe (octets.map (255 - ·)))) (BitVec.ofNat 16 port), r)
  else if version = 6 then do
    let r ← skip 2 r
    readV6 r
  else if version = 23 then do
    let r ← skip 1 r
    readV6 r
  else .error .packetHeaderError

/-! ### Reading what was written -/

theorem complement_complement (b : UInt8) : 255 - (255 - b) = b := by
  apply UInt8.toNat_inj.mp
  have hb := UInt8.toNat_lt b
  have hle : b ≤ 255 := UInt8.le_iff_toNat_le.mpr (by simp; omega)
  have hle' : 255 - b ≤ 255 :=
    UInt8.le_iff_toNat_le.mpr (Nat.le_of_lt_succ (UInt8.toNat_lt (255 - b)))
  rw [UInt8.toNat_sub_of_le _ _ hle', UInt8.toNat_sub_of_le _ _ hle]
  simp
  omega

theorem readV6_append (ip : BitVec 128) (port : BitVec 16) (rest : Bytes) :
    readV6 (writeU16 port.toNat .big ++ (writeU32 0 .big ++ (beBytes 16 ip.toNat ++
      (writeU32 0 .big ++ rest)))) = .ok (v6 ip port 0 0, rest) := by
  have hslice : readSlice 16 (beBytes 16 ip.toNat ++ (writeU32 0 .big ++ rest)) =
      .ok (beBytes 16 ip.toNat, writeU32 0 .big ++ rest) := by
    have h := readSlice_append (beBytes 16 ip.toNat) (writeU32 0 .big ++ rest)
    rwa [length_beBytes] at h
  have hskip : ∀ rest : Bytes, skip 4 (writeU32 0 .big ++ rest) = .ok rest :=
    fun rest => skip_append (writeU32 0 .big) rest
  unfold readV6
  rw [readU16_append .big port.isLt]
  simp only [ok_bind, hskip, hslice]
  rw [ofBe_beBytes (by have := ip.isLt; omega)]
  simp

/-- **Reading an address that was written** gives it back without flow information and scope. -/
theorem read_write (a : SocketAddr) (rest : Bytes) :
    read (a.write ++ rest) = .ok (a.bare, rest) := by
  cases a with
  | v4 ip port =>
    have hslice : readSlice 4 ((beBytes 4 ip.toNat).map (255 - ·) ++
        (writeU16 port.toNat .big ++ rest)) =
        .ok ((beBytes 4 ip.toNat).map (255 - ·), writeU16 port.toNat .big ++ rest) := by
      have h := readSlice_append ((beBytes 4 ip.toNat).map (255 - ·))
        (writeU16 port.toNat .big ++ rest)
      rwa [List.length_map, length_beBytes] at h
    have hlen : ¬ ((beBytes 4 ip.toNat).map (255 - ·) ++
        (writeU16 port.toNat .big ++ rest)).length < 6 := by
      simp [writeU16]
      omega
    have hback : ((beBytes 4 ip.toNat).map (255 - ·)).map (255 - ·) = beBytes 4 ip.toNat := by
      rw [List.map_map]
      exact (List.map_congr_left fun b _ => complement_complement b).trans (List.map_id _)
    unfold read write bare
    simp only [List.append_assoc]
    rw [readU8_append (by norm_num)]
    simp only [ok_bind, if_true]
    rw [if_neg hlen, hslice]
    simp only [ok_bind]
    rw [readU16_append .big port.isLt]
    simp only [ok_bind]
    rw [hback, ofBe_beBytes (by have := ip.isLt; omega)]
    simp
  | v6 ip port flowinfo scopeId =>
    have hskip : ∀ rest : Bytes, skip 2 (writeUInt 2 .little 23 ++ rest) = .ok rest :=
      fun rest => skip_append (writeUInt 2 .little 23) rest
    unfold read write bare
    simp only [List.append_assoc]
    rw [readU8_append (by norm_num)]
    simp only [ok_bind, hskip]
    rw [if_neg (by norm_num), if_pos trivial]
    exact readV6_append ip port rest

end SocketAddr

end RustRaknet
