import RustRaknet.Messages

/-! # Messages with a list of addresses

`packet.rs`: `ConnectionRequestAccepted` and `NewIncomingConnection` carry the internal addresses of
the peer. The list has no count. The reader takes addresses while more than 16 bytes are left, which
is what the two timestamps need, and at most twenty. An address takes 7 bytes, 29, or 28 in the form
of the old releases. What the readers accept is exactly what this layout can write
(`address_lists_read`). -/

namespace RustRaknet

open RustRaknet.Datatype RustRaknet.Lib.Endian RustRaknet.Lib.Result

/-! ### An address on the wire -/

/-- The forms in which an address arrives. The address family of an IPv6 address is the sender's own
number, and its flow information and scope are not looked at. -/
inductive WireAddress
  | v4 (ip : BitVec 32) (port : BitVec 16)
  | v6 (family port : BitVec 16) (flowinfo : BitVec 32) (ip : BitVec 128) (scopeId : BitVec 32)
  | legacy (family : BitVec 8) (port : BitVec 16) (flowinfo : BitVec 32) (ip : BitVec 128)
    (scopeId : BitVec 32)
  deriving DecidableEq

namespace WireAddress

/-- What follows the address family. -/
def tailV6 (port : BitVec 16) (flowinfo : BitVec 32) (ip : BitVec 128) (scopeId : BitVec 32) : Bytes :=
  writeU16 port.toNat .big ++ (beBytes 4 flowinfo.toNat ++ (beBytes 16 ip.toNat ++
    beBytes 4 scopeId.toNat))

/-- The bytes of the address. -/
def bytes : WireAddress → Bytes
  | v4 ip port => writeU8 4 ++ ((beBytes 4 ip.toNat).map (255 - ·) ++ writeU16 port.toNat .big)
  | v6 family port flowinfo ip scopeId =>
    writeU8 6 ++ (leBytes 2 family.toNat ++ tailV6 port flowinfo ip scopeId)
  | legacy family port flowinfo ip scopeId =>
    writeU8 23 ++ (leBytes 1 family.toNat ++ tailV6 port flowinfo ip scopeId)

/-- The address that it stands for. -/
def address : WireAddress → SocketAddr
  | v4 ip port => .v4 ip port
  | v6 _ port _ ip _ => .v6 ip port 0 0
  | legacy _ port _ ip _ => .v6 ip port 0 0

/-- The form in which `write_address` puts an address. -/
def of : SocketAddr → WireAddress
  | .v4 ip port => v4 ip port
  | .v6 ip port _ _ => v6 23 port 0 ip 0

theorem bytes_of (a : SocketAddr) : (of a).bytes = a.write := by
  cases a with
  | v4 ip port => simp [of, bytes, SocketAddr.write]
  | v6 ip port flowinfo scopeId =>
    simp [of, bytes, tailV6, SocketAddr.write, writeU32, writeUInt]

theorem address_of (a : SocketAddr) : (of a).address = a.bare := by
  cases a <;> rfl

theorem bytes_ne_nil (w : WireAddress) : w.bytes ≠ [] := by
  cases w <;> simp [bytes, writeU8, writeUInt, beBytes, leBytes]

end WireAddress

namespace SocketAddr

open WireAddress

theorem skip_of_length {n : ℕ} {b : Bytes} (hb : b.length = n) (rest : Bytes) :
    skip n (b ++ rest) = .ok rest := by
  subst hb
  exact skip_append b rest

theorem skip_ok {n : ℕ} {r rest : Bytes} (h : skip n r = .ok rest) :
    ∃ b, r = b ++ rest ∧ b.length = n := by
  obtain ⟨⟨b, rest'⟩, hslice, rfl⟩ := map_eq_ok.mp h
  exact ⟨b, readSlice_ok hslice⟩

theorem readV6_tail (port : BitVec 16) (flowinfo : BitVec 32) (ip : BitVec 128)
    (scopeId : BitVec 32) (rest : Bytes) :
    readV6 (tailV6 port flowinfo ip scopeId ++ rest) = .ok (v6 ip port 0 0, rest) := by
  have hip := ip.isLt
  have hslice : readSlice 16 (beBytes 16 ip.toNat ++ (beBytes 4 scopeId.toNat ++ rest)) =
      .ok (beBytes 16 ip.toNat, beBytes 4 scopeId.toNat ++ rest) := by
    have h := readSlice_append (beBytes 16 ip.toNat) (beBytes 4 scopeId.toNat ++ rest)
    rwa [length_beBytes] at h
  unfold readV6 tailV6
  simp only [List.append_assoc]
  rw [readU16_append .big port.isLt]
  simp only [ok_bind]
  rw [skip_of_length (length_beBytes 4 _)]
  simp only [ok_bind, hslice]
  rw [skip_of_length (length_beBytes 4 _)]
  simp only [ok_bind]
  rw [ofBe_beBytes (by omega)]
  simp

/-- **An address is read** from any of its forms. -/
theorem read_bytes (w : WireAddress) (rest : Bytes) :
    read (w.bytes ++ rest) = .ok (w.address, rest) := by
  cases w with
  | v4 ip port =>
    have h := read_write (.v4 ip port) rest
    rw [← bytes_of] at h
    exact h
  | v6 family port flowinfo ip scopeId =>
    unfold read bytes
    simp only [List.append_assoc]
    rw [readU8_append (by norm_num)]
    simp only [ok_bind]
    rw [if_neg (by norm_num), if_pos trivial, skip_of_length (length_leBytes 2 _)]
    exact readV6_tail port flowinfo ip scopeId rest
  | legacy family port flowinfo ip scopeId =>
    unfold read bytes
    simp only [List.append_assoc]
    rw [readU8_append (by norm_num)]
    simp only [ok_bind]
    rw [if_neg (by norm_num), if_neg (by norm_num), if_pos trivial,
      skip_of_length (length_leBytes 1 _)]
    exact readV6_tail port flowinfo ip scopeId rest

theorem exists_beBytes {n : ℕ} {b : Bytes} (hb : b.length = n) :
    ∃ v : BitVec (8 * n), b = beBytes n v.toNat ∧ v = BitVec.ofNat _ (ofBe b) := by
  subst hb
  have hlt : ofBe b < 2 ^ (8 * b.length) := by
    have h := ofBe_lt b
    rwa [show 256 = 2 ^ 8 from rfl, ← pow_mul] at h
  refine ⟨BitVec.ofNat _ (ofBe b), ?_, rfl⟩
  rw [BitVec.toNat_ofNat, Nat.mod_eq_of_lt hlt, beBytes_ofBe]

theorem exists_leBytes {n : ℕ} {b : Bytes} (hb : b.length = n) :
    ∃ v : BitVec (8 * n), b = leBytes n v.toNat := by
  subst hb
  have hlt : ofLe b < 2 ^ (8 * b.length) := by
    have h := ofLe_lt b
    rwa [show 256 = 2 ^ 8 from rfl, ← pow_mul] at h
  refine ⟨BitVec.ofNat _ (ofLe b), ?_⟩
  rw [BitVec.toNat_ofNat, Nat.mod_eq_of_lt hlt, leBytes_ofLe]

theorem readV6_ok {r rest : Bytes} {a : SocketAddr} (h : readV6 r = .ok (a, rest)) :
    ∃ port flowinfo ip scopeId, r = tailV6 port flowinfo ip scopeId ++ rest ∧ a = v6 ip port 0 0 := by
  obtain ⟨⟨port, r₁⟩, hport, h⟩ := bind_eq_ok.mp h
  obtain ⟨r₂, hskip, h⟩ := bind_eq_ok.mp h
  obtain ⟨⟨octets, r₃⟩, hslice, h⟩ := bind_eq_ok.mp h
  obtain ⟨r₄, hskip', h⟩ := bind_eq_ok.mp h
  simp only [Except.ok.injEq, Prod.mk.injEq] at h
  obtain ⟨rfl, rfl⟩ := h
  obtain ⟨rfl, hlt⟩ := readUInt_ok hport
  obtain ⟨flow, rfl, hflow⟩ := skip_ok hskip
  obtain ⟨rfl, hoctets⟩ := readSlice_ok hslice
  obtain ⟨scope, rfl, hscope⟩ := skip_ok hskip'
  obtain ⟨flowinfo, hflowinfo, -⟩ := exists_beBytes hflow
  obtain ⟨ip, hip, hofNat⟩ := exists_beBytes hoctets
  obtain ⟨scopeId, hscopeId, -⟩ := exists_beBytes hscope
  refine ⟨BitVec.ofNat 16 port, flowinfo, ip, scopeId, ?_, by rw [hofNat]⟩
  have hport : (BitVec.ofNat 16 port).toNat = port := Nat.mod_eq_of_lt (by simpa using hlt)
  unfold tailV6
  rw [hport, ← hflowinfo, ← hip, ← hscopeId]
  simp [writeU16]

/-- **What is read as an address** is one of its forms. -/
theorem read_ok {r rest : Bytes} {a : SocketAddr} (h : read r = .ok (a, rest)) :
    ∃ w : WireAddress, r = w.bytes ++ rest ∧ a = w.address := by
  obtain ⟨⟨version, r₁⟩, hversion, hform⟩ := bind_eq_ok.mp h
  obtain ⟨rfl, -⟩ := readUInt_ok hversion
  simp only at hform
  split_ifs at hform with h4 hshort h6 h23
  · subst h4
    obtain ⟨⟨octets, r₂⟩, hslice, hform⟩ := bind_eq_ok.mp hform
    obtain ⟨⟨port, r₃⟩, hport, hform⟩ := bind_eq_ok.mp hform
    simp only [Except.ok.injEq, Prod.mk.injEq] at hform
    obtain ⟨rfl, rfl⟩ := hform
    obtain ⟨rfl, hoctets⟩ := readSlice_ok hslice
    obtain ⟨rfl, hlt⟩ := readUInt_ok hport
    have hfour : (octets.map (255 - ·)).length = 4 := by rw [List.length_map, hoctets]
    obtain ⟨ip, hip, hofNat⟩ : ∃ v : BitVec 32, octets.map (255 - ·) = beBytes 4 v.toNat ∧
        v = BitVec.ofNat _ (ofBe (octets.map (255 - ·))) := exists_beBytes hfour
    have hback : (beBytes 4 ip.toNat).map (255 - ·) = octets := by
      rw [← hip, List.map_map]
      exact (List.map_congr_left fun b _ => complement_complement b).trans
        (List.map_id octets)
    have hport : (BitVec.ofNat 16 port).toNat = port := Nat.mod_eq_of_lt (by simpa using hlt)
    refine ⟨.v4 ip (BitVec.ofNat 16 port), ?_, by rw [hofNat]; rfl⟩
    simp only [bytes, hback, hport, List.append_assoc]
    rfl
  · subst h6
    obtain ⟨r₂, hfamily, hform⟩ := bind_eq_ok.mp hform
    obtain ⟨family, rfl, hlength⟩ := skip_ok hfamily
    obtain ⟨v, rfl⟩ := exists_leBytes hlength
    obtain ⟨port, flowinfo, ip, scopeId, rfl, rfl⟩ := readV6_ok hform
    exact ⟨.v6 v port flowinfo ip scopeId, by simp [bytes, writeU8], rfl⟩
  · subst h23
    obtain ⟨r₂, hfamily, hform⟩ := bind_eq_ok.mp hform
    obtain ⟨family, rfl, hlength⟩ := skip_ok hfamily
    obtain ⟨v, rfl⟩ := exists_leBytes hlength
    obtain ⟨port, flowinfo, ip, scopeId, rfl, rfl⟩ := readV6_ok hform
    exact ⟨.legacy v port flowinfo ip scopeId, by simp [bytes, writeU8], rfl⟩

end SocketAddr

namespace Packet

/-! ### The list -/

/-- `read_internal_addresses`, which has `count` turns left. Exactly the timestamps must remain. -/
def readInternalAddresses : ℕ → Bytes → Except RaknetError Bytes
  | count + 1, r =>
    if 16 < r.length then do
      let (_, r) ← SocketAddr.read r
      readInternalAddresses count r
    else if r.length ≠ 16 then .error .packetParseError else .ok r
  | 0, r => if r.length ≠ 16 then .error .packetParseError else .ok r

/-- The bytes of a list of addresses. -/
def listBytes (ws : List WireAddress) : Bytes := ws.flatMap WireAddress.bytes

@[simp] theorem listBytes_cons (w : WireAddress) (ws : List WireAddress) :
    listBytes (w :: ws) = w.bytes ++ listBytes ws := rfl

theorem length_listBytes_cons_pos (w : WireAddress) (ws : List WireAddress) :
    0 < (listBytes (w :: ws)).length := by
  have := List.length_pos_of_ne_nil w.bytes_ne_nil
  rw [listBytes_cons, List.length_append]
  omega

/-- **The list ends 16 bytes before the end**, and has no more addresses than turns. -/
theorem readInternalAddresses_ok : ∀ {count : ℕ} {r rest : Bytes},
    readInternalAddresses count r = .ok rest ↔
      ∃ ws : List WireAddress, ws.length ≤ count ∧ r = listBytes ws ++ rest ∧ rest.length = 16
  | 0, r, rest => by
    unfold readInternalAddresses
    rw [guard_eq_ok, not_not]
    constructor
    · rintro ⟨hlength, h⟩
      obtain rfl : r = rest := Except.ok.inj h
      exact ⟨[], le_refl 0, rfl, hlength⟩
    · rintro ⟨ws, hws, rfl, hlength⟩
      obtain rfl : ws = [] := List.length_eq_zero_iff.mp (by omega)
      exact ⟨hlength, rfl⟩
  | count + 1, r, rest => by
    unfold readInternalAddresses
    constructor
    · intro h
      split_ifs at h with hmore hexact
      · obtain ⟨⟨a, r₁⟩, hread, hrest⟩ := bind_eq_ok.mp h
        obtain ⟨w, rfl, -⟩ := SocketAddr.read_ok hread
        obtain ⟨ws, hws, rfl, hlength⟩ := readInternalAddresses_ok.mp hrest
        exact ⟨w :: ws, Nat.succ_le_succ hws, by simp, hlength⟩
      · obtain rfl : r = rest := Except.ok.inj h
        exact ⟨[], Nat.zero_le _, rfl, not_not.mp hexact⟩
    · rintro ⟨ws, hws, rfl, hlength⟩
      cases ws with
      | nil =>
        have hnone : ¬ 16 < (listBytes [] ++ rest).length := by simp [listBytes, hlength]
        rw [if_neg hnone, if_neg (by simp [listBytes, hlength])]
        rfl
      | cons w ws =>
        have hpos := length_listBytes_cons_pos w ws
        rw [if_pos (by rw [List.length_append]; omega), listBytes_cons, List.append_assoc,
          SocketAddr.read_bytes]
        exact readInternalAddresses_ok.mpr ⟨ws, Nat.le_of_succ_le_succ hws, rfl, hlength⟩

theorem readInternalAddresses_long : ∀ {count : ℕ} {ws : List WireAddress} {rest : Bytes},
    count < ws.length → rest.length = 16 →
      readInternalAddresses count (listBytes ws ++ rest) = .error .packetParseError
  | _, [], _, hlong, _ => absurd hlong (Nat.not_lt_zero _)
  | 0, w :: ws, rest, _, hlength => by
    have hpos := length_listBytes_cons_pos w ws
    unfold readInternalAddresses
    rw [if_pos (by rw [List.length_append]; omega)]
  | count + 1, w :: ws, rest, hlong, hlength => by
    have hpos := length_listBytes_cons_pos w ws
    unfold readInternalAddresses
    rw [if_pos (by rw [List.length_append]; omega), listBytes_cons, List.append_assoc,
      SocketAddr.read_bytes]
    exact readInternalAddresses_long (Nat.lt_of_succ_lt_succ hlong) hlength

/-! ### The two timestamps -/

/-- The timestamps that end both messages. -/
def stampBytes (requestTimestamp acceptedTimestamp : Int64) : Bytes :=
  writeI64 requestTimestamp.toInt .big ++ writeI64 acceptedTimestamp.toInt .big

/-- The reads of both timestamps. -/
def readStamps (r : Bytes) : Except RaknetError (Int64 × Int64) := do
  let (requestTimestamp, r) ← readI64 .big r
  let (acceptedTimestamp, _) ← readI64 .big r
  .ok (Int64.ofInt requestTimestamp, Int64.ofInt acceptedTimestamp)

@[simp] theorem length_stampBytes (t t' : Int64) : (stampBytes t t').length = 16 := by
  simp [stampBytes, writeI64]

theorem readI64_ok {r rest : Bytes} {v : ℤ} (h : readI64 .big r = .ok (v, rest)) :
    r = writeI64 (Int64.ofInt v).toInt .big ++ rest := by
  obtain ⟨⟨n, rest'⟩, hread, he⟩ := map_eq_ok.mp h
  simp only [Prod.mk.injEq] at he
  obtain ⟨hv, rfl⟩ := he
  obtain ⟨rfl, hlt⟩ := readUInt_ok hread
  have hrange : -2 ^ 63 ≤ v ∧ v < 2 ^ 63 := by
    rw [← hv]
    split_ifs <;> omega
  have hback : (v % 2 ^ 64).toNat = n := by
    rw [← hv]
    split_ifs <;> omega
  rw [Int64.toInt_ofInt_of_le hrange.1 hrange.2]
  unfold writeI64
  rw [hback]

/-- Sixteen bytes are read as the timestamps they are the bytes of. -/
theorem readStamps_ok {r : Bytes} {t t' : Int64} (hlength : r.length = 16) :
    readStamps r = .ok (t, t') ↔ r = stampBytes t t' := by
  constructor
  · intro h
    obtain ⟨⟨v, r₁⟩, hfirst, h⟩ := bind_eq_ok.mp h
    obtain ⟨⟨v', r₂⟩, hsecond, h⟩ := bind_eq_ok.mp h
    simp only [Except.ok.injEq, Prod.mk.injEq] at h
    obtain ⟨rfl, rfl⟩ := h
    have hr := readI64_ok hfirst
    have hr₁ := readI64_ok hsecond
    rw [hr₁] at hr
    have hnone : r₂ = [] := by
      rw [hr] at hlength
      simp only [writeI64, List.length_append, length_writeUInt] at hlength
      exact List.length_eq_zero_iff.mp (by omega)
    rw [hr, hnone, List.append_nil]
    rfl
  · rintro rfl
    have hlast := readI64_time t' []
    rw [List.append_nil] at hlast
    unfold readStamps stampBytes
    rw [readI64_time]
    simp only [ok_bind, hlast]
    simp

/-! ### The messages -/

/-- `ConnectionRequestAccepted`. -/
structure ConnectionRequestAccepted where
  clientAddress : SocketAddr
  systemIndex : U16
  requestTimestamp : Int64
  acceptedTimestamp : Int64
  deriving DecidableEq

/-- `NewIncomingConnection`. -/
structure NewIncomingConnection where
  serverAddress : SocketAddr
  requestTimestamp : Int64
  acceptedTimestamp : Int64
  deriving DecidableEq

/-- `write_packet_connection_request_accepted`. The list is ten times a placeholder. -/
def ConnectionRequestAccepted.write (p : ConnectionRequestAccepted) : Bytes :=
  PacketID.connectionRequestAccepted.toU8 :: (p.clientAddress.write ++
    (writeU16 p.systemIndex .big ++
      ((List.replicate 10 (SocketAddr.v4 0xffffffff 19132).write).flatten ++
        (writeI64 p.requestTimestamp.toInt .big ++ writeI64 p.acceptedTimestamp.toInt .big))))

/-- `write_packet_new_incomming_connection`. -/
def NewIncomingConnection.write (p : NewIncomingConnection) : Bytes :=
  PacketID.newIncomingConnection.toU8 :: (p.serverAddress.write ++
    ((List.replicate 10 (SocketAddr.v4 0 0).write).flatten ++
      (writeI64 p.requestTimestamp.toInt .big ++ writeI64 p.acceptedTimestamp.toInt .big)))

/-- `read_packet_connection_request_accepted`. -/
def ConnectionRequestAccepted.read (buf : Bytes) :
    Except RaknetError ConnectionRequestAccepted := do
  let (_, r) ← readU8 buf
  let (clientAddress, r) ← SocketAddr.read r
  let (systemIndex, r) ← readU16 .big r
  let r ← readInternalAddresses 20 r
  let (requestTimestamp, acceptedTimestamp) ← readStamps r
  .ok ⟨clientAddress, U16.of systemIndex, requestTimestamp, acceptedTimestamp⟩

/-- `read_packet_new_incomming_connection`. -/
def NewIncomingConnection.read (buf : Bytes) : Except RaknetError NewIncomingConnection := do
  let (_, r) ← readU8 buf
  let (serverAddress, r) ← SocketAddr.read r
  let r ← readInternalAddresses 20 r
  let (requestTimestamp, acceptedTimestamp) ← readStamps r
  .ok ⟨serverAddress, requestTimestamp, acceptedTimestamp⟩

/-- The layout of `ConnectionRequestAccepted` with any list. -/
def ConnectionRequestAccepted.layout (id : UInt8) (peer : WireAddress) (systemIndex : U16)
    (ws : List WireAddress) (requestTimestamp acceptedTimestamp : Int64) : Bytes :=
  id :: (peer.bytes ++ (writeU16 systemIndex .big ++ (listBytes ws ++
    stampBytes requestTimestamp acceptedTimestamp)))

/-- The layout of `NewIncomingConnection` with any list. -/
def NewIncomingConnection.layout (id : UInt8) (peer : WireAddress) (ws : List WireAddress)
    (requestTimestamp acceptedTimestamp : Int64) : Bytes :=
  id :: (peer.bytes ++ (listBytes ws ++ stampBytes requestTimestamp acceptedTimestamp))

theorem readU8_ok {r rest : Bytes} {v : ℕ} (h : readU8 r = .ok (v, rest)) :
    ∃ b : UInt8, r = b :: rest := by
  obtain ⟨rfl, -⟩ := readUInt_ok h
  exact ⟨_, rfl⟩

/-- **The accepted inputs**: a peer, an index, at most twenty addresses and two timestamps. -/
theorem ConnectionRequestAccepted.read_ok {buf : Bytes} {p : ConnectionRequestAccepted} :
    ConnectionRequestAccepted.read buf = .ok p ↔
      ∃ id peer ws, ws.length ≤ 20 ∧ WireAddress.address peer = p.clientAddress ∧
        buf = layout id peer p.systemIndex ws p.requestTimestamp p.acceptedTimestamp := by
  constructor
  · intro h
    obtain ⟨⟨_, r₁⟩, hid, h⟩ := bind_eq_ok.mp h
    obtain ⟨⟨a, r₂⟩, hpeer, h⟩ := bind_eq_ok.mp h
    obtain ⟨⟨index, r₃⟩, hindex, h⟩ := bind_eq_ok.mp h
    obtain ⟨r₄, hlist, h⟩ := bind_eq_ok.mp h
    obtain ⟨⟨t, t'⟩, hstamps, h⟩ := bind_eq_ok.mp h
    obtain rfl : _ = p := Except.ok.inj h
    obtain ⟨id, rfl⟩ := readU8_ok hid
    obtain ⟨peer, rfl, rfl⟩ := SocketAddr.read_ok hpeer
    obtain ⟨rfl, hlt⟩ := readUInt_ok hindex
    obtain ⟨ws, hws, rfl, hlength⟩ := readInternalAddresses_ok.mp hlist
    obtain rfl := (readStamps_ok hlength).mp hstamps
    have hvalue : (U16.of index : ℕ) = index :=
      Nat.mod_eq_of_lt (by simpa using hlt)
    refine ⟨id, peer, ws, hws, rfl, ?_⟩
    simp only [layout, hvalue, writeU16]
  · rintro ⟨id, peer, ws, hws, hpeer, rfl⟩
    have hlist := readInternalAddresses_ok.mpr
      ⟨ws, hws, rfl, length_stampBytes p.requestTimestamp p.acceptedTimestamp⟩
    unfold ConnectionRequestAccepted.read layout
    rw [readU8_cons]
    simp only [ok_bind]
    rw [SocketAddr.read_bytes]
    simp only [ok_bind]
    rw [readU16_append .big p.systemIndex.isLt]
    simp only [ok_bind, hlist, (readStamps_ok (length_stampBytes _ _)).mpr rfl]
    simp [hpeer]

/-- **The accepted inputs**: a peer, at most twenty addresses and two timestamps. -/
theorem NewIncomingConnection.read_ok {buf : Bytes} {p : NewIncomingConnection} :
    NewIncomingConnection.read buf = .ok p ↔
      ∃ id peer ws, ws.length ≤ 20 ∧ WireAddress.address peer = p.serverAddress ∧
        buf = layout id peer ws p.requestTimestamp p.acceptedTimestamp := by
  constructor
  · intro h
    obtain ⟨⟨_, r₁⟩, hid, h⟩ := bind_eq_ok.mp h
    obtain ⟨⟨a, r₂⟩, hpeer, h⟩ := bind_eq_ok.mp h
    obtain ⟨r₃, hlist, h⟩ := bind_eq_ok.mp h
    obtain ⟨⟨t, t'⟩, hstamps, h⟩ := bind_eq_ok.mp h
    obtain rfl : _ = p := Except.ok.inj h
    obtain ⟨id, rfl⟩ := readU8_ok hid
    obtain ⟨peer, rfl, rfl⟩ := SocketAddr.read_ok hpeer
    obtain ⟨ws, hws, rfl, hlength⟩ := readInternalAddresses_ok.mp hlist
    obtain rfl := (readStamps_ok hlength).mp hstamps
    exact ⟨id, peer, ws, hws, rfl, rfl⟩
  · rintro ⟨id, peer, ws, hws, hpeer, rfl⟩
    have hlist := readInternalAddresses_ok.mpr
      ⟨ws, hws, rfl, length_stampBytes p.requestTimestamp p.acceptedTimestamp⟩
    unfold NewIncomingConnection.read layout
    rw [readU8_cons]
    simp only [ok_bind]
    rw [SocketAddr.read_bytes]
    simp only [ok_bind, hlist, (readStamps_ok (length_stampBytes _ _)).mpr rfl]
    simp [hpeer]

theorem listBytes_replicate (n : ℕ) (a : SocketAddr) :
    listBytes (List.replicate n (WireAddress.of a)) = (List.replicate n a.write).flatten := by
  unfold listBytes
  rw [List.flatMap_def, List.map_replicate, WireAddress.bytes_of]

theorem ConnectionRequestAccepted.write_eq (p : ConnectionRequestAccepted) :
    p.write = layout PacketID.connectionRequestAccepted.toU8 (WireAddress.of p.clientAddress)
      p.systemIndex (List.replicate 10 (WireAddress.of (SocketAddr.v4 0xffffffff 19132)))
      p.requestTimestamp p.acceptedTimestamp := by
  unfold ConnectionRequestAccepted.write layout
  rw [listBytes_replicate, WireAddress.bytes_of]
  rfl

theorem NewIncomingConnection.write_eq (p : NewIncomingConnection) :
    p.write = layout PacketID.newIncomingConnection.toU8 (WireAddress.of p.serverAddress)
      (List.replicate 10 (WireAddress.of (SocketAddr.v4 0 0))) p.requestTimestamp
      p.acceptedTimestamp := by
  unfold NewIncomingConnection.write layout
  rw [listBytes_replicate, WireAddress.bytes_of]
  rfl

/-- **Lists of addresses**: both readers recover the fields in front of and behind every list of at
most twenty addresses and accept nothing else, a longer list among it. What the writers produce is
read back. -/
theorem address_lists_read :
    (∀ (buf : Bytes) (p : ConnectionRequestAccepted), ConnectionRequestAccepted.read buf = .ok p ↔
      ∃ id peer ws, ws.length ≤ 20 ∧ WireAddress.address peer = p.clientAddress ∧
        buf = ConnectionRequestAccepted.layout id peer p.systemIndex ws p.requestTimestamp
          p.acceptedTimestamp) ∧
    (∀ (buf : Bytes) (p : NewIncomingConnection), NewIncomingConnection.read buf = .ok p ↔
      ∃ id peer ws, ws.length ≤ 20 ∧ WireAddress.address peer = p.serverAddress ∧
        buf = NewIncomingConnection.layout id peer ws p.requestTimestamp p.acceptedTimestamp) ∧
    (∀ id peer index ws t t', 20 < ws.length →
      ConnectionRequestAccepted.read (ConnectionRequestAccepted.layout id peer index ws t t') =
        .error .packetParseError ∧
      NewIncomingConnection.read (NewIncomingConnection.layout id peer ws t t') =
        .error .packetParseError) ∧
    (∀ p : ConnectionRequestAccepted, p.clientAddress.bare = p.clientAddress →
      ConnectionRequestAccepted.read p.write = .ok p) ∧
    (∀ p : NewIncomingConnection, p.serverAddress.bare = p.serverAddress →
      NewIncomingConnection.read p.write = .ok p) := by
  refine ⟨fun _ _ => ConnectionRequestAccepted.read_ok, fun _ _ => NewIncomingConnection.read_ok,
    fun id peer index ws t t' hlong => ⟨?_, ?_⟩, fun p hbare => ?_, fun p hbare => ?_⟩
  · unfold ConnectionRequestAccepted.read ConnectionRequestAccepted.layout
    rw [readU8_cons]
    simp only [ok_bind]
    rw [SocketAddr.read_bytes]
    simp only [ok_bind]
    rw [readU16_append .big index.isLt]
    simp only [ok_bind, readInternalAddresses_long hlong (length_stampBytes t t'), error_bind]
  · unfold NewIncomingConnection.read NewIncomingConnection.layout
    rw [readU8_cons]
    simp only [ok_bind]
    rw [SocketAddr.read_bytes]
    simp only [ok_bind, readInternalAddresses_long hlong (length_stampBytes t t'), error_bind]
  · refine ConnectionRequestAccepted.read_ok.mpr ⟨_, _, _, ?_, ?_, p.write_eq⟩
    · simp
    · rw [WireAddress.address_of, hbare]
  · refine NewIncomingConnection.read_ok.mpr ⟨_, _, _, ?_, ?_, p.write_eq⟩
    · simp
    · rw [WireAddress.address_of, hbare]

end Packet

end RustRaknet
