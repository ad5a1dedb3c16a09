import RustRaknet.Encode

/-! # The two datagram decoders

`arq.rs`: `FrameVec::decode_into`, which copies every payload out of a borrowed datagram, and
`decode_owned_into`, which keeps the buffer of a datagram with one frame and moves the payload to its
front. Both write to a vector in place; `decodeInPlace` is `decode` statement by statement. They
agree on every string and every vector (`decoders_agree`). -/

namespace RustRaknet.Codec

open RustRaknet.Frame RustRaknet.Datatype RustRaknet.Lib.Result

/-! ### In place -/

/-- The loop of `FrameVec::decode`, which pushes to the vector. -/
def decodeLoopInPlace (sequenceNumber : ℕ) (owned : Bool) :
    ℕ → Bytes → InPlace (List FrameSetPacket) RaknetError Unit
  | _, [] => pure ()
  | 0, _ :: _ => throw .packetParseError
  | n + 1, b :: r => do
    let x ← InPlace.check (readFrame sequenceNumber (b :: r))
    let frames ← get
    let frame := if !owned || !frames.isEmpty || !x.2.2.isEmpty then
      { x.1 with data := .owned x.2.1 } else x.1
    modify fun frames => frames ++ [frame]
    decodeLoopInPlace sequenceNumber owned n x.2.2

/-- `FrameVec::decode`. -/
def decodeInPlace (buf : Bytes) (owned : Bool) : InPlace (List FrameSetPacket) RaknetError Unit := do
  modify fun _ => []
  let x ← InPlace.check (readU8 buf)
  if ¬ (0x80 ≤ x.1 ∧ x.1 ≤ 0x8d) then throw .packetHeaderError
  else do
    let y ← InPlace.check (readU24 .little x.2)
    if y.2 = [] then throw .packetParseError
    else decodeLoopInPlace y.1 owned y.2.length y.2

/-- `FrameVec::decode_into`: the result, and what is then in the vector. -/
def decodeBorrowed (buf : Bytes) (frames : List FrameSetPacket) :
    Except Stop Unit × List FrameSetPacket :=
  match InPlace.exec (decodeInPlace buf false) frames with
  | (result, frames) => (orStop result, frames)

/-- `copy_within(offset.., 0)`: the end of the buffer overwrites its front. -/
def copyWithin (buf : Bytes) (offset : ℕ) : Bytes :=
  buf.drop offset ++ buf.drop (buf.length - offset)

/-- The payload of a frame that ends its buffer, moved to the front. The subtraction panics when the
buffer is shorter than the payload. -/
def compact (buf : Bytes) (length : ℕ) : Except Stop Bytes :=
  if buf.length < length then .error .panic
  else .ok ((copyWithin buf (buf.length - length)).take length)

/-- `FrameVec::decode_owned_into`. -/
def decodeOwned (buf : Bytes) (frames : List FrameSetPacket) :
    Except Stop Unit × List FrameSetPacket :=
  match InPlace.exec (decodeInPlace buf true) frames with
  | (.error e, frames) => (.error (.err e), frames)
  | (.ok (), [frame]) =>
    match compact buf frame.lengthInBytes with
    | .error stop => (.error stop, [frame])
    | .ok data => (.ok (), [{ frame with data := .owned data }])
  | (.ok (), frames) => (.ok (), frames)

section inPlace

variable {s : ℕ} {owned : Bool}

theorem decodeLoopInPlace_exec : ∀ (n : ℕ) (b : Bytes) (acc : List FrameSetPacket),
    ∃ pushed, InPlace.exec (decodeLoopInPlace s owned n b) acc =
      match decodeLoop s owned n b acc with
      | .ok frames => (.ok (), frames)
      | .error e => (.error e, pushed)
  | n, [], acc => ⟨[], by cases n <;> rfl⟩
  | 0, _ :: _, acc => ⟨acc, rfl⟩
  | n + 1, b :: r, acc => by
    unfold decodeLoopInPlace decodeLoop
    cases hread : readFrame s (b :: r) with
    | error e => exact ⟨acc, rfl⟩
    | ok x =>
      obtain ⟨pushed, hrest⟩ := decodeLoopInPlace_exec n x.2.2 (acc ++
        [if !owned || !acc.isEmpty || !x.2.2.isEmpty then { x.1 with data := .owned x.2.1 } else x.1])
      exact ⟨pushed, hrest⟩

/-- The vector is cleared first, so what it held does not matter. -/
theorem decodeInPlace_exec (buf : Bytes) (owned : Bool) (frames : List FrameSetPacket) :
    ∃ pushed, InPlace.exec (decodeInPlace buf owned) frames =
      match decode buf owned with
      | .ok frames => (.ok (), frames)
      | .error e => (.error e, pushed) := by
  unfold decodeInPlace decode
  rw [InPlace.exec_modify_bind]
  cases hid : readU8 buf with
  | error e => exact ⟨[], rfl⟩
  | ok x =>
    rw [InPlace.exec_check_ok]
    simp only [ok_bind]
    by_cases hrange : ¬ (0x80 ≤ x.1 ∧ x.1 ≤ 0x8d)
    · rw [if_pos hrange, if_pos hrange]
      exact ⟨[], rfl⟩
    rw [if_neg hrange, if_neg hrange]
    cases hsequence : readU24 .little x.2 with
    | error e => exact ⟨[], rfl⟩
    | ok y =>
      rw [InPlace.exec_check_ok]
      simp only [ok_bind]
      by_cases hempty : y.2 = []
      · rw [if_pos hempty, if_pos hempty]
        exact ⟨[], rfl⟩
      rw [if_neg hempty, if_neg hempty]
      exact decodeLoopInPlace_exec y.2.length y.2 []

end inPlace

/-! ### The payload of a single frame -/

section single

variable {s : ℕ}

theorem decodeLoop_owned : ∀ (n : ℕ) (b : Bytes) (acc : List FrameSetPacket), acc ≠ [] →
    decodeLoop s true n b acc = decodeLoop s false n b acc
  | n, [], acc, _ => by cases n <;> rfl
  | 0, _ :: _, _, _ => rfl
  | n + 1, b :: r, acc, hacc => by
    have hempty : acc.isEmpty = false := by simpa using hacc
    unfold decodeLoop
    cases hread : readFrame s (b :: r) with
    | error e => rfl
    | ok x =>
      simp only [ok_bind, hempty, Bool.not_true, Bool.not_false, Bool.false_or, Bool.true_or,
        if_true]
      exact decodeLoop_owned n x.2.2 _ (by simp)

/-- The first frame: it ends the datagram, and its payload is left for the caller, or the decoders
do the same and find more than one frame. -/
theorem decodeLoop_first {n : ℕ} {b : Bytes} (hb : b ≠ []) :
    (∃ g data before, b = before ++ data ∧ data.length = g.lengthInBytes ∧
      decodeLoop s true n b [] = .ok [g] ∧
      decodeLoop s false n b [] = .ok [{ g with data := .owned data }]) ∨
    (decodeLoop s true n b [] = decodeLoop s false n b [] ∧
      ∀ frames, decodeLoop s false n b [] = .ok frames → frames.length ≠ 1) := by
  obtain ⟨a, r, rfl⟩ := List.exists_cons_of_ne_nil hb
  cases n with
  | zero => exact .inr ⟨rfl, fun frames h => by cases h⟩
  | succ n =>
    unfold decodeLoop
    cases hread : readFrame s (a :: r) with
    | error e => exact .inr ⟨rfl, fun frames h => by cases h⟩
    | ok x =>
      obtain ⟨g, data, rest⟩ := x
      obtain ⟨f, m, hf, -, -, hvalid, -, -, -, hbytes⟩ := readFrame_ok hread
      simp only [ok_bind, List.isEmpty_nil, Bool.not_true, Bool.not_false, Bool.false_or,
        Bool.true_or, if_true, List.nil_append]
      by_cases hrest : rest = []
      · subst hrest
        refine .inl ⟨g, data, fieldBytes f m, by simpa using hbytes, ?_, ?_, ?_⟩
        · have hlength := (validate_ok.mp hvalid).1
          rw [hf] at hlength
          exact hlength
        · cases n <;> rfl
        · cases n <;> rfl
      · have hmore : rest.isEmpty = false := by simpa using hrest
        simp only [hmore, Bool.not_false, if_true]
        refine .inr ⟨decodeLoop_owned n rest _ (by simp), fun frames hframes hone => ?_⟩
        obtain ⟨gs, rfl, -, hgs⟩ := decodeLoop_ok _ _ _ _ hframes
        -- there are bytes left, so there is another frame
        have hnone : gs = [] := List.length_eq_zero_iff.mp (by simpa using hone)
        exact hrest (by simpa [hnone] using hgs)

theorem compact_append (before data : Bytes) :
    compact (before ++ data) data.length = .ok data := by
  have hlength : (before ++ data).length - data.length = before.length := by simp
  unfold compact copyWithin
  rw [if_neg (by simp), hlength, List.drop_left, List.take_left]

end single

/-- **The two decoders agree** on every string, whatever the vectors held before: they fail together,
or put the same frames into the vector. The owned one does not panic. -/
theorem decoders_agree (buf : Bytes) (previous previous' : List FrameSetPacket) :
    (∃ frames, decodeBorrowed buf previous = (.ok (), frames) ∧
      decodeOwned buf previous' = (.ok (), frames)) ∨
    (∃ e pushed pushed', decodeBorrowed buf previous = (.error (.err e), pushed) ∧
      decodeOwned buf previous' = (.error (.err e), pushed')) := by
  obtain ⟨pushed, hborrowed⟩ := decodeInPlace_exec buf false previous
  obtain ⟨pushed', howned⟩ := decodeInPlace_exec buf true previous'
  unfold decodeBorrowed decodeOwned
  rw [hborrowed, howned]
  -- the same datagram header, then the first frame
  have hcases : (∃ g data before, buf = before ++ data ∧ data.length = g.lengthInBytes ∧
        decode buf true = .ok [g] ∧ decode buf false = .ok [{ g with data := .owned data }]) ∨
      (decode buf true = decode buf false ∧
        ∀ frames, decode buf false = .ok frames → frames.length ≠ 1) := by
    unfold decode
    cases hid : readU8 buf with
    | error e => exact .inr ⟨rfl, fun frames h => by cases h⟩
    | ok x =>
      simp only [ok_bind]
      by_cases hrange : ¬ (0x80 ≤ x.1 ∧ x.1 ≤ 0x8d)
      · rw [if_pos hrange, if_pos hrange]
        exact .inr ⟨rfl, fun frames h => by cases h⟩
      rw [if_neg hrange, if_neg hrange]
      cases hsequence : readU24 .little x.2 with
      | error e => exact .inr ⟨rfl, fun frames h => by cases h⟩
      | ok y =>
        simp only [ok_bind]
        by_cases hempty : y.2 = []
        · rw [if_pos hempty, if_pos hempty]
          exact .inr ⟨rfl, fun frames h => by cases h⟩
        rw [if_neg hempty, if_neg hempty]
        obtain ⟨hx, -⟩ := readUInt_ok hid
        obtain ⟨hy, -⟩ := readUInt_ok hsequence
        rcases decodeLoop_first (s := y.1) (n := y.2.length) hempty with
          ⟨g, data, before, hbytes, hlength, htrue, hfalse⟩ | hsame
        · refine .inl ⟨g, data, writeUInt 1 .big x.1 ++ (writeUInt 3 .little y.1 ++ before), ?_,
            hlength, htrue, hfalse⟩
          rw [hx, hy, hbytes]
          simp
        · exact .inr hsame
  rcases hcases with ⟨g, data, before, hbytes, hlength, htrue, hfalse⟩ | ⟨hsame, hmany⟩
  · refine .inl ⟨[{ g with data := .owned data }], by rw [hfalse]; rfl, ?_⟩
    rw [htrue]
    simp only
    rw [← hlength, hbytes, compact_append]
  · rw [hsame]
    cases hdecode : decode buf false with
    | error e => exact .inr ⟨e, pushed, pushed', rfl, rfl⟩
    | ok frames =>
      refine .inl ⟨frames, rfl, ?_⟩
      match frames with
      | [] => rfl
      | [f] => exact absurd rfl (hmany [f] hdecode)
      | f :: f' :: rest => rfl

end RustRaknet.Codec
