import RustRaknet.Send.Reserve

/-! # Batches

`socket.rs`: the validation of `send_batch_payload`; `arq.rs`: `batch_can_coalesce`, which does it in
one pass when options are set, and `insert_payload` once more, now changing the queue in place.

All members of a batch are checked before the first is queued. The check keeps its word
(`batch_never_fails_halfway`): after it no member is refused, whether the batch is inserted at once
or streamed. The one pass gives the answer of the several passes (`batchCanCoalesce_eq`). -/

namespace RustRaknet.Send

open RustRaknet.Frame RustRaknet.Lib.Result
open RustRaknet.Reassembly (maxFragments)

/-! ### Insertion in place -/

namespace SendQ

variable (B : Build) (q : SendQ) (m : Message)

/-- The `match` of `insert_payload` on the mode, in the order of its changes. -/
def pushInPlace (maxPayload : ℕ) : InPlace SendQ RaknetError Unit :=
  match m.reliability with
  | .unreliable =>
    if maxPayload < m.payload.length then throw .packetSizeExceedMTU
    else modify fun q => q.pushUnreliable B (.fromPayload .unreliable (unreliablePayload m))
  | .unreliableSequenced =>
    if maxPayload < m.payload.length then throw .packetSizeExceedMTU
    else do
      let before ← get
      modify fun q => q.advanceSequenced m.channel
      modify fun q => q.pushUnreliable B
        { FrameSetPacket.fromPayload .unreliableSequenced (unreliablePayload m) with
          orderChannel := m.channel
          orderedFrameIndex := q.orderedFrameIndexes.get m.channel
          sequencedFrameIndex := before.sequencedFrameIndexes.get m.channel }
  | .reliable =>
    if maxPayload < m.payload.length then throw .packetSizeExceedMTU
    else modify fun q => q.pushReliable (.fromPayload .reliable (reliablePayload m))
  | .reliableOrdered =>
    if m.payload.length ≤ maxPayload then do
      modify fun q => q.pushReliable
        { FrameSetPacket.fromPayload .reliableOrdered (reliablePayload m) with
          orderChannel := m.channel
          orderedFrameIndex := q.orderedFrameIndexes.get m.channel }
      modify fun q => q.advanceOrdered m.channel
    else
      let compoundSize := (m.payload.length + maxPayload - 1) / maxPayload
      -- the conversion of `compound_size` to 32 bits
      if 4294967296 ≤ compoundSize then throw .packetSizeExceedMTU
      else do
        let before ← get
        modify fun q => q.share compoundSize
        (List.range compoundSize).forM fun i =>
          modify fun q => q.pushReliable (before.fragmentFrame m maxPayload compoundSize i)
        modify fun q => q.nextCompound
        modify fun q => q.advanceOrdered m.channel
  | .reliableSequenced =>
    if maxPayload < m.payload.length then throw .packetSizeExceedMTU
    else do
      let before ← get
      modify fun q => q.advanceSequenced m.channel
      modify fun q => q.pushReliable
        { FrameSetPacket.fromPayload .reliableSequenced (reliablePayload m) with
          orderChannel := m.channel
          orderedFrameIndex := q.orderedFrameIndexes.get m.channel
          sequencedFrameIndex := before.sequencedFrameIndexes.get m.channel }

/-- `SendQ::insert_payload`, changing the queue in place. -/
def insertInPlace : InPlace SendQ RaknetError Unit := do
  let q ← get
  let reserved ← InPlace.check (q.requiredBytes m.reliability m.payload.length)
  if maxBufferedBytes - q.bufferedBytes < reserved then throw .packetSizeExceedMTU
  else do
    let maxPayload ← InPlace.check q.maxPayload
    pushInPlace B m maxPayload
    modify fun q => q.book B m reserved

/-! ### Validation of a batch -/

/-- `SendQ::send_options`. -/
def sendOptions : Option SendOptions := q.scheduler.map SendScheduler.options

/-- Two neighbours of a batch that fit one datagram. -/
def packs (a b : ℕ) : Bool :=
  decide (a ≤ (q.mtu : ℕ) - 60) && decide (b ≤ (q.mtu : ℕ) - 60) &&
    decide (a + b + 24 ≤ (q.mtu : ℕ) - 28)

/-- The loop of `send_batch_payload` over the lengths. -/
def checkMembers (reliability : Reliability) : List ℕ → Except RaknetError Unit
  | [] => .ok ()
  | length :: lengths =>
    if reliability ≠ .reliableOrdered ∧ (q.mtu : ℕ) - 60 < length then .error .packetSizeExceedMTU
    else checkMembers reliability lengths

/-- The validation of `send_batch_payload` in several passes: whether the batch can be packed. -/
def validatePasses (reliability : Reliability) (lengths : List ℕ) : Except RaknetError Bool := do
  let _ ← q.hasBatchCapacity B reliability lengths
  q.checkMembers reliability lengths
  .ok (q.coalescingAllowed && decide (reliability = .reliableOrdered) &&
    (lengths.zip (lengths.drop 1)).any fun (a, b) => q.packs a b)

/-- The variables of the pass of `batch_can_coalesce`. -/
structure Pass where
  previous : Option ℕ
  packable : Bool
  total : ℕ

/-- The `try_fold` of `batch_can_coalesce`. -/
def passOver (allowed : Bool) (reliability : Reliability) :
    Pass → List ℕ → Except RaknetError Pass
  | s, [] => .ok s
  | s, length :: lengths =>
    if reliability ≠ .reliableOrdered ∧ (q.mtu : ℕ) - 60 < length then .error .packetSizeExceedMTU
    else do
      let packable :=
        if allowed && !s.packable && decide (length ≤ (q.mtu : ℕ) - 60) then
          s.previous.any fun last => decide (last ≤ (q.mtu : ℕ) - 60) &&
            decide (last + length + 24 ≤ (q.mtu : ℕ) - 28)
        else s.packable
      let required ← q.requiredBytes reliability length
      if maxBufferedBytes < s.total + required then .error .packetSizeExceedMTU
      else passOver allowed reliability ⟨some length, packable, s.total + required⟩ lengths

/-- `SendQ::batch_can_coalesce`. -/
def batchCanCoalesce (reliability : Reliability) (lengths : List ℕ) : Except RaknetError Bool :=
  let allowed := q.coalescingAllowed && decide (reliability = .reliableOrdered)
  if reliability = .reliableOrdered ∧ ¬ allowed then do
    let _ ← q.hasBatchCapacity B reliability lengths
    .ok false
  else do
    let s ← q.passOver allowed reliability ⟨none, false, 0⟩ lengths
    let _ ← q.hasBatchRequiredCapacity reliability s.total
    .ok (allowed && s.packable)

/-- The validation of `send_batch_payload`: whether the batch is packed (or else streamed). -/
def validateBatch (reliability : Reliability) (messages : List Bytes) : Except RaknetError Bool :=
  if messages.any fun message => message.head? != some 0xfe then .error .packetHeaderError
  else
    let lengths := messages.map List.length
    if B.sendPolicy && q.sendOptions.isSome then q.batchCanCoalesce B reliability lengths
    else q.validatePasses B reliability lengths

end SendQ

/-! ### A failed insertion -/

section inplace

variable {B : Build} {q : SendQ} {m : Message}

/-- The queue that a caller finds: the old one after an error. -/
def SendQ.landed (q : SendQ) : Except RaknetError SendQ → Except RaknetError Unit × SendQ
  | .ok q' => (.ok (), q')
  | .error e => (.error e, q)

theorem pushInPlace_exec (q : SendQ) {n : ℕ}
    (hsize : m.Fragmented n → (m.payload.length + n - 1) / n < 4294967296) :
    InPlace.exec (SendQ.pushInPlace B m n) q = q.landed (q.pushMessage B m n) := by
  unfold SendQ.pushInPlace SendQ.pushMessage
  cases hr : m.reliability with
  | unreliable | unreliableSequenced | reliable | reliableSequenced =>
    simp only
    split_ifs <;> rfl
  | reliableOrdered =>
    simp only
    by_cases hn : m.payload.length ≤ n
    · rw [if_pos hn, if_pos hn]
      rfl
    · have hlt := hsize ⟨hr, not_le.mp hn⟩
      rw [if_neg hn, if_neg hn, if_neg (not_le.mpr hlt)]
      simp only [InPlace.exec_get, InPlace.exec_modify_bind]
      rw [InPlace.exec_bind_ok (InPlace.exec_forM _ _ _)]
      simp only [InPlace.exec_modify_bind, InPlace.exec_modify, SendQ.landed, SendQ.pushFragments,
        List.foldl_map]

theorem requiredBytes_eq_ok {reliability : Reliability} {len required : ℕ} :
    q.requiredBytes reliability len = .ok required ↔
      0 < (q.mtu : ℕ) - 60 ∧ SendQ.frameCount reliability len ((q.mtu : ℕ) - 60) ≤ maxFragments ∧
        required ≤ maxBufferedBytes ∧
        required = SendQ.frameCount reliability len ((q.mtu : ℕ) - 60) * frameBudget + len := by
  unfold SendQ.requiredBytes SendQ.maxPayload
  by_cases hmtu : (q.mtu : ℕ) - 60 = 0
  · simp [hmtu]
  · rw [if_neg hmtu]
    simp only [ok_bind, guard_eq_ok, not_lt, Except.ok.injEq]
    constructor
    · rintro ⟨hcount, hbytes, rfl⟩
      exact ⟨by omega, hcount, hbytes, rfl⟩
    · rintro ⟨-, hcount, hbytes, rfl⟩
      exact ⟨hcount, hbytes, rfl⟩

/-- **The insertion in place** leaves the queue of `insertPayload`, or the queue as it was. -/
theorem insertInPlace_exec (q : SendQ) :
    InPlace.exec (SendQ.insertInPlace B m) q = q.landed (q.insertPayload B m) := by
  unfold SendQ.insertInPlace SendQ.insertPayload
  rw [InPlace.exec_get]
  cases hrequired : q.requiredBytes m.reliability m.payload.length with
  | error e => rfl
  | ok required =>
    obtain ⟨hmtu, hcount, -, -⟩ := requiredBytes_eq_ok.mp hrequired
    rw [InPlace.exec_check_ok, ok_bind]
    by_cases hroom : maxBufferedBytes - q.bufferedBytes < required
    · rw [if_pos hroom, if_pos hroom]
      rfl
    · have hpayload : q.maxPayload = .ok ((q.mtu : ℕ) - 60) := if_neg hmtu.ne'
      rw [if_neg hroom, if_neg hroom, hpayload, InPlace.exec_check_ok, ok_bind]
      have hpush := pushInPlace_exec (B := B) (m := m) q (n := (q.mtu : ℕ) - 60) fun h => by
        have hfragmented : m.reliability = .reliableOrdered ∧ (q.mtu : ℕ) - 60 < m.payload.length := h
        rw [SendQ.frameCount, if_pos hfragmented] at hcount
        exact lt_of_le_of_lt hcount (by decide)
      cases hmessage : q.pushMessage B m ((q.mtu : ℕ) - 60) with
      | error e =>
        rw [hmessage] at hpush
        rw [InPlace.exec_bind_error hpush]
        rfl
      | ok pushed =>
        rw [hmessage] at hpush
        rw [InPlace.exec_bind_ok hpush]
        rfl

end inplace

/-! ### One pass or several -/

section passes

variable {B : Build} {q : SendQ} {reliability : Reliability}

theorem requiredBytes_error {len : ℕ} {e : RaknetError}
    (h : q.requiredBytes reliability len = .error e) : e = .packetSizeExceedMTU := by
  unfold SendQ.requiredBytes SendQ.maxPayload at h
  split_ifs at h
  · exact (Except.error.inj h).symm
  · simp only [ok_bind] at h
    split_ifs at h
    · exact (Except.error.inj h).symm
    · exact (Except.error.inj h).symm

theorem batchBytes_error {e : RaknetError} : ∀ {lengths : List ℕ} {total : ℕ},
    q.batchBytes reliability total lengths = .error e → e = .packetSizeExceedMTU
  | [], _, h => (nomatch h)
  | len :: lengths, total, h => by
    unfold SendQ.batchBytes at h
    cases hrequired : q.requiredBytes reliability len with
    | error e' =>
      rw [hrequired] at h
      exact Except.error.inj h ▸ requiredBytes_error hrequired
    | ok required =>
      rw [hrequired, ok_bind] at h
      split_ifs at h
      · exact (Except.error.inj h).symm
      · exact batchBytes_error h

/-- Some neighbours of the list, the first with `previous`, fit one datagram. -/
def SendQ.anyPacks (q : SendQ) : Option ℕ → List ℕ → Bool
  | _, [] => false
  | previous, length :: lengths =>
    (previous.any fun last => q.packs last length) || q.anyPacks (some length) lengths

theorem anyPacks_cons (q : SendQ) : ∀ (last : ℕ) (lengths : List ℕ),
    q.anyPacks (some last) lengths =
      ((last :: lengths).zip lengths).any fun (a, b) => q.packs a b
  | _, [] => rfl
  | last, length :: lengths => by
    show (q.packs last length || q.anyPacks (some length) lengths) = _
    rw [anyPacks_cons q length lengths]
    rfl

theorem anyPacks_none (q : SendQ) (lengths : List ℕ) :
    q.anyPacks none lengths = (lengths.zip (lengths.drop 1)).any fun (a, b) => q.packs a b := by
  cases lengths with
  | nil => rfl
  | cons length lengths =>
    show (false || q.anyPacks (some length) lengths) = _
    rw [Bool.false_or, anyPacks_cons]
    rfl

theorem packable_step (q : SendQ) (allowed packable later : Bool) (previous : Option ℕ)
    (length : ℕ) :
    ((if allowed && !packable && decide (length ≤ (q.mtu : ℕ) - 60) then
          previous.any fun last => decide (last ≤ (q.mtu : ℕ) - 60) &&
            decide (last + length + 24 ≤ (q.mtu : ℕ) - 28)
        else packable) || allowed && later) =
      (packable || allowed && ((previous.any fun last => q.packs last length) || later)) := by
  cases allowed with
  | false => simp
  | true =>
    cases packable with
    | true => simp
    | false =>
      by_cases hlength : length ≤ (q.mtu : ℕ) - 60
      · simp [hlength, SendQ.packs]
      · simp [hlength, SendQ.packs]

/-- **The pass gives back what the separate passes do**: the error of the first check that fails, or
both the total and whether two neighbours can be packed. -/
theorem passOver_eq (q : SendQ) (allowed : Bool) (reliability : Reliability) :
    ∀ (lengths : List ℕ) (s : SendQ.Pass),
      (q.passOver allowed reliability s lengths).map (fun s => (s.packable, s.total)) =
        (do
          let total ← q.batchBytes reliability s.total lengths
          q.checkMembers reliability lengths
          .ok (s.packable || allowed && q.anyPacks s.previous lengths, total))
  | [], s => by simp [SendQ.passOver, SendQ.batchBytes, SendQ.checkMembers, SendQ.anyPacks]
  | length :: lengths, s => by
    unfold SendQ.passOver SendQ.checkMembers
    by_cases hmember : reliability ≠ .reliableOrdered ∧ (q.mtu : ℕ) - 60 < length
    · -- both sides fail, the right one after the total if that is not too large already
      rw [if_pos hmember, if_pos hmember]
      cases htotal : q.batchBytes reliability s.total (length :: lengths) with
      | error e => rw [batchBytes_error htotal]; rfl
      | ok total => rfl
    · rw [if_neg hmember, if_neg hmember]
      unfold SendQ.batchBytes
      cases hrequired : q.requiredBytes reliability length with
      | error e => rfl
      | ok required =>
        simp only [ok_bind]
        by_cases htotal : maxBufferedBytes < s.total + required
        · rw [if_pos htotal, if_pos htotal]
          rfl
        · rw [if_neg htotal, if_neg htotal, passOver_eq q allowed reliability lengths]
          simp only [packable_step, SendQ.anyPacks]

theorem hasBatchRequiredCapacity_error {required : ℕ} {e : RaknetError}
    (h : q.hasBatchRequiredCapacity reliability required = .error e) :
    e = .packetSizeExceedMTU := by
  unfold SendQ.hasBatchRequiredCapacity SendQ.hasReservedCapacity at h
  cases hs : q.scheduler with
  | none => simp [hs] at h
  | some s =>
    simp only [hs] at h
    split_ifs at h
    all_goals exact (Except.error.inj h).symm

theorem checkMembers_eq (q : SendQ) (reliability : Reliability) : ∀ lengths : List ℕ,
    q.checkMembers reliability lengths =
      if reliability = .reliableOrdered ∨ ∀ length ∈ lengths, length ≤ (q.mtu : ℕ) - 60 then .ok ()
      else .error .packetSizeExceedMTU
  | [] => by simp [SendQ.checkMembers]
  | length :: lengths => by
    unfold SendQ.checkMembers
    rw [checkMembers_eq q reliability lengths]
    by_cases hordered : reliability = .reliableOrdered
    · simp [hordered]
    · by_cases hlength : length ≤ (q.mtu : ℕ) - 60
      · simp [hordered, hlength]
      · simp [hordered, hlength, not_le.mp hlength]

/-- **One pass validates like several.** -/
theorem batchCanCoalesce_eq (hB : B.sendPolicy = true) (q : SendQ) (reliability : Reliability)
    (lengths : List ℕ) :
    q.batchCanCoalesce B reliability lengths = q.validatePasses B reliability lengths := by
  unfold SendQ.batchCanCoalesce SendQ.validatePasses
  simp only
  split_ifs with hordered
  · -- ordered messages without packing
    obtain ⟨rfl, hallowed⟩ := hordered
    have hoff : q.coalescingAllowed = false := by simpa using hallowed
    have hmembers : q.checkMembers .reliableOrdered lengths = .ok () := by simp [checkMembers_eq]
    simp only [hoff, hmembers, Bool.false_and, ok_bind]
  · have hpass := passOver_eq q (q.coalescingAllowed && decide (reliability = .reliableOrdered))
      reliability lengths ⟨none, false, 0⟩
    generalize (q.coalescingAllowed && decide (reliability = .reliableOrdered)) = allowed at hpass ⊢
    rw [← anyPacks_none]
    unfold SendQ.hasBatchCapacity
    simp only [hB, if_true]
    cases htotal : q.batchBytes reliability 0 lengths with
    | error e =>
      rw [htotal, error_bind] at hpass
      cases hp : q.passOver allowed reliability ⟨none, false, 0⟩ lengths with
      | ok s => simp [hp] at hpass
      | error e' =>
        rw [hp, map_error] at hpass
        rw [Except.error.inj hpass]
        rfl
    | ok total =>
      rw [htotal, ok_bind] at hpass
      simp only [ok_bind]
      by_cases hmembers : reliability = .reliableOrdered ∨
          ∀ length ∈ lengths, length ≤ (q.mtu : ℕ) - 60
      · have hcheck := (checkMembers_eq q reliability lengths).trans (if_pos hmembers)
        rw [hcheck] at hpass ⊢
        obtain ⟨s, hs, hpair⟩ := map_eq_ok.mp hpass
        obtain ⟨hpackable, rfl⟩ := Prod.mk.inj hpair
        simp only [hs, ok_bind, hpackable, Bool.false_or, Bool.and_self_left]
      · have hcheck := (checkMembers_eq q reliability lengths).trans (if_neg hmembers)
        rw [hcheck] at hpass ⊢
        cases hp : q.passOver allowed reliability ⟨none, false, 0⟩ lengths with
        | ok s => simp [hp] at hpass
        | error e' =>
          rw [hp, map_error, error_bind] at hpass
          rw [Except.error.inj hpass]
          cases hroom : q.hasBatchRequiredCapacity reliability total with
          | ok room => rfl
          | error e => rw [hasBatchRequiredCapacity_error hroom]; rfl

end passes

/-! ### What the checks promise -/

section members

variable {B : Build} {q q' : SendQ} {reliability : Reliability} {m : Message}

/-- The options of a queue come from their constructors. -/
def SendQ.ValidOptions (q : SendQ) : Prop := ∀ s, q.scheduler = some s → s.options.Valid

/-- Options come from their constructors. -/
def Op.ValidOptions : Op → Prop
  | .setSendOptions options => options.Valid
  | _ => True

theorem given_options (q : SendQ) :
    q.given.options.map Prod.fst = q.sendOptions := by
  simp [SendQ.given, SendQ.sendOptions, Function.comp_def]

theorem validOptions_iff : q.ValidOptions ↔ ∀ o, q.sendOptions = some o → o.Valid := by
  simp [SendQ.ValidOptions, SendQ.sendOptions]

theorem SendQ.ValidOptions.congr (h : q.ValidOptions) (ho : q'.sendOptions = q.sendOptions) :
    q'.ValidOptions :=
  validOptions_iff.mpr (ho ▸ validOptions_iff.mp h)

theorem SendQ.ValidOptions.step {r : Run} (hw : Wf B r.queue) (h : r.queue.ValidOptions) {op : Op}
    (hop : op.ValidOptions) : (r.step B op).queue.ValidOptions := by
  have hsame : ∀ {q' : SendQ}, q'.given.options = r.queue.given.options → q'.ValidOptions :=
    fun hgiven => h.congr (by rw [← given_options, hgiven, given_options])
  cases op with
  | insert m =>
    refine Run.insert_cases (fun q hq => hsame ?_) h
    rw [insertPayload_given hq]
  | setSendOptions options =>
    refine Run.setSendOptions_cases (fun q _ hq => ?_) h
    obtain ⟨-, s, hs, hoptions⟩ := setSendOptions_charge hq
    intro s' hs'
    obtain rfl := Option.some.inj (hs.symm.trans hs')
    exact hoptions ▸ hop
  | _ => exact hsame (congrArg Given.options (step_given hw trivial))

theorem options_valid_run (B : Build) (mtu : Fin 65536) {ops : List Op}
    (h : ∀ op ∈ ops, op.ValidOptions) : (run B mtu ops).queue.ValidOptions := by
  induction ops using List.reverseRecOn with
  | nil => exact fun s hs => (nomatch hs)
  | append_singleton ops op ih =>
    rw [run_append]
    exact (ih fun op hop => h op (by simp [hop])).step (run_steps B mtu ops).1 (h op (by simp))

theorem pushMessage_bytes {n : ℕ} (h : q.pushMessage B m n = .ok q') :
    q'.bufferedBytes = q.bufferedBytes := by
  refine (PushRule.of_key SendQ.bufferedBytes (fun q frame => ?_) (fun _ _ => rfl) (fun _ _ => rfl)
    (fun _ _ => rfl) (fun _ _ => rfl) fun _ => rfl).message h
  obtain ⟨_, _, _, _, _, he⟩ := pushUnreliable_eq B q frame
  rw [he]

theorem pushMessage_of_fits {n : ℕ}
    (hfits : m.reliability = .reliableOrdered ∨ m.payload.length ≤ n) :
    ∃ q', q.pushMessage B m n = .ok q' := by
  unfold SendQ.pushMessage
  cases hr : m.reliability with
  | reliableOrdered =>
    simp only
    split_ifs
    · exact ⟨_, rfl⟩
    · exact ⟨_, rfl⟩
  | unreliable | unreliableSequenced | reliable | reliableSequenced =>
    have hle : m.payload.length ≤ n := hfits.resolve_left (by simp [hr])
    exact ⟨_, if_neg (not_lt.mpr hle)⟩

/-- **When a message is accepted**, and what it is charged. -/
theorem insertPayload_of_room {required : ℕ}
    (hrequired : q.requiredBytes m.reliability m.payload.length = .ok required)
    (hroom : q.bufferedBytes + required ≤ maxBufferedBytes)
    (hfits : m.reliability = .reliableOrdered ∨ m.payload.length ≤ (q.mtu : ℕ) - 60) :
    ∃ q', q.insertPayload B m = .ok q' ∧ q'.bufferedBytes = q.bufferedBytes + required ∧
      q'.mtu = q.mtu := by
  obtain ⟨hmtu, -, -, -⟩ := requiredBytes_eq_ok.mp hrequired
  obtain ⟨pushed, hpush⟩ := pushMessage_of_fits (B := B) (q := q) hfits
  have hinsert : q.insertPayload B m = .ok (pushed.book B m required) := by
    unfold SendQ.insertPayload
    have hpayload : q.maxPayload = .ok ((q.mtu : ℕ) - 60) := if_neg hmtu.ne'
    rw [hrequired, ok_bind, if_neg (by omega), hpayload, ok_bind, hpush]
    rfl
  refine ⟨_, hinsert, ?_, congrArg Given.mtu (insertPayload_given hinsert)⟩
  show pushed.bufferedBytes + required = _
  rw [pushMessage_bytes hpush]

theorem room_le {required : ℕ} (hvalid : q.ValidOptions) (hle : required ≤ maxBufferedBytes)
    (h : q.hasReservedCapacity reliability required = .ok true) :
    q.bufferedBytes + required ≤ maxBufferedBytes := by
  cases hs : q.scheduler with
  | none =>
    simp only [SendQ.hasReservedCapacity, hs, Except.ok.injEq, decide_eq_true_eq] at h
    have hwater : sendHighWater ≤ maxBufferedBytes := by decide
    omega
  | some s =>
    rw [hasReservedCapacity_full hs (hvalid s hs)] at h
    unfold SendQ.fullReservedCapacity at h
    simp only at h
    split_ifs at h
    · exact of_decide_eq_true (Bool.and_eq_true_iff.mp (Except.ok.inj h)).2
    · exact of_decide_eq_true (Bool.and_eq_true_iff.mp (Except.ok.inj h)).2

/-! ### A batch that is inserted at once -/

/-- The insertion of the members of a batch, one after the other. -/
def SendQ.insertAll (B : Build) (q : SendQ) (batch : List Message) : Except RaknetError SendQ :=
  batch.foldlM (fun q m => q.insertPayload B m) q

theorem batchBytes_charges : ∀ {lengths : List ℕ} {total sum : ℕ},
    q.batchBytes reliability total lengths = .ok sum →
    ∃ charges, List.Forall₂ (fun len c => q.requiredBytes reliability len = .ok c) lengths charges ∧
      sum = total + charges.sum
  | [], total, sum, h => ⟨[], .nil, (Except.ok.inj h).symm⟩
  | len :: lengths, total, sum, h => by
    obtain ⟨required, hrequired, h⟩ := batchBytes_cons h
    obtain ⟨charges, hcharges, hsum⟩ := batchBytes_charges h
    exact ⟨required :: charges, .cons hrequired hcharges, by rw [hsum, List.sum_cons]; omega⟩

theorem exists_charge {lengths charges : List ℕ} {len : ℕ}
    (h : List.Forall₂ (fun len c => q.requiredBytes reliability len = .ok c) lengths charges)
    (hlen : len ∈ lengths) : ∃ c ∈ charges, q.requiredBytes reliability len = .ok c := by
  induction h with
  | nil => cases hlen
  | cons hfirst _ ih =>
    rcases List.mem_cons.mp hlen with rfl | hlen
    · exact ⟨_, List.mem_cons_self, hfirst⟩
    · obtain ⟨c, hc, hrequired⟩ := ih hlen
      exact ⟨c, List.mem_cons_of_mem _ hc, hrequired⟩

theorem batchBytes_le : ∀ {lengths : List ℕ} {total sum : ℕ}, total ≤ maxBufferedBytes →
    q.batchBytes reliability total lengths = .ok sum → sum ≤ maxBufferedBytes
  | [], _, _, hle, h => Except.ok.inj h ▸ hle
  | len :: lengths, total, sum, hle, h => by
    unfold SendQ.batchBytes at h
    obtain ⟨required, -, h⟩ := bind_eq_ok.mp h
    obtain ⟨hle', h⟩ := guard_eq_ok.mp h
    exact batchBytes_le (not_lt.mp hle') h

/-- Ordered messages whose charges fit together are all accepted. -/
theorem insertAll_of_room {batch : List Message} {charges : List ℕ} {q : SendQ}
    (hcharges : List.Forall₂
      (fun m c => q.requiredBytes .reliableOrdered m.payload.length = .ok c) batch charges)
    (hordered : ∀ m ∈ batch, m.reliability = .reliableOrdered)
    (hroom : q.bufferedBytes + charges.sum ≤ maxBufferedBytes) :
    ∃ q', q.insertAll B batch = .ok q' ∧ q'.bufferedBytes = q.bufferedBytes + charges.sum := by
  induction batch generalizing q charges with
  | nil =>
    obtain rfl := List.forall₂_nil_left_iff.mp hcharges
    exact ⟨q, rfl, rfl⟩
  | cons m batch ih =>
    obtain ⟨c, charges, hm, hbatch, rfl⟩ := List.forall₂_cons_left_iff.mp hcharges
    obtain ⟨hfirst, hordered⟩ := List.forall_mem_cons.mp hordered
    rw [List.sum_cons] at hroom ⊢
    obtain ⟨q₁, hinsert, hbytes, hmtu⟩ :=
      insertPayload_of_room (B := B) (hfirst ▸ hm) (by omega) (.inl hfirst)
    have hrest : List.Forall₂
        (fun m c => q₁.requiredBytes .reliableOrdered m.payload.length = .ok c) batch charges :=
      hbatch.imp fun m c h => (requiredBytes_congr hmtu _ _).trans h
    obtain ⟨q', hall, hbytes'⟩ := ih hrest hordered (by omega)
    refine ⟨q', ?_, by omega⟩
    unfold SendQ.insertAll at hall ⊢
    rw [List.foldlM_cons, hinsert, ok_bind, hall]

theorem hasBatchCapacity_room {lengths : List ℕ} (hvalid : q.ValidOptions)
    (h : q.hasBatchCapacity B reliability lengths = .ok true) :
    ∃ total, q.batchBytes reliability 0 lengths = .ok total ∧
      q.bufferedBytes + total ≤ maxBufferedBytes := by
  unfold SendQ.hasBatchCapacity at h
  obtain ⟨total, htotal, h⟩ := bind_eq_ok.mp h
  have hle := batchBytes_le (Nat.zero_le _) htotal
  refine ⟨total, htotal, ?_⟩
  split_ifs at h
  · unfold SendQ.hasBatchRequiredCapacity at h
    split_ifs at h
    · cases h
    · exact room_le hvalid hle h
  · have hroom := of_decide_eq_true (Except.ok.inj h)
    have hwater : sendHighWater ≤ maxBufferedBytes := by decide
    omega

/-! ### A batch that is streamed -/

/-- No capacity test of a message of this length fails, and no insertion for which there is
capacity. It depends on the MTU and the options of the queue alone. -/
structure SendQ.Admissible (B : Build) (q : SendQ) (reliability : Reliability) (len : ℕ) :
    Prop where
  fits : reliability = .reliableOrdered ∨ len ≤ (q.mtu : ℕ) - 60
  charge : ∃ required, q.requiredBytes reliability len = .ok required ∧
    ∀ o, B.sendPolicy = true → q.sendOptions = some o →
      required ≤ if reliability.isReliable then o.reliableLimit else o.unreliableQueueBytes

theorem SendQ.Admissible.congr {len : ℕ} (h : q.Admissible B reliability len)
    (hmtu : q'.mtu = q.mtu) (hoptions : q'.sendOptions = q.sendOptions) :
    q'.Admissible B reliability len := by
  obtain ⟨required, hrequired, hlimit⟩ := h.charge
  exact ⟨by rw [hmtu]; exact h.fits, required, (requiredBytes_congr hmtu _ _).trans hrequired,
    by rw [hoptions]; exact hlimit⟩

/-- A charge within the limits of its mode is admitted now or later. -/
theorem hasReservedCapacity_of_limit {required : ℕ} (hvalid : q.ValidOptions)
    (hlimit : ∀ o, q.sendOptions = some o →
      required ≤ if reliability.isReliable then o.reliableLimit else o.unreliableQueueBytes) :
    ∃ room, q.hasReservedCapacity reliability required = .ok room := by
  cases hs : q.scheduler with
  | none => exact ⟨_, by unfold SendQ.hasReservedCapacity; rw [hs]⟩
  | some s =>
    have hle := hlimit s.options (by simp [SendQ.sendOptions, hs])
    rw [hasReservedCapacity_full hs (hvalid s hs)]
    unfold SendQ.fullReservedCapacity SendQ.unreliableMode
    unfold SendOptions.reliableLimit at hle
    cases hmode : reliability.isReliable with
    | true =>
      rw [hmode, if_pos rfl] at hle
      exact ⟨_, if_neg (not_lt.mpr hle)⟩
    | false =>
      rw [hmode, if_neg Bool.false_ne_true] at hle
      exact ⟨_, if_neg (not_lt.mpr hle)⟩

theorem SendQ.Admissible.accepted (h : q.Admissible B m.reliability m.payload.length)
    (hvalid : q.ValidOptions) :
    ∃ room, q.hasCapacity B m.reliability m.payload.length = .ok room ∧
      (room = true → ∃ q', q.insertPayload B m = .ok q') := by
  obtain ⟨required, hrequired, hlimit⟩ := h.charge
  obtain ⟨-, -, hle, -⟩ := requiredBytes_eq_ok.mp hrequired
  unfold SendQ.hasCapacity
  rw [hrequired, ok_bind]
  split_ifs with hB
  · obtain ⟨room, hroom⟩ := hasReservedCapacity_of_limit hvalid (hlimit · hB)
    refine ⟨room, hroom, ?_⟩
    rintro rfl
    obtain ⟨q', hq', -⟩ := insertPayload_of_room hrequired (room_le hvalid hle hroom) h.fits
    exact ⟨q', hq'⟩
  · refine ⟨_, rfl, fun hroom => ?_⟩
    have hwater : sendHighWater ≤ maxBufferedBytes := by decide
    have hroom := of_decide_eq_true hroom
    obtain ⟨q', hq', -⟩ := insertPayload_of_room hrequired (by omega) h.fits
    exact ⟨q', hq'⟩

/-- **What the validation of a batch promises of each member.** -/
theorem admissible_of_passes {lengths : List ℕ} {packed : Bool} (hvalid : q.ValidOptions)
    (hmtu : (q.mtu : ℕ) ≤ 1492) (h : q.validatePasses B reliability lengths = .ok packed) :
    ∀ len ∈ lengths, q.Admissible B reliability len := by
  unfold SendQ.validatePasses at h
  obtain ⟨room, hroom, h⟩ := bind_eq_ok.mp h
  obtain ⟨⟨⟩, hmembers, -⟩ := bind_eq_ok.mp h
  unfold SendQ.hasBatchCapacity at hroom
  obtain ⟨total, htotal, hroom⟩ := bind_eq_ok.mp hroom
  obtain ⟨charges, hcharges, htotal'⟩ := batchBytes_charges htotal
  intro len hlen
  have hfits : reliability = .reliableOrdered ∨ len ≤ (q.mtu : ℕ) - 60 := by
    rw [checkMembers_eq] at hmembers
    split_ifs at hmembers with hcheck
    exact hcheck.imp_right fun hall => hall len hlen
  obtain ⟨required, hmem, hrequired⟩ := exists_charge hcharges hlen
  have hle : required ≤ total := by
    have := List.single_le_sum (fun x _ => Nat.zero_le x) required hmem
    omega
  refine ⟨hfits, required, hrequired, fun o hB ho => ?_⟩
  obtain ⟨s, hs, rfl⟩ := Option.map_eq_some_iff.mp ho
  rw [if_pos hB] at hroom
  cases hmode : reliability.isReliable with
  | true =>
    unfold SendQ.hasBatchRequiredCapacity at hroom
    rw [if_neg (by simp [SendQ.unreliableMode, hmode]),
      hasReservedCapacity_full hs (hvalid s hs)] at hroom
    unfold SendQ.fullReservedCapacity at hroom
    rw [if_neg (by simp [SendQ.unreliableMode, hmode])] at hroom
    obtain ⟨hhard, -⟩ := guard_eq_ok.mp hroom
    exact hle.trans (not_lt.mp hhard)
  | false =>
    -- a full frame and its budget fit the smallest reserve
    have hshort := hfits.resolve_left (by rintro rfl; simp [Reliability.isReliable] at hmode)
    rw [requiredBytes_unreliable hmode hrequired, frameBudget_eq]
    have := (hvalid s hs).budgets.2
    simp only [Bool.false_eq_true, if_false]
    omega

end members

/-- **A validated batch never fails half way.** An ordered batch for which there is capacity is
inserted as a whole and charged the sum of what its members require. When the members are streamed,
each of them finds room now or later, whatever the queue holds by then, as long as the options stay.
And an insertion that fails leaves the queue as it was. -/
theorem batch_never_fails_halfway (B : Build) (mtu : Fin 65536) (hmtu : (mtu : ℕ) ≤ 1492)
    (ops : List Op) (hops : ∀ op ∈ ops, op.ValidOptions) :
    let q := (run B mtu ops).queue
    (∀ batch : List Message, (∀ m ∈ batch, m.reliability = .reliableOrdered) →
      q.hasBatchCapacity B .reliableOrdered (batch.map fun m => m.payload.length) = .ok true →
      ∃ q' charges, q.insertAll B batch = .ok q' ∧
        List.Forall₂ (fun m c => q.requiredBytes .reliableOrdered m.payload.length = .ok c)
          batch charges ∧
        q'.bufferedBytes = q.bufferedBytes + charges.sum) ∧
    (∀ (reliability : Reliability) (batch : List Message) (packed : Bool) (later : List Op),
      (∀ m ∈ batch, m.reliability = reliability) →
      q.validateBatch B reliability (batch.map Message.payload) = .ok packed →
      (run B mtu (ops ++ later)).queue.sendOptions = q.sendOptions →
      ∀ m ∈ batch, ∃ room,
        (run B mtu (ops ++ later)).queue.hasCapacity B reliability m.payload.length = .ok room ∧
        (room = true → ∃ q', (run B mtu (ops ++ later)).queue.insertPayload B m = .ok q')) ∧
    ∀ (m : Message) (e : RaknetError) (q' : SendQ),
      InPlace.exec (SendQ.insertInPlace B m) q = (.error e, q') → q' = q := by
  have hvalid := options_valid_run B mtu hops
  intro q
  refine ⟨fun batch hordered hcapacity => ?_, ?_, fun m e q' hfail => ?_⟩
  · obtain ⟨total, htotal, hroom⟩ := hasBatchCapacity_room hvalid hcapacity
    obtain ⟨charges, hcharges, rfl⟩ := batchBytes_charges htotal
    rw [List.forall₂_map_left_iff] at hcharges
    rw [Nat.zero_add] at hroom
    obtain ⟨q', hall, hbytes⟩ := insertAll_of_room (B := B) hcharges hordered hroom
    exact ⟨q', charges, hall, hcharges, hbytes⟩
  · intro reliability batch packed later hbatch hpassed hoptions m hm
    have hsame : q.mtu = mtu := (legacy_room B mtu ops).1
    have hlater : (run B mtu (ops ++ later)).queue.mtu = q.mtu :=
      (legacy_room B mtu (ops ++ later)).1.trans hsame.symm
    have hpasses : q.validatePasses B reliability
        ((batch.map Message.payload).map List.length) = .ok packed := by
      unfold SendQ.validateBatch at hpassed
      obtain ⟨-, hpassed⟩ := guard_eq_ok.mp hpassed
      simp only at hpassed
      split_ifs at hpassed with hfused
      · rw [← batchCanCoalesce_eq (Bool.and_eq_true_iff.mp hfused).1]
        exact hpassed
      · exact hpassed
    have hmember := admissible_of_passes hvalid (by rw [hsame]; exact hmtu) hpasses
      m.payload.length (List.mem_map_of_mem (List.mem_map_of_mem hm))
    have hadmissible := hmember.congr hlater hoptions
    rw [← hbatch m hm] at hadmissible ⊢
    exact hadmissible.accepted (hvalid.congr hoptions)
  · rw [insertInPlace_exec] at hfail
    cases hinsert : q.insertPayload B m with
    | ok q₁ => simp [hinsert, SendQ.landed] at hfail
    | error e' =>
      rw [hinsert] at hfail
      exact (Prod.mk.inj hfail).2.symm

/-- Two ordered messages. -/
def orderedPair : List Message :=
  [⟨.reliableOrdered, primaryChannel, [0xfe], false⟩,
    ⟨.reliableOrdered, primaryChannel, [0xfe, 1, 2], true⟩]

/-- Two unreliable messages. -/
def unreliablePair : List Message :=
  [⟨.unreliable, primaryChannel, [0xfe], false⟩, ⟨.unreliable, primaryChannel, [0xfe, 1], true⟩]

theorem batch_never_fails_halfway_pair :
    let B := Build.insertion true false
    let q := (run B 1492 [.setSendOptions .default]).queue
    let q' := (run B 1492 [.setSendOptions .default,
      .insert ⟨.unreliable, primaryChannel, [0xfe], false⟩, .flush 5]).queue
    (∃ after charges, q.insertAll B orderedPair = .ok after ∧
      List.Forall₂ (fun m c => q.requiredBytes .reliableOrdered m.payload.length = .ok c)
        orderedPair charges ∧
      after.bufferedBytes = q.bufferedBytes + charges.sum) ∧
    (∀ m ∈ unreliablePair, ∃ room, q'.hasCapacity B .unreliable m.payload.length = .ok room ∧
      (room = true → ∃ after, q'.insertPayload B m = .ok after)) ∧
    ∀ (m : Message) (e : RaknetError) (after : SendQ),
      InPlace.exec (SendQ.insertInPlace B m) q = (.error e, after) → after = q :=
  have h := batch_never_fails_halfway (Build.insertion true false) 1492 (by decide)
    [.setSendOptions .default] (by simp [Op.ValidOptions, SendOptions.Valid.default])
  ⟨h.1 orderedPair (by decide) (by decide +kernel),
    h.2.1 .unreliable unreliablePair false
      [.insert ⟨.unreliable, primaryChannel, [0xfe], false⟩, .flush 5] (by decide)
      (by decide +kernel) (by decide +kernel),
    h.2.2⟩

end RustRaknet.Send
