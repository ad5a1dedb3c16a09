import RustRaknet.Link.Carry
import RustRaknet.Send.Payloads

/-! # Copying and sharing inserts

`arq.rs`: `insert_with_order_channel` copies a message, and `insert_bytes` keeps the buffer that the
caller gave. Either way the queue holds the same frames but for how they hold their payloads, so two
queues that were equal up to `flat` send the same bytes ever after (`insert_bytes_agrees`). -/

namespace RustRaknet.Send

open RustRaknet.Frame RustRaknet.Codec RustRaknet.Lib.Result RustRaknet.Socket

namespace SendQ

variable {B : Build}

/-! ### Insertion -/

/-- `SendQ::insert_with_order_channel`. -/
def insertWithOrderChannel (B : Build) (q : SendQ) (reliability : Reliability) (buf : Bytes)
    (channel : Fin 256) : Except RaknetError SendQ :=
  q.insertPayload B ⟨reliability, channel, buf, false⟩

/-- `SendQ::insert_bytes`. -/
def insertBytes (B : Build) (q : SendQ) (reliability : Reliability) (data : Bytes)
    (channel : Fin 256) : Except RaknetError SendQ :=
  q.insertPayload B ⟨reliability, channel, data, true⟩

theorem flat_flat (q : SendQ) : q.flat.flat = q.flat := by
  have hscheduler : SendScheduler.flat ∘ SendScheduler.flat = SendScheduler.flat := by
    funext s
    simp only [Function.comp, SendScheduler.flat, List.map_map]
    rfl
  unfold flat
  simp only [List.map_map, Option.map_map, hscheduler]
  rfl

theorem pushReliable_flat (q : SendQ) (f : FrameSetPacket) :
    q.flat.pushReliable f.flat = (q.pushReliable f).flat := by
  have hlog : q.flat.log.length = q.log.length := List.length_map _
  unfold pushReliable
  rw [hlog]
  unfold flat
  rw [List.map_append]
  rfl

theorem pushUnreliable_flat (q : SendQ) (f : FrameSetPacket) :
    q.flat.pushUnreliable B f.flat = (q.pushUnreliable B f).flat := by
  have hlog : q.flat.log.length = q.log.length := List.length_map _
  unfold pushUnreliable
  rw [hlog]
  by_cases hpolicy : B.sendPolicy = true
  · simp only [hpolicy, if_true]
    cases hs : q.scheduler with
    | none =>
      simp only [flat_scheduler, hs, Option.map_none]
      unfold flat
      rw [List.map_append, hs]
      rfl
    | some s =>
      simp only [flat_scheduler, hs, Option.map_some]
      unfold flat SendScheduler.flat
      simp only [Option.map_some, List.map_append]
      rfl
  · rw [if_neg hpolicy, if_neg hpolicy]
    unfold flat
    rw [List.map_append]
    rfl

theorem unreliablePayload_flat (m : Message) : (unreliablePayload m).flat = .owned m.payload := by
  unfold unreliablePayload
  split_ifs <;> rfl

theorem reliablePayload_flat {m : Message} (h : m.payload.length < 65536) :
    (reliablePayload m).flat = .owned m.payload := by
  unfold reliablePayload
  split_ifs
  · rfl
  · exact congrArg FramePayload.owned (deref_copyShared h)

/-- The view of a message that a fragment holds. Narrowing its bounds loses nothing. -/
def view (m : Message) (limit i : ℕ) : FramePayload :=
  if m.owned then .bytes ((m.payload.drop (i * limit)).take limit)
  else .shared m.payload (i * limit) (min limit (m.payload.length - i * limit))

section fragments

variable {m : Message} {limit i : ℕ}

theorem take_min_length (l : Bytes) : (l.drop (i * limit)).take (min limit (l.length - i * limit)) =
    (l.drop (i * limit)).take limit := by
  rw [← List.length_drop, ← List.take_take, List.take_length]

theorem start_lt (hlimit : limit < 65536) (hi : i < 65536) : i * limit < 4294967296 := by
  have hle : i * limit ≤ 65536 * limit := Nat.mul_le_mul_right limit hi.le
  omega

theorem length_view_lt (hlimit : limit < 65536) (length : ℕ) : min limit length < 65536 :=
  (Nat.min_le_left _ _).trans_lt hlimit

theorem fragmentFrame_data (q : SendQ) (m : Message) (compoundSize : ℕ) (hlimit : limit < 65536)
    (hi : i < 65536) : (q.fragmentFrame m limit compoundSize i).data = view m limit i := by
  unfold fragmentFrame view
  simp only [FrameSetPacket.fromPayload]
  rw [take_min_length, Nat.mod_eq_of_lt (start_lt hlimit hi),
    Nat.mod_eq_of_lt (length_view_lt hlimit _)]

theorem deref_view : (view m limit i).deref = (m.payload.drop (i * limit)).take limit := by
  unfold view
  split_ifs
  · rfl
  · exact take_min_length m.payload

theorem fragmentFrame_flat (q : SendQ) (m : Message) (compoundSize : ℕ) (hlimit : limit < 65536)
    (hi : i < 65536) : (q.flat.fragmentFrame m.flat limit compoundSize i).flat =
      (q.fragmentFrame m limit compoundSize i).flat := by
  have hdata : (q.flat.fragmentFrame m.flat limit compoundSize i).data.deref =
      (q.fragmentFrame m limit compoundSize i).data.deref := by
    rw [fragmentFrame_data _ _ _ hlimit hi, fragmentFrame_data _ _ _ hlimit hi, deref_view,
      deref_view]
    rfl
  have hlog : q.flat.log.length = q.log.length := List.length_map _
  unfold FrameSetPacket.flat FramePayload.flat
  rw [hdata]
  simp only [fragmentFrame, FrameSetPacket.fromPayload, FramePayload.len] at hdata ⊢
  rw [hdata, hlog]
  rfl

end fragments

theorem foldl_pushReliable_flat (l : List FrameSetPacket) : ∀ q : SendQ,
    (l.foldl pushReliable q).flat = (l.map FrameSetPacket.flat).foldl pushReliable q.flat := by
  induction l with
  | nil => exact fun _ => rfl
  | cons f l ih =>
    intro q
    rw [List.foldl_cons, ih, List.map_cons, List.foldl_cons, pushReliable_flat]

theorem pushFragments_flat (q : SendQ) {m : Message} {limit : ℕ} (hlimit : limit < 65536)
    (hcount : (m.payload.length + limit - 1) / limit ≤ 65536) :
    (q.flat.pushFragments m.flat limit).flat = (q.pushFragments m limit).flat := by
  have hnext : ∀ q : SendQ, q.nextCompound.flat = q.flat.nextCompound := fun _ => rfl
  have hshare : ∀ n, (q.flat.share n).flat = (q.share n).flat := by
    intro n
    have hlog : q.flat.log.length = q.log.length := List.length_map _
    have hcommute : q.flat.share n = (q.share n).flat := by
      unfold share
      rw [hlog]
      rfl
    rw [hcommute, flat_flat]
  have hframes : ∀ n, n ≤ 65536 →
      ((List.range n).map (q.flat.fragmentFrame m.flat limit n)).map FrameSetPacket.flat =
        ((List.range n).map (q.fragmentFrame m limit n)).map FrameSetPacket.flat := by
    intro n hn
    rw [List.map_map, List.map_map]
    refine List.map_congr_left fun i hi => ?_
    exact fragmentFrame_flat q m n hlimit ((List.mem_range.mp hi).trans_le hn)
  unfold pushFragments
  simp only [hnext, foldl_pushReliable_flat, hshare]
  rw [← hframes _ hcount]
  rfl

/-- The `match` on the mode leads to the same queue, however the message was given. -/
theorem pushMessage_flat (q : SendQ) {m : Message} {limit : ℕ} (hlimit : limit < 65536)
    (hcount : m.count limit ≤ 65536) :
    (q.flat.pushMessage B m.flat limit).map flat = (q.pushMessage B m limit).map flat := by
  -- the queue after a push, with the frame of the message in a vector of its own
  have hreliable : ∀ (q : SendQ) {f f' : FrameSetPacket}, f'.flat = f.flat →
      (q.flat.pushReliable f').flat = (q.pushReliable f).flat := by
    intro q f f' hf
    rw [← pushReliable_flat, ← pushReliable_flat, flat_flat, hf]
  have hunreliable : ∀ (q : SendQ) {f f' : FrameSetPacket}, f'.flat = f.flat →
      (q.flat.pushUnreliable B f').flat = (q.pushUnreliable B f).flat := by
    intro q f f' hf
    rw [← pushUnreliable_flat, ← pushUnreliable_flat, flat_flat, hf]
  have hgive : (unreliablePayload m.flat).flat = (unreliablePayload m).flat := by
    rw [unreliablePayload_flat, unreliablePayload_flat]
    rfl
  have hsingle : m.payload.length ≤ limit →
      (reliablePayload m.flat).flat = (reliablePayload m).flat := by
    intro hle
    have hlt : m.payload.length < 65536 := hle.trans_lt hlimit
    rw [reliablePayload_flat hlt]
    exact reliablePayload_flat (m := m.flat) hlt
  have hguard : ∀ {x y : SendQ}, (¬ limit < m.payload.length → x.flat = y.flat) →
      Except.map flat (if limit < m.payload.length then .error RaknetError.packetSizeExceedMTU else .ok x) =
        Except.map flat (if limit < m.payload.length then .error RaknetError.packetSizeExceedMTU else .ok y) := by
    intro x y hxy
    split_ifs with hlong
    · rfl
    · exact congrArg Except.ok (hxy hlong)
  have hmode : m.flat.reliability = m.reliability := rfl
  unfold pushMessage
  rw [hmode]
  cases hm : m.reliability with
  | unreliable =>
    refine hguard fun _ => hunreliable q ?_
    exact congrArg (FrameSetPacket.fromPayload .unreliable) hgive
  | unreliableSequenced =>
    refine hguard fun _ => hunreliable (q.advanceSequenced m.channel) ?_
    exact congrArg (fun d => { FrameSetPacket.fromPayload .unreliableSequenced d with
      orderChannel := m.channel
      orderedFrameIndex := q.orderedFrameIndexes.get m.channel
      sequencedFrameIndex := q.sequencedFrameIndexes.get m.channel }) hgive
  | reliable =>
    refine hguard fun hlong => hreliable q ?_
    exact congrArg (FrameSetPacket.fromPayload .reliable) (hsingle (not_lt.mp hlong))
  | reliableOrdered =>
    by_cases hshort : m.payload.length ≤ limit
    · have hshort' : m.flat.payload.length ≤ limit := hshort
      simp only [if_pos hshort, if_pos hshort']
      refine congrArg Except.ok (congrArg (advanceOrdered · m.channel) (hreliable q ?_))
      exact congrArg (fun d => { FrameSetPacket.fromPayload .reliableOrdered d with
        orderChannel := m.channel
        orderedFrameIndex := q.orderedFrameIndexes.get m.channel }) (hsingle hshort)
    · have hshort' : ¬ m.flat.payload.length ≤ limit := hshort
      have hpieces : (m.payload.length + limit - 1) / limit ≤ 65536 := by
        unfold Message.count frameCount at hcount
        rwa [if_pos ⟨hm, not_le.mp hshort⟩] at hcount
      simp only [if_neg hshort, if_neg hshort']
      exact congrArg Except.ok
        (congrArg (advanceOrdered · m.channel) (pushFragments_flat q hlimit hpieces))
  | reliableSequenced =>
    refine hguard fun hlong => hreliable (q.advanceSequenced m.channel) ?_
    exact congrArg (fun d => { FrameSetPacket.fromPayload .reliableSequenced d with
      orderChannel := m.channel
      orderedFrameIndex := q.orderedFrameIndexes.get m.channel
      sequencedFrameIndex := q.sequencedFrameIndexes.get m.channel }) (hsingle (not_lt.mp hlong))

/-- **Insertion does not tell how the message was given**: the copying and the sharing insert fail
together, or lead to queues that hold the same frames. -/
theorem insertPayload_flat (q : SendQ) (m : Message) :
    (q.flat.insertPayload B m.flat).map flat = (q.insertPayload B m).map flat := by
  have hrequired : q.flat.requiredBytes m.flat.reliability m.flat.payload.length =
      q.requiredBytes m.reliability m.payload.length := rfl
  have hpayload : q.flat.maxPayload = q.maxPayload := rfl
  unfold insertPayload
  rw [hrequired, hpayload]
  cases hreserved : q.requiredBytes m.reliability m.payload.length with
  | error e => rfl
  | ok reserved =>
    simp only [ok_bind]
    show Except.map flat (if maxBufferedBytes - q.bufferedBytes < reserved then _ else _) = _
    by_cases hfull : maxBufferedBytes - q.bufferedBytes < reserved
    · rw [if_pos hfull, if_pos hfull]
    rw [if_neg hfull, if_neg hfull]
    cases hlimit : q.maxPayload with
    | error e => rfl
    | ok limit =>
      obtain ⟨rfl, -⟩ := maxPayload_ok hlimit
      have hlt : (q.mtu : ℕ) - 60 < 65536 := by
        have := q.mtu.isLt
        omega
      have hpush := pushMessage_flat (B := B) q hlt (requiredBytes_ok hreserved).2.2
      have hbook : ∀ {q q' : SendQ}, q'.flat = q.flat →
          (q'.book B m.flat reserved).flat = (q.book B m reserved).flat := by
        intro q q' hq
        have hcommute : ∀ (q : SendQ) (m : Message),
            (q.book B m reserved).flat = q.flat.book B m.flat reserved := by
          intro q m
          unfold book flat
          rw [List.map_append]
          rfl
        rw [hcommute, hcommute, hq]
        rfl
      simp only [ok_bind]
      cases hleft : q.flat.pushMessage B m.flat ((q.mtu : ℕ) - 60) with
      | error e =>
        cases hright : q.pushMessage B m ((q.mtu : ℕ) - 60) with
        | error e' =>
          rw [hleft, hright] at hpush
          exact hpush
        | ok q' =>
          rw [hleft, hright] at hpush
          cases hpush
      | ok q' =>
        cases hright : q.pushMessage B m ((q.mtu : ℕ) - 60) with
        | error e' =>
          rw [hleft, hright] at hpush
          cases hpush
        | ok q'' =>
          rw [hleft, hright] at hpush
          exact congrArg Except.ok (hbook (Except.ok.inj hpush))

end SendQ

/-! ### Whole runs -/

section runs

variable {B : Build}

def Op.flat : Op → Op
  | .insert m => .insert m.flat
  | op => op

theorem Run.flat_flat (r : Run) : r.flat.flat = r.flat := by
  have hqueue := SendQ.flat_flat r.queue
  unfold Run.flat
  rw [hqueue]
  simp only [OutgoingFrames.flat, List.map_map]
  rfl

theorem Run.queue_flat (r : Run) {q q' : SendQ} (hq : q'.flat = q.flat) :
    Run.flat { r.flat with queue := q' } = Run.flat { r with queue := q } := by
  have hflat : Run.flat { r.flat with queue := q' } = { r.flat.flat with queue := q'.flat } := rfl
  rw [hflat, r.flat_flat, hq]
  rfl

theorem Run.retire_flat (r : Run) (x : List Retired × SendQ) :
    (r.flat.retire (x.1.map Retired.flat, x.2.flat)).flat = (r.retire x).flat := by
  have hcommute : r.flat.retire (x.1.map Retired.flat, x.2.flat) = (r.retire x).flat := by
    simp only [Run.retire, Run.flat, List.map_append]
  rw [hcommute, Run.flat_flat]

theorem Run.insert_error {r : Run} {m : Message} {e : RaknetError}
    (h : r.queue.insertPayload B m = .error e) : r.step B (.insert m) = r := by
  unfold Run.step
  simp only [h]

theorem Run.insert_flat (r : Run) (m : Message) :
    (r.flat.step B (.insert m.flat)).flat = (r.step B (.insert m)).flat := by
  have hinsert := SendQ.insertPayload_flat (B := B) r.queue m
  have hflat : r.flat.queue = r.queue.flat := rfl
  rw [← hflat] at hinsert
  cases hleft : r.flat.queue.insertPayload B m.flat with
  | error e =>
    cases hright : r.queue.insertPayload B m with
    | error e' =>
      rw [Run.insert_error hleft, Run.insert_error hright]
      exact r.flat_flat
    | ok q' =>
      rw [hleft, hright] at hinsert
      cases hinsert
  | ok q' =>
    cases hright : r.queue.insertPayload B m with
    | error e' =>
      rw [hleft, hright] at hinsert
      cases hinsert
    | ok q'' =>
      rw [hleft, hright] at hinsert
      rw [Run.insert_ok hleft, Run.insert_ok hright]
      exact r.queue_flat (Except.ok.inj hinsert)

theorem Run.flush_flat (hB : B.KeySort) (r : Run) (tick : ℤ) :
    (r.flat.step B (.flush tick)).flat = (r.step B (.flush tick)).flat := by
  have hstep : ∀ r : Run, r.step B (.flush tick) =
      ⟨(r.queue.flush B tick).2, (r.queue.flush B tick).1,
        r.emitted ++ (r.queue.flush B tick).1.frames.filter (fun f => !f.isReliable), r.retired⟩ :=
    fun _ => rfl
  have hflat : r.flat.queue = r.queue.flat := rfl
  have hcommute : r.flat.step B (.flush tick) = (r.step B (.flush tick)).flat := by
    rw [hstep, hstep, hflat, SendQ.flush_flat hB]
    generalize r.queue.flush B tick = x
    simp only [Run.flat, OutgoingFrames.flat, List.map_append, List.filter_map]
    rfl
  rw [hcommute, Run.flat_flat]

theorem Run.configure_flat (r : Run) (options : SendOptions) :
    (r.flat.step B (.setSendOptions options)).flat = (r.step B (.setSendOptions options)).flat := by
  have hflat : r.flat.queue.setSendOptions options =
      (r.queue.setSendOptions options).map SendQ.flat := SendQ.setSendOptions_flat r.queue options
  unfold Run.step
  by_cases hpolicy : B.sendPolicy = true
  · simp only [hpolicy, if_true, hflat]
    cases r.queue.setSendOptions options with
    | error e => exact r.flat_flat
    | ok q' => exact r.queue_flat (SendQ.flat_flat q')
  · simp only [hpolicy, Bool.false_eq_true, if_false]
    exact r.flat_flat

/-- One operation, on queues that hold the same frames. -/
theorem Run.step_flat (hB : B.KeySort) (r : Run) (op : Op) :
    (r.flat.step B op.flat).flat = (r.step B op).flat := by
  cases op with
  | insert m => exact r.insert_flat m
  | flush tick => exact r.flush_flat hB tick
  | ack sequence tick =>
    show (r.flat.retire (r.queue.flat.ack B sequence tick)).flat = _
    rw [SendQ.ack_flat]
    exact r.retire_flat _
  | ackRanges ranges tick =>
    show (r.flat.retire (r.queue.flat.ackRanges B ranges tick)).flat = _
    rw [SendQ.ackRanges_flat]
    exact r.retire_flat _
  | nack sequence tick =>
    refine r.queue_flat ?_
    show (r.queue.flat.nack sequence tick).flat = _
    rw [SendQ.nack_flat, SendQ.flat_flat]
  | nackRanges ranges tick =>
    refine r.queue_flat ?_
    show (r.queue.flat.nackRanges ranges tick).flat = _
    rw [SendQ.nackRanges_flat, SendQ.flat_flat]
  | enableCoalescing =>
    have hcommute : r.queue.flat.enableCoalescing = r.queue.enableCoalescing.flat := rfl
    refine r.queue_flat ?_
    show r.queue.flat.enableCoalescing.flat = _
    rw [hcommute, SendQ.flat_flat]
  | setSendOptions options =>
    exact r.configure_flat options
  | setRecoveryOptions options now =>
    have hstep : ∀ r : Run, r.step B (.setRecoveryOptions options now) =
        if B.recoveryPolicy then { r with queue := r.queue.setRecoveryOptions options now } else r :=
      fun _ => rfl
    have hflat : r.flat.queue = r.queue.flat := rfl
    rw [Op.flat, hstep, hstep, hflat, SendQ.setRecoveryOptions_flat]
    · by_cases hpolicy : B.recoveryPolicy = true
      · rw [if_pos hpolicy, if_pos hpolicy]
        exact r.queue_flat (SendQ.flat_flat _)
      · rw [if_neg hpolicy, if_neg hpolicy]
        exact r.flat_flat
    · exact fun m hm => by cases hm

theorem foldl_flat (hB : B.KeySort) : ∀ (ops : List Op) {r r' : Run}, r'.flat = r.flat →
    (ops.foldl (Run.step B) r').flat = (ops.foldl (Run.step B) r).flat
  | [], _, _, h => h
  | op :: ops, r, r', h => by
    have hstep : (r'.step B op).flat = (r.step B op).flat := by
      rw [← Run.step_flat hB r', h, Run.step_flat hB r]
    exact foldl_flat hB ops hstep

end runs

/-! ### The fragments of a message -/

/-- The frames of a message that is cut: how they hold their pieces, that the bounds fit `u32` and
`u16`, that the pieces are the message, and that all but the last are full. -/
structure Fragments (limit : ℕ) (m : Message) (fs : List QueuedFrame) : Prop where
  views : fs.map (fun f => f.frame.data) = (List.range (m.count limit)).map (SendQ.view m limit)
  narrow : ∀ i < m.count limit,
    i * limit < 2 ^ 32 ∧ min limit (m.payload.length - i * limit) < 2 ^ 16
  whole : (fs.map fun f => f.frame.data.deref).flatten = m.payload
  full : ∀ f ∈ fs.dropLast, f.frame.data.len = limit

section fragments

variable {B : Build} {m : Message} {limit : ℕ}

/-- A frame without its reliable index. -/
def unindexed (f : FrameSetPacket) : FrameSetPacket := { f with reliableFrameIndex := 0 }

theorem foldl_pushReliable_frames (l : List FrameSetPacket) : ∀ q : SendQ, ∃ fs : List QueuedFrame,
    (l.foldl SendQ.pushReliable q).packets = q.packets ++ fs ∧
      fs.map (fun f => unindexed f.frame) = l.map unindexed := by
  induction l with
  | nil => exact fun q => ⟨[], (List.append_nil _).symm, rfl⟩
  | cons f l ih =>
    intro q
    obtain ⟨fs, hpackets, hframes⟩ := ih (q.pushReliable f)
    refine ⟨⟨{ f with reliableFrameIndex := q.reliableFrameIndex }, q.log.length, 0⟩ :: fs, ?_, ?_⟩
    · rw [List.foldl_cons, hpackets]
      show (q.packets ++ [_]) ++ fs = _
      rw [List.append_assoc]
      rfl
    · rw [List.map_cons, List.map_cons, hframes]
      rfl

theorem full_piece (h : m.Fragmented limit) {i : ℕ} (hi : i + 1 < m.count limit) :
    (i + 1) * limit ≤ m.payload.length := by
  unfold Message.count SendQ.frameCount at hi
  rw [if_pos ⟨h.1, h.2⟩] at hi
  have hmul := Nat.mul_le_of_le_div limit (i + 2) _ hi
  rw [Nat.succ_mul] at hmul
  omega

theorem fragments_of_views (hlimit : limit < 65536) (hpos : 0 < limit) (h : m.Fragmented limit)
    (hcount : m.count limit ≤ 65536) {fs : List QueuedFrame}
    (hviews : fs.map (fun f => f.frame.data) =
      (List.range (m.count limit)).map (SendQ.view m limit)) : Fragments limit m fs where
  views := hviews
  narrow i hi := ⟨SendQ.start_lt hlimit (hi.trans_le hcount), SendQ.length_view_lt hlimit _⟩
  whole := by
    have hderef : (fs.map fun f => f.frame.data.deref) =
        (List.range (m.count limit)).map fun i => (m.payload.drop (i * limit)).take limit := by
      have hmap := congrArg (List.map FramePayload.deref) hviews
      rw [List.map_map, List.map_map] at hmap
      exact hmap.trans (List.map_congr_left fun i _ => SendQ.deref_view)
    rw [hderef, Link.flatten_pieces, List.take_of_length_le (Link.length_le_count hpos h)]
  full f hf := by
    obtain ⟨n, hn⟩ := Nat.exists_eq_add_one.mpr (count_pos m hpos)
    have hdrop := congrArg List.dropLast hviews
    rw [← List.map_dropLast, ← List.map_dropLast, hn, List.range_succ, List.dropLast_concat] at hdrop
    have hmem : f.frame.data ∈ (List.range n).map (SendQ.view m limit) := by
      rw [← hdrop]
      exact List.mem_map_of_mem hf
    obtain ⟨i, hi, hview⟩ := List.mem_map.mp hmem
    have hlt := List.mem_range.mp hi
    have hfull := full_piece h (by omega : i + 1 < m.count limit)
    rw [Nat.succ_mul] at hfull
    rw [← hview, FramePayload.len, SendQ.deref_view, List.length_take, List.length_drop]
    omega

/-- Insertion queues the fragments of a message that is cut. -/
theorem insertPayload_cut {q q' : SendQ} (hinsert : q.insertPayload B m = .ok q')
    (h : m.Fragmented ((q.mtu : ℕ) - 60)) :
    60 < (q.mtu : ℕ) ∧ m.count ((q.mtu : ℕ) - 60) ≤ 65536 ∧
      ∃ fs : List QueuedFrame, q'.packets = q.packets ++ fs ∧
        fs.map (fun f => unindexed f.frame) = (List.range (m.count ((q.mtu : ℕ) - 60))).map fun i =>
          unindexed (q.fragmentFrame m ((q.mtu : ℕ) - 60) (m.count ((q.mtu : ℕ) - 60)) i) := by
  obtain ⟨reserved, hreserved, hinsert⟩ := bind_eq_ok.mp hinsert
  obtain ⟨-, hinsert⟩ := guard_eq_ok.mp hinsert
  obtain ⟨limit, hlimit, hinsert⟩ := bind_eq_ok.mp hinsert
  obtain ⟨pushed, hpushed, hinsert⟩ := bind_eq_ok.mp hinsert
  obtain rfl : _ = q' := Except.ok.inj hinsert
  obtain ⟨rfl, -⟩ := maxPayload_ok hlimit
  obtain ⟨-, hmtu, hcount⟩ := requiredBytes_ok hreserved
  have hsize : m.count ((q.mtu : ℕ) - 60) =
      (m.payload.length + ((q.mtu : ℕ) - 60) - 1) / ((q.mtu : ℕ) - 60) := if_pos h
  simp only [SendQ.pushMessage, h.1, if_neg (not_le.mpr h.2)] at hpushed
  obtain rfl : _ = pushed := Except.ok.inj hpushed
  obtain ⟨fs, hpackets, hframes⟩ := foldl_pushReliable_frames
    ((List.range (m.count ((q.mtu : ℕ) - 60))).map
      (q.fragmentFrame m ((q.mtu : ℕ) - 60) (m.count ((q.mtu : ℕ) - 60))))
    (q.share (m.count ((q.mtu : ℕ) - 60)))
  rw [List.map_map] at hframes
  refine ⟨hmtu, hcount, fs, ?_, hframes⟩
  rw [hsize] at hpackets
  exact hpackets

theorem insertPayload_fragments {q q' : SendQ} (hinsert : q.insertPayload B m = .ok q')
    (h : m.Fragmented ((q.mtu : ℕ) - 60)) :
    ∃ fs, q'.packets = q.packets ++ fs ∧ Fragments ((q.mtu : ℕ) - 60) m fs := by
  obtain ⟨hmtu, hcount, fs, hpackets, hframes⟩ := insertPayload_cut hinsert h
  have hlt : (q.mtu : ℕ) - 60 < 65536 := by
    have := q.mtu.isLt
    omega
  refine ⟨fs, hpackets, fragments_of_views hlt (by omega) h hcount ?_⟩
  have hdata := congrArg (List.map FrameSetPacket.data) hframes
  rw [List.map_map, List.map_map] at hdata
  refine hdata.trans (List.map_congr_left fun i hi => ?_)
  exact SendQ.fragmentFrame_data q m _ hlt ((List.mem_range.mp hi).trans_le hcount)

end fragments

/-! ### The two inserts -/

/-- The same operations lead both queues to the same frames and the same budget, and every burst is
transmitted in the same bytes. -/
def Indistinguishable (B : Build) (q q' : SendQ) : Prop :=
  ∀ (r : Run) (ops : List Op),
    let s := ops.foldl (Run.step B) { r with queue := q }
    let s' := ops.foldl (Run.step B) { r with queue := q' }
    s.queue.flat = s'.queue.flat ∧ s.queue.bufferedBytes = s'.queue.bufferedBytes ∧
      ∀ path, (place B s.output path).map wire = (place B s'.output path).map wire

theorem indistinguishable_of_flat {B : Build} (hB : B.KeySort) {q q' : SendQ}
    (h : q.flat = q'.flat) : Indistinguishable B q q' := by
  intro r ops s s'
  have hstart : Run.flat { r with queue := q } = Run.flat { r with queue := q' } := by
    unfold Run.flat
    rw [h]
  have hrun : s.flat = s'.flat := foldl_flat hB ops hstart
  have hqueue : s.queue.flat = s'.queue.flat := congrArg Run.queue hrun
  have houtput : s.output.flat = s'.output.flat := congrArg Run.output hrun
  have hbudget : s.queue.flat.bufferedBytes = s'.queue.flat.bufferedBytes := by rw [hqueue]
  refine ⟨hqueue, hbudget, fun path => ?_⟩
  rw [← place_flat B s.output, houtput, place_flat]

/-- **`insert_bytes` and `insert_with_order_channel` agree** from every state: both fail with one
error, or lead to queues that no operation tells apart. A message that is cut is held in slices of
the buffer or in views of one copy, with the same pieces. -/
theorem insert_bytes_agrees {B : Build} (hB : B.KeySort) (q : SendQ) (reliability : Reliability)
    (data : Bytes) (channel : Fin 256) :
    (∃ e, q.insertBytes B reliability data channel = .error e ∧
      q.insertWithOrderChannel B reliability data channel = .error e) ∨
    ∃ shared copied, q.insertBytes B reliability data channel = .ok shared ∧
      q.insertWithOrderChannel B reliability data channel = .ok copied ∧
      Indistinguishable B shared copied ∧
      (reliability = .reliableOrdered → (q.mtu : ℕ) - 60 < data.length →
        (∃ slices, shared.packets = q.packets ++ slices ∧
          Fragments ((q.mtu : ℕ) - 60) ⟨reliability, channel, data, true⟩ slices) ∧
        ∃ views, copied.packets = q.packets ++ views ∧
          Fragments ((q.mtu : ℕ) - 60) ⟨reliability, channel, data, false⟩ views) := by
  have hshared := SendQ.insertPayload_flat (B := B) q ⟨reliability, channel, data, true⟩
  have hcopied := SendQ.insertPayload_flat (B := B) q ⟨reliability, channel, data, false⟩
  have hsame : (q.insertBytes B reliability data channel).map SendQ.flat =
      (q.insertWithOrderChannel B reliability data channel).map SendQ.flat :=
    hshared.symm.trans hcopied
  cases hleft : q.insertBytes B reliability data channel with
  | error e =>
    cases hright : q.insertWithOrderChannel B reliability data channel with
    | error e' =>
      rw [hleft, hright] at hsame
      exact .inl ⟨e, rfl, congrArg Except.error (Except.error.inj hsame).symm⟩
    | ok copied =>
      rw [hleft, hright] at hsame
      cases hsame
  | ok shared =>
    cases hright : q.insertWithOrderChannel B reliability data channel with
    | error e' =>
      rw [hleft, hright] at hsame
      cases hsame
    | ok copied =>
      rw [hleft, hright] at hsame
      refine .inr ⟨shared, copied, rfl, rfl, indistinguishable_of_flat hB (Except.ok.inj hsame), ?_⟩
      intro hmode hlong
      exact ⟨insertPayload_fragments hleft ⟨hmode, hlong⟩,
        insertPayload_fragments hright ⟨hmode, hlong⟩⟩

theorem keySort_insertion (sendPolicy recoveryPolicy : Bool) :
    (Build.insertion sendPolicy recoveryPolicy).KeySort := by
  intro f hf l
  exact (List.map_insertionSort _ _ f l fun a _ b _ => by rw [hf, hf]).symm

/-- A message in three fragments, by both ways. -/
theorem insert_bytes_agrees_fragments :
    ∃ shared copied, (SendQ.new 100).insertBytes (.insertion true true) .reliableOrdered
        (List.replicate 100 7) 3 = .ok shared ∧
      (SendQ.new 100).insertWithOrderChannel (.insertion true true) .reliableOrdered
        (List.replicate 100 7) 3 = .ok copied ∧
      Indistinguishable (.insertion true true) shared copied := by
  have hok : ((SendQ.new 100).insertBytes (.insertion true true) .reliableOrdered
      (List.replicate 100 7) 3).toBool = true := by decide +kernel
  rcases insert_bytes_agrees (keySort_insertion true true) (SendQ.new 100) .reliableOrdered
    (List.replicate 100 7) 3 with ⟨e, he, -⟩ | ⟨shared, copied, hshared, hcopied, h, -⟩
  · rw [he] at hok
    cases hok
  · exact ⟨shared, copied, hshared, hcopied, h⟩

end RustRaknet.Send
