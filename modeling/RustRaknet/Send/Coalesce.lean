import RustRaknet.Send.Batch
import RustRaknet.Send.Lanes
import RustRaknet.Send.Stowage

/-! # A batch that can be packed is packed

`batch_can_coalesce` promises that two neighbours of a batch fit one datagram. The packing of `flush`
is greedy: a frame joins the group before it or starts a new one. So when the second neighbour comes,
either the first one has already joined a group, or it has started the group that the second one
joins (`Filling.launch`). Both loops of a flush send the frames of the batch one after the other in
this way, as long as the window and the budgets have room for them (`sendLoop_filling`,
`Lone.rounds`). -/

namespace RustRaknet.Send

open RustRaknet.Frame RustRaknet.Lib.Result

/-! ### The frames of a batch -/

/-- Two packable frames that fit one datagram. -/
def Fit (mtu : ℕ) (f g : QueuedFrame) : Prop :=
  f.packable = true ∧ g.packable = true ∧ f.size + (g.size - 4) ≤ mtu - 28

/-- The frames of one ordered message: a single packable frame, or fragments. -/
structure Framed (limit number : ℕ) (m : Message) (frames : List QueuedFrame) : Prop where
  reliable : ∀ f ∈ frames, f.isReliable = true
  message : ∀ f ∈ frames, f.message = number
  whole : m.payload.length ≤ limit →
    ∃ f, frames = [f] ∧ f.packable = true ∧ f.size = m.payload.length + 14
  fragments : limit < m.payload.length → ∀ f ∈ frames, f.packable = false

/-- What an insertion of an ordered message leaves as it was. -/
def SendQ.setting (q : SendQ) : Fin 65536 × List InFlight × Bool × Option SendScheduler :=
  (q.mtu, q.sentPacket, q.coalesce, q.scheduler)

section frames

variable {B : Build} {q q' : SendQ} {m : Message}

theorem mode_of_flags {f : QueuedFrame} (fragment : Bool)
    (h : f.frame.flags = Reliability.reliableOrdered.toU8 <<< 5 ||| if fragment then 16 else 0) :
    f.isReliable = true ∧ f.packable = !fragment ∧
      (fragment = false → f.size = f.frame.data.len + 14) := by
  have hmode : f.frame.reliability = .ok .reliableOrdered ∧ f.frame.isFragment = fragment := by
    unfold FrameSetPacket.reliability FrameSetPacket.isFragment
    rw [h]
    cases fragment <;> exact ⟨rfl, rfl⟩
  refine ⟨?_, ?_, ?_⟩
  · simp [QueuedFrame.isReliable, FrameSetPacket.isReliable, hmode.1, Reliability.isReliable]
  · simp [QueuedFrame.packable, hmode.1, hmode.2]
  · rintro rfl
    simp only [QueuedFrame.size, FrameSetPacket.size, hmode.1, hmode.2, map_ok,
      FrameSetPacket.sizeOf, Reliability.isReliable, Reliability.isSequenced, Reliability.isOrdered,
      Bool.false_eq_true, if_true, if_false]
    omega

theorem pushReliable_foldl : ∀ (frames : List FrameSetPacket) (q : SendQ),
    ∃ queued, (frames.foldl SendQ.pushReliable q).packets = q.packets ++ queued ∧
      (frames.foldl SendQ.pushReliable q).setting = q.setting ∧
      (frames.foldl SendQ.pushReliable q).log = q.log ∧
      ∀ f ∈ queued, f.message = q.log.length ∧ ∃ frame ∈ frames, f.frame.flags = frame.flags
  | [], q => ⟨[], by simp, rfl, rfl, by simp⟩
  | frame :: frames, q => by
    obtain ⟨queued, hpackets, hsetting, hlog, hqueued⟩ :=
      pushReliable_foldl frames (q.pushReliable frame)
    refine ⟨_ :: queued, hpackets.trans (List.append_assoc _ _ _), hsetting, hlog, fun f hf => ?_⟩
    rcases List.mem_cons.mp hf with rfl | hf
    · exact ⟨rfl, frame, List.mem_cons_self, rfl⟩
    · obtain ⟨hmessage, other, hother, hflags⟩ := hqueued f hf
      exact ⟨hmessage, other, List.mem_cons_of_mem _ hother, hflags⟩

theorem reliablePayload_len (h : m.payload.length < 65536) :
    (SendQ.reliablePayload m).len = m.payload.length := by
  unfold SendQ.reliablePayload FramePayload.len
  split_ifs
  · rfl
  · rw [deref_copyShared h]

theorem insertPayload_framed (hm : m.reliability = .reliableOrdered)
    (h : q.insertPayload B m = .ok q') :
    q'.setting = q.setting ∧ q'.log = q.log ++ [m] ∧
      ∃ frames, q'.packets = q.packets ++ frames ∧
        Framed ((q.mtu : ℕ) - 60) q.log.length m frames := by
  obtain ⟨reserved, limit, pushed, -, -, hlimit, hpush, rfl⟩ := insertPayload_ok h
  obtain ⟨rfl, -⟩ := maxPayload_ok hlimit
  unfold SendQ.pushMessage at hpush
  simp only [hm] at hpush
  by_cases hlen : m.payload.length ≤ (q.mtu : ℕ) - 60
  · rw [if_pos hlen] at hpush
    obtain rfl := Except.ok.inj hpush
    have hshort : m.payload.length < 65536 := by have := q.mtu.isLt; omega
    have hmode := fun (f : QueuedFrame) h => mode_of_flags (f := f) false h
    refine ⟨rfl, rfl, [_], rfl, fun f hf => ?_, fun f hf => ?_, fun _ => ⟨_, rfl, ?_, ?_⟩,
      fun hlong => ?_⟩
    · rw [List.mem_singleton.mp hf]
      exact (hmode _ rfl).1
    · rw [List.mem_singleton.mp hf]
    · exact (hmode _ rfl).2.1
    · rw [(hmode _ rfl).2.2 rfl, ← reliablePayload_len hshort]
      rfl
    · omega
  · rw [if_neg hlen] at hpush
    obtain rfl := Except.ok.inj hpush
    unfold SendQ.pushFragments
    simp only
    generalize (m.payload.length + ((q.mtu : ℕ) - 60) - 1) / ((q.mtu : ℕ) - 60) = n
    obtain ⟨queued, hpackets, hsetting, hlog, hqueued⟩ := pushReliable_foldl
      ((List.range n).map (q.fragmentFrame m ((q.mtu : ℕ) - 60) n)) (q.share n)
    have hmode : ∀ f ∈ queued, f.message = q.log.length ∧ f.isReliable = true ∧
        f.packable = false := by
      intro f hf
      obtain ⟨hmessage, frame, hframe, hflags⟩ := hqueued f hf
      obtain ⟨i, -, rfl⟩ := List.mem_map.mp hframe
      obtain ⟨hreliable, hpackable, -⟩ := mode_of_flags true hflags
      exact ⟨hmessage, hreliable, hpackable⟩
    refine ⟨hsetting, congrArg (· ++ [m]) hlog, queued, hpackets, fun f hf => (hmode f hf).2.1,
      fun f hf => (hmode f hf).1, fun hle => absurd hle hlen, fun _ f hf => (hmode f hf).2.2⟩

/-- The frames of the messages of a batch, the first of which has the number `number`. -/
inductive FramedAll (limit : ℕ) : ℕ → List Message → List QueuedFrame → Prop
  | nil {number : ℕ} : FramedAll limit number [] []
  | cons {number : ℕ} {m : Message} {batch : List Message} {frames rest : List QueuedFrame}
      (h : Framed limit number m frames) (hrest : FramedAll limit (number + 1) batch rest) :
      FramedAll limit number (m :: batch) (frames ++ rest)

theorem insertAll_framed : ∀ {batch : List Message} {q q' : SendQ},
    (∀ m ∈ batch, m.reliability = .reliableOrdered) → q.insertAll B batch = .ok q' →
    q'.setting = q.setting ∧ q'.log = q.log ++ batch ∧
      ∃ frames, q'.packets = q.packets ++ frames ∧
        FramedAll ((q.mtu : ℕ) - 60) q.log.length batch frames
  | [], q, q', _, h => by
    obtain rfl := Except.ok.inj h
    exact ⟨rfl, (List.append_nil _).symm, [], (List.append_nil _).symm, .nil⟩
  | m :: batch, q, q', hbatch, h => by
    unfold SendQ.insertAll at h
    rw [List.foldlM_cons, bind_eq_ok] at h
    obtain ⟨q₁, hinsert, hall⟩ := h
    obtain ⟨hfirst, hbatch⟩ := List.forall_mem_cons.mp hbatch
    obtain ⟨hsetting₁, hlog₁, frames, hpackets₁, hframed⟩ := insertPayload_framed hfirst hinsert
    obtain ⟨hsetting, hlog, rest, hpackets, hrest⟩ := insertAll_framed hbatch hall
    have hmtu : q₁.mtu = q.mtu := congrArg Prod.fst hsetting₁
    refine ⟨hsetting.trans hsetting₁, ?_, frames ++ rest, ?_, .cons hframed ?_⟩
    · rw [hlog, hlog₁, List.append_assoc]
      rfl
    · rw [hpackets, hpackets₁, List.append_assoc]
    · rw [hmtu, hlog₁, List.length_append, List.length_singleton] at hrest
      exact hrest

namespace FramedAll

variable {limit number : ℕ} {batch : List Message} {frames : List QueuedFrame}

theorem reliable (h : FramedAll limit number batch frames) : ∀ f ∈ frames, f.isReliable = true := by
  induction h with
  | nil => exact fun f hf => absurd hf List.not_mem_nil
  | cons h hrest ih =>
    intro f hf
    rcases List.mem_append.mp hf with hf | hf
    · exact h.reliable f hf
    · exact ih f hf

theorem message (h : FramedAll limit number batch frames) :
    ∀ f ∈ frames, number ≤ f.message ∧ f.message < number + batch.length := by
  induction h with
  | nil => exact fun f hf => absurd hf List.not_mem_nil
  | cons h hrest ih =>
    intro f hf
    rw [List.length_cons]
    rcases List.mem_append.mp hf with hf | hf
    · have := h.message f hf
      omega
    · have := ih f hf
      omega

theorem later (h : FramedAll limit number batch frames) :
    frames.Pairwise fun f g => f.packable = true → f.message < g.message := by
  induction h with
  | nil => exact .nil
  | @cons number m batch frames rest h hrest ih =>
    refine List.pairwise_append.mpr ⟨?_, ih, fun f hf g hg _ => ?_⟩
    · by_cases hlen : m.payload.length ≤ limit
      · obtain ⟨f, rfl, -⟩ := h.whole hlen
        exact List.pairwise_singleton _ _
      · refine List.Pairwise.imp_of_mem (R := fun _ _ => True) (fun hf _ _ hpackable => ?_)
          (List.pairwise_of_forall fun _ _ => trivial)
        exact absurd (hpackable.symm.trans (h.fragments (not_le.mp hlen) _ hf)) (by simp)
    · have hfirst := h.message f hf
      have hnext := (hrest.message g hg).1
      omega

/-- Two neighbours of the batch that fit one datagram are two neighbours of the frames. -/
theorem fit {mtu : ℕ} (h : FramedAll (mtu - 60) number batch frames)
    (hpair : ∃ a b, [a, b] <:+: batch.map (fun m => m.payload.length) ∧ a ≤ mtu - 60 ∧
      b ≤ mtu - 60 ∧ a + b + 24 ≤ mtu - 28) : ∃ f g, [f, g] <:+: frames ∧ Fit mtu f g := by
  induction h with
  | nil =>
    obtain ⟨a, b, hinfix, -⟩ := hpair
    exact absurd hinfix (by simp)
  | @cons number m batch frames rest h hrest ih =>
    obtain ⟨a, b, hinfix, ha, hb, hsum⟩ := hpair
    rw [List.map_cons, List.infix_cons_iff] at hinfix
    rcases hinfix with hhead | hlater
    · -- the first message is the first neighbour
      obtain ⟨rfl, hsecond⟩ := List.cons_prefix_cons.mp hhead
      obtain ⟨f, rfl, hf, hsize⟩ := h.whole ha
      cases hrest with
      | nil => exact absurd hsecond (by simp)
      | @cons _ m' batch frames' rest' h' hrest' =>
        obtain ⟨rfl, -⟩ := List.cons_prefix_cons.mp hsecond
        obtain ⟨g, rfl, hg, hsize'⟩ := h'.whole hb
        refine ⟨f, g, ⟨[], rest', rfl⟩, hf, hg, ?_⟩
        simp only at hsum
        omega
    · obtain ⟨f, g, hfg, hfit⟩ := ih ⟨a, b, hlater, ha, hb, hsum⟩
      exact ⟨f, g, hfg.trans (List.suffix_append _ _).isInfix, hfit⟩

end FramedAll

end frames

/-! ### The packing of a burst -/

/-- Two neighbours of the output are in one datagram, and come from two neighbours of `frames`. -/
def Paired (frames : List QueuedFrame) (o : OutgoingFrames) : Prop :=
  o.coalesced = true ∧ ∃ h k f g, [h, k] <:+: o.frames ∧ [f, g] <:+: frames ∧
    h.body = f.body ∧ k.body = g.body ∧ f.packable = true ∧ g.packable = true ∧
    h.frame.sequenceNumber = k.frame.sequenceNumber ∧ h.datagram = k.datagram

/-- The group that the next frame may join: it holds the last frame alone, if that is packable. -/
def Opened (done : List QueuedFrame) (s : Burst) : Prop :=
  (done.getLast?.any QueuedFrame.packable = false ∧ s.group.sequence = none) ∨
    ∃ f h, done.getLast? = some f ∧ f.packable = true ∧ s.output.frames.getLast? = some h ∧
      h.body = f.body ∧ s.group = ⟨some h.frame.sequenceNumber, h.datagram, f.size, 1⟩

/-- A burst that has sent some of the frames of a batch. Either two of them are in one datagram, or
no two neighbours fit one. -/
structure Filling (mtu : ℕ) (frames : List QueuedFrame) (s : Burst) : Prop where
  coalesce : s.queue.coalesce = true
  limit : (s.queue.mtu : ℕ) = mtu
  sent : ∃ done, frames = done ++ s.queue.packets ∧
    (Paired frames s.output ∨ done.IsChain (fun f g => ¬ Fit mtu f g) ∧ Opened done s)

section filling

variable {mtu : ℕ} {frames rest : List QueuedFrame} {f : QueuedFrame} {s : Burst} {tick : ℤ}

theorem Paired.push {o : OutgoingFrames} (h : Paired frames o) (f : QueuedFrame) :
    Paired frames (o.push f) := by
  obtain ⟨hcoalesced, h₁, h₂, f₁, f₂, hout, hrest⟩ := h
  exact ⟨hcoalesced, h₁, h₂, f₁, f₂, hout.trans (List.prefix_append _ _).isInfix, hrest⟩

theorem Opened.start (done : List QueuedFrame) (s : Burst) (f : QueuedFrame)
    (rest : List QueuedFrame) : Opened (done ++ [f])
      (((s.pop rest).start f.packable f).2.launch tick ((s.pop rest).start f.packable f).1) := by
  cases hf : f.packable with
  | false => exact .inl ⟨by simp [hf], rfl⟩
  | true =>
    exact .inr ⟨f, f.numbered s.queue.sequenceNumber s.queue.allocated, by simp, hf,
      List.getLast?_concat, rfl, rfl⟩

theorem isChain_snoc {α : Type*} {R : α → α → Prop} {l : List α} {a : α} (h : l.IsChain R)
    (hlast : ∀ b, l.getLast? = some b → R b a) : (l ++ [a]).IsChain R :=
  List.isChain_append.mpr ⟨h, .singleton a, fun b hb c hc => by
    obtain rfl := Option.some.inj hc
    exact hlast b hb⟩

/-- **A frame of the batch is sent.** -/
theorem Filling.launch (h : Filling mtu frames s) (hpackets : s.queue.packets = f :: rest)
    (tick : ℤ) :
    Filling mtu frames
      (((s.pop rest).assign f.packable f).2.launch tick ((s.pop rest).assign f.packable f).1) := by
  obtain ⟨done, hframes, hsent⟩ := h.sent
  rw [hpackets] at hframes
  have hdone : frames = (done ++ [f]) ++ rest := by rw [hframes, List.append_assoc]; rfl
  -- the frame joins the group, or it starts one
  by_cases hjoin : ∃ x, s.group.sequence = some x ∧ f.packable = true ∧
      s.group.frames < maxCoalescedFrames ∧ s.group.bytes + (f.size - 4) ≤ mtu - 28
  · obtain ⟨x, hx, hf, hcount, hbytes⟩ := hjoin
    have hassign : (s.pop rest).assign f.packable f = (s.pop rest).join x f := by
      unfold Burst.assign
      rw [show (s.pop rest).group = s.group from rfl, hx]
      exact if_pos ⟨hf, hcount, h.limit ▸ hbytes⟩
    rw [hassign]
    refine ⟨h.coalesce, h.limit, done ++ [f], hdone, .inl ?_⟩
    rcases hsent with hpaired | ⟨-, hopened⟩
    · obtain ⟨-, h₁, h₂, f₁, f₂, hout, hpair⟩ := hpaired.push (f.numbered x s.group.datagram)
      exact ⟨rfl, h₁, h₂, f₁, f₂, hout, hpair⟩
    · rcases hopened with ⟨-, hnone⟩ | ⟨e, k, hlast, he, hout, hbody, hgroup⟩
      · exact absurd (hnone.symm.trans hx) (by simp)
      · obtain ⟨done', rfl⟩ := List.getLast?_eq_some_iff.mp hlast
        obtain ⟨out', hout'⟩ := List.getLast?_eq_some_iff.mp hout
        have hdatagram : s.group.datagram = k.datagram := by rw [hgroup]
        rw [hgroup] at hx
        refine ⟨rfl, k, f.numbered x s.group.datagram, e, f, ⟨out', [], ?_⟩, ⟨done', rest, ?_⟩, hbody,
          rfl, he, hf, Option.some.inj hx, hdatagram.symm⟩
        · show out' ++ [k, _] ++ [] = s.output.frames ++ [_]
          rw [hout', List.append_nil, List.append_assoc]
          rfl
        · rw [hframes]
          simp
  · have hassign : (s.pop rest).assign f.packable f = (s.pop rest).start f.packable f := by
      unfold Burst.assign
      rw [show (s.pop rest).group = s.group from rfl]
      cases hx : s.group.sequence with
      | none => rfl
      | some x =>
        exact if_neg fun hc => hjoin ⟨x, hx, hc.1, hc.2.1, h.limit ▸ hc.2.2⟩
    rw [hassign]
    refine ⟨h.coalesce, h.limit, done ++ [f], hdone, ?_⟩
    refine hsent.imp (fun hpaired => hpaired.push _) fun ⟨hchain, hopened⟩ => ⟨?_, .start _ _ _ _⟩
    refine isChain_snoc hchain fun e hlast hfit => ?_
    rcases hopened with ⟨hpackable, -⟩ | ⟨e', k, hlast', he, hout, hbody, hgroup⟩
    · rw [hlast] at hpackable
      exact absurd (hfit.1.symm.trans hpackable) (by simp)
    · obtain rfl := Option.some.inj (hlast.symm.trans hlast')
      refine hjoin ⟨k.frame.sequenceNumber, by rw [hgroup], hfit.2.1, ?_, ?_⟩
      · rw [hgroup]
        exact (by decide : 1 < maxCoalescedFrames)
      · rw [hgroup]
        exact hfit.2.2

theorem Filling.paired (h : Filling mtu frames s) (hpackets : s.queue.packets = [])
    (hfit : ∃ f g, [f, g] <:+: frames ∧ Fit mtu f g) : Paired frames s.output := by
  obtain ⟨done, hframes, hpaired | ⟨hchain, -⟩⟩ := h.sent
  · exact hpaired
  · obtain ⟨f, g, hinfix, hfg⟩ := hfit
    rw [hframes, hpackets, List.append_nil] at hinfix
    have hpair := hchain.infix hinfix
    exact absurd hfg (List.isChain_cons_cons.mp hpair).1

theorem Filling.begin (hpackets : s.queue.packets = frames) (hcoalesce : s.queue.coalesce = true)
    (hmtu : (s.queue.mtu : ℕ) = mtu) (hgroup : s.group = .empty) : Filling mtu frames s :=
  ⟨hcoalesce, hmtu, [], hpackets.symm, .inr ⟨.nil, .inl ⟨rfl, by rw [hgroup]; rfl⟩⟩⟩

/-! ### The two loops -/

theorem sendLoop_filling (tick : ℤ) : ∀ (n : ℕ) {s : Burst}, Filling mtu frames s →
    s.queue.packets.length = n → (∀ f ∈ s.queue.packets, f.isReliable = true) →
    s.queue.sentPacket.length + n ≤ maxInFlightPackets →
    Filling mtu frames (s.sendLoop tick n) ∧ (s.sendLoop tick n).queue.packets = []
  | 0, s, h, hlength, _, _ => ⟨h, List.length_eq_zero_iff.mp hlength⟩
  | n + 1, s, h, hlength, hreliable, hroom => by
    obtain ⟨f, rest, hpackets⟩ := List.exists_cons_of_length_eq_add_one hlength
    have hf : f.isReliable = true := hreliable f (hpackets ▸ List.mem_cons_self)
    have hone : s.sendOne tick = some
        (((s.pop rest).assign f.packable f).2.launch tick ((s.pop rest).assign f.packable f).1) := by
      unfold Burst.sendOne
      rw [if_neg (by omega), hpackets]
      simp only [hf, h.coalesce, if_true]
      rw [if_neg (by simp; omega)]
    have hnumber := assign_numbering s f.packable f rest
    unfold Burst.sendLoop
    rw [hone]
    refine sendLoop_filling tick n (h.launch hpackets tick) ?_ ?_ ?_
    · show List.length (_ : SendQ).packets = n
      rw [show (((s.pop rest).assign f.packable f).2.launch tick
        ((s.pop rest).assign f.packable f).1).queue.packets = rest from hnumber.packets]
      rw [hpackets] at hlength
      simpa using hlength
    · intro g hg
      refine hreliable g (hpackets ▸ List.mem_cons_of_mem f ?_)
      rw [← hnumber.packets]
      exact hg
    · have hflight : (((s.pop rest).assign f.packable f).2.launch tick
          ((s.pop rest).assign f.packable f).1).queue.sentPacket.length =
          s.queue.sentPacket.length + 1 := by
        simp [Burst.launch, hnumber.flight]
      omega

/-- A round in which only the new frames of a batch are left, and there is room for all of them. -/
structure Lone (mtu : ℕ) (frames : List QueuedFrame) (r : Round) : Prop where
  filling : Filling mtu frames r.burst
  unreliable : r.scheduler.unreliable = []
  flight : ∀ p ∈ r.burst.queue.sentPacket, p.sent = true
  reliable : ∀ f ∈ r.burst.queue.packets, f.isReliable = true
  window : r.burst.queue.sentPacket.length + r.burst.queue.packets.length ≤
    r.scheduler.options.inFlightFrames
  bytes : r.flightBytes + (r.burst.queue.packets.map QueuedFrame.size).sum ≤
    r.scheduler.options.inFlightBytes
  budget : r.bytes + (r.burst.queue.packets.map QueuedFrame.size).sum ≤
    r.scheduler.options.flushBytes

namespace Lone

variable {r r' : Round} {probeSequence : Option ℕ} {lane charge : ℕ}

theorem advance (h : Lone mtu frames r) (lane : ℕ) : Lone mtu frames (r.advance lane) := by
  obtain ⟨retryCursor, hadvance⟩ := Round.advance_eq lane r
  rw [hadvance]
  exact { h with }

/-- Only a new frame can be sent. -/
theorem serves (h : Lone mtu frames r) (hserves : Round.Serves probeSequence tick r lane charge r') :
    Lone mtu frames r' := by
  cases hserves with
  | unreliable hunreliable => exact absurd (h.unreliable.symm.trans hunreliable) (by simp)
  | retry hpending hwaits =>
    exact absurd ((h.flight _ (List.mem_of_getElem? hwaits.1)).symm.trans hwaits.2.1) (by simp)
  | @new lane f rest hlane hpackets hframes hbytes =>
    have hnumber : r.newNumber f rest = (r.burst.pop rest).assign f.packable f := by
      unfold Round.newNumber
      rw [h.filling.coalesce, Bool.true_and]
    have hlaunch := h.filling.launch hpackets tick
    have heffect := assign_numbering r.burst f.packable f rest
    rw [Round.sendNew_eq hpackets, hnumber]
    generalize (r.burst.pop rest).assign f.packable f = g at hlaunch heffect
    have hrest : (g.2.launch tick g.1).queue.packets = rest := heffect.packets
    have hflight : (g.2.launch tick g.1).queue.sentPacket =
        r.burst.queue.sentPacket ++ [⟨g.1, true, tick, 0, [], []⟩] := by
      rw [← heffect.flight]
      rfl
    have hreliable := h.reliable
    have hwindow := h.window
    have hroom := h.bytes
    have hbudget := h.budget
    simp only [hpackets, List.length_cons, List.map_cons, List.sum_cons]
      at hreliable hwindow hroom hbudget
    refine ⟨hlaunch, h.unreliable, fun p hp => ?_, fun k hk => hreliable k ?_, ?_, ?_, ?_⟩
    · rcases List.mem_append.mp (hflight ▸ hp) with hp | hp
      · exact h.flight p hp
      · rw [List.mem_singleton.mp hp]
    · exact List.mem_cons_of_mem f (hrest ▸ hk)
    · simp only [Round.charged, hrest, hflight, List.length_append, List.length_singleton]
      omega
    · simp only [Round.charged, hrest]
      omega
    · simp only [Round.charged, hrest]
      omega

theorem head (h : Lone mtu frames r) {lane : ℕ} (hhead : r.head lane = some charge) :
    0 < charge := by
  obtain ⟨f, hf, rfl⟩ := Round.head_mem hhead
  match lane with
  | 0 =>
    rw [Round.frames, h.unreliable] at hf
    exact absurd hf List.not_mem_nil
  | 1 =>
    obtain ⟨p, hp, -⟩ := List.mem_map.mp hf
    obtain ⟨hmem, hsent⟩ := List.mem_filter.mp hp
    simp [h.flight p hmem] at hsent
  | n + 2 => exact size_pos (h.reliable f hf)

theorem packets_nil (h : Lone mtu frames r) (hstuck : r.Stuck 2) : r.burst.queue.packets = [] := by
  cases hpackets : r.burst.queue.packets with
  | nil => rfl
  | cons f rest =>
    have hwindow := h.window
    have hroom := h.bytes
    have hbudget := h.budget
    simp only [hpackets, List.length_cons, List.map_cons, List.sum_cons] at hwindow hroom hbudget
    refine absurd ⟨?_, ?_⟩ (hstuck f.size)
    · rw [Round.head_new le_rfl, hpackets]
      exact if_pos ⟨by omega, by omega⟩
    · omega

theorem rounds {quantum : ℕ} {trace : List ℕ} (h : Lone mtu frames r) (hquantum : 0 < quantum)
    (hrun : Round.RoundsRun probeSequence tick quantum r trace r') :
    Filling mtu frames r'.burst ∧ r'.burst.queue.packets = [] := by
  have hend : Lone mtu frames r' :=
    hrun.preserves (I := fun _ r => Lone mtu frames r)
      (fun h => { h with }) (fun lane h => h.advance lane) (fun _ h _ hserves => h.serves hserves) [] h
  have hstuck := hrun.stuck hquantum fun lane charge hhead => hend.head hhead
  exact ⟨hend.filling, hend.packets_nil (hstuck 2 (by omega))⟩

end Lone

end filling

/-! ### The flush of a batch -/

/-- The window and the budgets have room for all queued frames. -/
structure SendQ.HasRoom (q : SendQ) : Prop where
  legacy : q.scheduler.all (fun s => s.useLegacy && s.unreliable.isEmpty) = true →
    q.packets.length ≤ maxInFlightPackets
  scheduled : ∀ s, q.scheduler = some s → (!s.useLegacy || !s.unreliable.isEmpty) = true →
    q.packets.length ≤ s.options.inFlightFrames ∧
    (q.packets.map QueuedFrame.size).sum ≤ s.options.inFlightBytes ∧
    (q.packets.map QueuedFrame.size).sum ≤ s.options.flushBytes

section flush

variable {B : Build} {q : SendQ} {tick : ℤ}

/-- With an empty flight there is nothing to prepare. -/
theorem prepared_setting (h : q.sentPacket = []) (tick : ℤ) :
    (q.prepared B tick).setting = q.setting ∧ (q.prepared B tick).packets = q.packets := by
  obtain ⟨nextRetry, recovery, hentered⟩ := entered_eq B q tick
  have hempty : (q.entered B tick).sentPacket = [] := by rw [hentered]; exact h
  have hsame : (q.entered B tick).setting = q.setting ∧ (q.entered B tick).packets = q.packets := by
    rw [hentered]
    exact ⟨rfl, rfl⟩
  have hticked : ((q.entered B tick).tick B tick).setting = q.setting ∧
      ((q.entered B tick).tick B tick).packets = q.packets := by
    rcases tick_cases (B := B) (q.entered B tick) tick with ht | ⟨first, r, -, htail⟩
    · rw [ht]
      have hunsent : ∀ p ∈ (q.entered B tick).sentPacket, p.sent = false := by simp [hempty]
      rcases expire_unsent (B := B) hunsent tick with he | he | he <;> rw [he] <;> exact hsame
    · exact absurd hempty htail.nonempty
  have hflight : ((q.entered B tick).tick B tick).sentPacket = [] :=
    (congrArg (fun x => x.2.1) hticked.1).trans h
  unfold SendQ.prepared SendQ.sortFlight
  split_ifs
  · rw [hflight, List.perm_nil.mp (B.sort_perm [])]
    refine ⟨Eq.trans ?_ hticked.1, hticked.2⟩
    unfold SendQ.setting
    rw [hflight]
  · exact hticked

theorem resendAll_empty {q : SendQ} (h : q.sentPacket = []) (tick : ℤ) :
    (q.resendAll tick).queue.setting = q.setting ∧
      (q.resendAll tick).queue.packets = q.packets ∧ (q.resendAll tick).group = .empty := by
  unfold SendQ.resendAll
  simp only [h, List.length_nil, List.range_zero, List.foldl_nil]
  split_ifs <;> exact ⟨rfl, rfl, rfl⟩

/-- **The flush of a batch** sends all its frames, packed. -/
theorem flush_filling (tick : ℤ) (hempty : q.sentPacket = []) (hcoalesce : q.coalesce = true)
    (hunreliable : ∀ s, q.scheduler = some s → s.unreliable = [])
    (hreliable : ∀ f ∈ q.packets, f.isReliable = true) (hroom : q.HasRoom)
    (hmtu : 0 < (q.mtu : ℕ)) :
    ∃ s : Burst, Filling q.mtu q.packets s ∧ s.queue.packets = [] ∧
      (q.flush B tick).1 = s.output := by
  obtain ⟨hsetting, hpackets⟩ := prepared_setting (B := B) hempty tick
  have hsame : (q.prepared B tick).mtu = q.mtu := congrArg (fun x => x.1) hsetting
  have hflight : (q.prepared B tick).sentPacket = [] :=
    (congrArg (fun x => x.2.1) hsetting).trans hempty
  have hcoalesce' : (q.prepared B tick).coalesce = true :=
    (congrArg (fun x => x.2.2.1) hsetting).trans hcoalesce
  obtain ⟨hpath, hlegacy⟩ | ⟨s, hs, hpath, -⟩ := flush_cases B q tick
  · -- without options, or with the default ones
    obtain ⟨hsetting', hpackets', hgroup⟩ := resendAll_empty hflight tick
    have hflight' : ((q.prepared B tick).resendAll tick).queue.sentPacket = [] :=
      (congrArg (fun x => x.2.1) hsetting').trans hflight
    have hbegin : Filling q.mtu q.packets ((q.prepared B tick).resendAll tick) :=
      .begin (hpackets'.trans hpackets) ((congrArg (fun x => x.2.2.1) hsetting').trans hcoalesce')
        ((congrArg (fun x => (x.1 : ℕ)) hsetting').trans (congrArg Fin.val hsame)) hgroup
    obtain ⟨hfilling, hsent⟩ := sendLoop_filling tick
      ((q.prepared B tick).resendAll tick).queue.packets.length hbegin rfl
      (by rw [hpackets', hpackets]; exact hreliable)
      (by rw [hflight', hpackets', hpackets, List.length_nil, Nat.zero_add]
          exact hroom.legacy hpath)
    exact ⟨_, hfilling, hsent, by rw [hlegacy]; rfl⟩
  · obtain ⟨hframes, hbytes, hbudget⟩ := hroom.scheduled s hs hpath
    obtain ⟨trace, r, hrun, hflush⟩ := scheduled_rounds (B := B) hs hpath tick
    have hstart : Lone q.mtu q.packets ((q.prepared B tick).startRound s) := by
      refine ⟨.begin hpackets hcoalesce' (congrArg Fin.val hsame) rfl, hunreliable s hs, ?_, ?_, ?_, ?_,
        ?_⟩
      · exact fun p hp => absurd (hflight ▸ hp) List.not_mem_nil
      · exact fun f hf => hreliable f (hpackets ▸ hf)
      · show (q.prepared B tick).sentPacket.length + (q.prepared B tick).packets.length ≤ _
        rw [hflight, hpackets, List.length_nil, Nat.zero_add]
        exact hframes
      · show ((q.prepared B tick).sentPacket.map fun p => p.packet.size).sum +
          ((q.prepared B tick).packets.map QueuedFrame.size).sum ≤ _
        rw [hflight, hpackets, List.map_nil, List.sum_nil, Nat.zero_add]
        exact hbytes
      · show 0 + ((q.prepared B tick).packets.map QueuedFrame.size).sum ≤ _
        rw [hpackets, Nat.zero_add]
        exact hbudget
    obtain ⟨hfilling, hsent⟩ := hstart.rounds (by rw [hsame]; omega) hrun
    exact ⟨r.burst, hfilling, hsent, by rw [hflush]⟩

end flush

/-! ### The promise of the validation -/

theorem infix_of_zip {α : Type*} {a b : α} : ∀ {l : List α}, (a, b) ∈ l.zip (l.drop 1) →
    [a, b] <:+: l
  | [], h | [_], h => absurd h (by simp)
  | x :: y :: l, h => by
    rcases List.mem_cons.mp h with he | h
    · obtain ⟨rfl, rfl⟩ := Prod.mk.inj he
      exact ⟨[], l, rfl⟩
    · exact (infix_of_zip (l := y :: l) h).trans (List.suffix_cons x _).isInfix

theorem validatePasses_true {B : Build} {q : SendQ} {reliability : Reliability} {lengths : List ℕ}
    (h : q.validatePasses B reliability lengths = .ok true) : reliability = .reliableOrdered ∧
      ∃ a b, [a, b] <:+: lengths ∧ a ≤ (q.mtu : ℕ) - 60 ∧ b ≤ (q.mtu : ℕ) - 60 ∧
        a + b + 24 ≤ (q.mtu : ℕ) - 28 := by
  unfold SendQ.validatePasses at h
  simp only [bind_eq_ok] at h
  obtain ⟨-, -, -, -, h⟩ := h
  have hall := Except.ok.inj h
  simp only [Bool.and_eq_true, decide_eq_true_eq, List.any_eq_true] at hall
  obtain ⟨⟨-, hordered⟩, ⟨a, b⟩, hmem, hpacks⟩ := hall
  simp only [SendQ.packs, Bool.and_eq_true, decide_eq_true_eq] at hpacks
  exact ⟨hordered, a, b, infix_of_zip hmem, hpacks.1.1, hpacks.1.2, hpacks.2⟩

/-- **The fused validation of a batch** gives the result of the several passes. And it keeps its
promise: if it answers that the batch can be packed, the queue is empty otherwise and coalesces, and
there is room for the whole batch, then the next flush puts two messages of the batch, which follow
each other in its output, into one datagram. -/
theorem fused_validation (B : Build) (hB : B.sendPolicy = true) (q : SendQ)
    (reliability : Reliability) :
    (∀ lengths : List ℕ, 2 ≤ lengths.length →
      q.batchCanCoalesce B reliability lengths = q.validatePasses B reliability lengths) ∧
    ∀ (batch : List Message) (q' : SendQ) (tick : ℤ),
      (∀ m ∈ batch, m.reliability = reliability) →
      q.batchCanCoalesce B reliability (batch.map fun m => m.payload.length) = .ok true →
      q.coalesce = true → q.isEmpty = true → q.insertAll B batch = .ok q' → q'.HasRoom →
      (q'.flush B tick).1.coalesced = true ∧
      ∃ h k i j, [h, k] <:+: (q'.flush B tick).1.frames ∧
        h.packable = true ∧ k.packable = true ∧
        h.frame.sequenceNumber = k.frame.sequenceNumber ∧ h.datagram = k.datagram ∧
        h.message = q.log.length + i ∧ k.message = q.log.length + j ∧ i < j ∧ j < batch.length := by
  refine ⟨fun lengths _ => batchCanCoalesce_eq hB q reliability lengths, ?_⟩
  intro batch q' tick hbatch hcan hcoalesce hempty hinsert hroom
  rw [batchCanCoalesce_eq hB] at hcan
  obtain ⟨rfl, hpair⟩ := validatePasses_true hcan
  obtain ⟨hsetting, hlog, frames, hpackets, hframed⟩ := insertAll_framed hbatch hinsert
  simp only [SendQ.isEmpty, Bool.and_eq_true, List.isEmpty_iff] at hempty
  obtain ⟨⟨hnone, hflight⟩, hunreliable⟩ := hempty
  rw [hnone, List.nil_append] at hpackets
  have hmtu : q'.mtu = q.mtu := congrArg (fun x => x.1) hsetting
  have hscheduler : q'.scheduler = q.scheduler := congrArg (fun x => x.2.2.2) hsetting
  obtain ⟨s, hfilling, hsent, hout⟩ := flush_filling (B := B) (q := q') tick
    ((congrArg (fun x => x.2.1) hsetting).trans hflight)
    ((congrArg (fun x => x.2.2.1) hsetting).trans hcoalesce)
    (fun s hs => by simpa [hscheduler.symm.trans hs] using hunreliable)
    (fun f hf => hframed.reliable f (hpackets ▸ hf)) hroom (by
      obtain ⟨a, b, -, -, -, hsum⟩ := hpair
      rw [hmtu]
      omega)
  rw [hpackets, hmtu] at hfilling
  rw [hout]
  obtain ⟨hcoalesced, h, k, f, g, hinfix, hfg, hbody, hbody', hf, hg, hsequence, hdatagram⟩ :=
    hfilling.paired hsent (hframed.fit hpair)
  have hmem : ∀ x ∈ [f, g], x ∈ frames := fun x hx => hfg.subset hx
  have hfirst := hframed.message f (hmem f (by simp))
  have hsecond := hframed.message g (hmem g (by simp))
  have hlater : f.message < g.message :=
    (List.pairwise_cons.mp (hframed.later.sublist hfg.sublist)).1 g (by simp) hf
  have hmessage : h.message = f.message := (congrArg QueuedFrame.message hbody :)
  have hmessage' : k.message = g.message := (congrArg QueuedFrame.message hbody' :)
  have hpackable : h.packable = f.packable := (congrArg QueuedFrame.packable hbody :)
  have hpackable' : k.packable = g.packable := (congrArg QueuedFrame.packable hbody' :)
  exact ⟨hcoalesced, h, k, f.message - q.log.length, g.message - q.log.length, hinfix,
    hpackable.trans hf, hpackable'.trans hg, hsequence, hdatagram, by omega, by omega, by omega,
    by omega⟩

theorem insertAll_run {B : Build} {mtu : Fin 65536} {q' : SendQ} :
    ∀ {batch : List Message} {ops : List Op}, (run B mtu ops).queue.insertAll B batch = .ok q' →
      (run B mtu (ops ++ batch.map .insert)).queue = q'
  | [], ops, h => by
    rw [List.map_nil, List.append_nil]
    exact Except.ok.inj h
  | m :: batch, ops, h => by
    unfold SendQ.insertAll at h
    rw [List.foldlM_cons, bind_eq_ok] at h
    obtain ⟨q₁, hinsert, hall⟩ := h
    have hstep : (run B mtu (ops ++ [.insert m])).queue = q₁ := by
      rw [run_append, Run.insert_ok hinsert]
    rw [List.map_cons, List.append_cons]
    exact insertAll_run (hstep ▸ hall)

/-- Options with a budget of their own. -/
def budgetOptions : SendOptions := { SendOptions.default with flushBytes := 128 * 1024 }

/-- Two short messages are packed. -/
theorem fused_validation_pair :
    let B := Build.insertion true false
    let q := (run B 1492 [.setSendOptions budgetOptions, .enableCoalescing]).queue
    let q' := (run B 1492 ([.setSendOptions budgetOptions, .enableCoalescing] ++
      orderedPair.map .insert)).queue
    q.batchCanCoalesce B .reliableOrdered [1, 3] = q.validatePasses B .reliableOrdered [1, 3] ∧
    q.batchCanCoalesce B .reliableOrdered [1, 3] = .ok true ∧
    (q'.flush B 5).1.coalesced = true ∧
    ∃ h k i j, [h, k] <:+: (q'.flush B 5).1.frames ∧ h.packable = true ∧ k.packable = true ∧
      h.frame.sequenceNumber = k.frame.sequenceNumber ∧ h.datagram = k.datagram ∧
      h.message = q.log.length + i ∧ k.message = q.log.length + j ∧ i < j ∧
      j < orderedPair.length := by
  intro B q q'
  have hcan : q.batchCanCoalesce B .reliableOrdered [1, 3] = .ok true := by decide +kernel
  have hinsert : q.insertAll B orderedPair = .ok q' := by
    have hok : (q.insertAll B orderedPair).toBool = true := by decide +kernel
    cases hall : q.insertAll B orderedPair with
    | error e => simp [hall, Except.toBool] at hok
    | ok q₁ => rw [show q' = q₁ from insertAll_run hall]
  have hoptions : q'.scheduler.map SendScheduler.options = some budgetOptions := by decide +kernel
  have hroom : q'.HasRoom := by
    refine ⟨by decide +kernel, fun s hs _ => ?_⟩
    rw [hs] at hoptions
    rw [Option.some.inj hoptions]
    decide +kernel
  have h := fused_validation B rfl q .reliableOrdered
  exact ⟨h.1 [1, 3] le_rfl, hcan, h.2 orderedPair q' 5 (by decide) hcan (by decide +kernel)
    (by decide +kernel) hinsert hroom⟩

end RustRaknet.Send
