import RustRaknet.Send.CachedFlush
import RustRaknet.Send.Conserve
import RustRaknet.Send.Given

/-! # The flush budget

`send_options.rs`: `with_flush_budget` bounds the encoded bytes of a burst. `flush_scheduled` counts
them, whatever lane they come from (`Billed`). A connection whose limits are the default ones takes
the original loop, which does not count; `set_send_options` allows it when 64 frames of a full
datagram stay within the budget. That covers every burst from a flight of at most 64 frames
(`flush_within_budget`). A flight that was filled under a larger limit is not cut down when the
default limits are set, and its frames are then sent again without a bound
(`flush_over_budget`). -/

namespace RustRaknet.Send

open RustRaknet.Frame Ledger

/-- The encoded bytes of frames. -/
def encodedBytes (l : List QueuedFrame) : ℕ := (l.map QueuedFrame.size).sum

@[simp] theorem encodedBytes_push (o : OutgoingFrames) (f : QueuedFrame) :
    encodedBytes (o.push f).frames = encodedBytes o.frames + f.size := by
  simp [encodedBytes, OutgoingFrames.push]

/-! ### The size of a frame -/

theorem size_le (f : QueuedFrame) : f.size ≤ f.frame.data.len + 27 := by
  unfold QueuedFrame.size FrameSetPacket.size
  cases f.frame.reliability with
  | error e => exact Nat.zero_le _
  | ok r =>
    simp only [Lib.Result.map_ok, FrameSetPacket.sizeOf]
    cases r <;> simp [Reliability.isReliable, Reliability.isSequenced, Reliability.isOrdered] <;>
      split_ifs <;> omega

theorem copyShared_len_le (data : Bytes) : (FramePayload.copyShared data).len ≤ data.length := by
  simp [FramePayload.len, FramePayload.copyShared, FramePayload.deref]

/-- A frame fits a datagram: the headers take less than the 60 bytes that are set aside. -/
def Ledger.FrameFits (L : Ledger) (f : QueuedFrame) : Prop := 0 < L.limit ∧ f.size ≤ L.limit + 27

/-- A frame of an admitted message fits a datagram. -/
theorem framesOf_fits {L : Ledger} {m : Message} (hm : L.Admits m) {f : QueuedFrame}
    (hf : f ∈ L.framesOf m) : L.FrameFits f := by
  suffices hlen : f.frame.data.len ≤ L.limit by
    have := size_le f
    exact ⟨hm.limit_pos, by omega⟩
  unfold framesOf Message.frames at hf
  split_ifs at hf with hfrag
  · obtain ⟨i, -, rfl⟩ := List.mem_map.mp hf
    simp only [Message.fragment, FrameSetPacket.fromPayload]
    split_ifs
    · simp [FramePayload.len, FramePayload.deref]
    · have hmod := Nat.mod_le (min L.limit (m.payload.length - i * L.limit)) 65536
      simp only [FramePayload.len, FramePayload.deref, List.length_take]
      omega
  · have hfits := hm.fits.resolve_left hfrag
    rw [List.mem_singleton.mp hf]
    simp only [Message.single, FrameSetPacket.fromPayload, SendQ.reliablePayload,
      SendQ.unreliablePayload]
    have hcopy := copyShared_len_le m.payload
    split_ifs
    · exact hfits
    · omega
    · exact hfits
    · exact hfits

/-- Every frame fits a datagram. -/
structure Ledger.Sized (L : Ledger) : Prop where
  held : ∀ b ∈ L.held, L.FrameFits b
  outbox : ∀ f ∈ L.outbox, L.FrameFits f

theorem Ledger.Sized.packets {L : Ledger} (h : L.Sized) {f : QueuedFrame} (hf : f ∈ L.packets) :
    L.FrameFits f := by
  have hbody : f.body ∈ bodies L.packets := mem_bodies.mpr ⟨f, hf, rfl⟩
  exact h.held f.body (Multiset.mem_add.mpr (.inl (Multiset.mem_add.mpr (.inl hbody))))

theorem Ledger.Sized.flight {L : Ledger} (h : L.Sized) {p : InFlight} (hp : p ∈ L.flight) :
    L.FrameFits p.packet := by
  have hbody : p.packet.body ∈ bodies (L.flight.map InFlight.packet) :=
    mem_bodies.mpr ⟨p.packet, List.mem_map_of_mem hp, rfl⟩
  exact h.held p.packet.body (Multiset.mem_add.mpr (.inl (Multiset.mem_add.mpr (.inr hbody))))

theorem Ledger.Sized.unreliable {L : Ledger} (h : L.Sized) {f : QueuedFrame}
    (hf : f ∈ L.unreliable) : L.FrameFits f := by
  have hbody : f.body ∈ bodies L.unreliable := mem_bodies.mpr ⟨f, hf, rfl⟩
  exact h.held f.body (Multiset.mem_add.mpr (.inr hbody))

theorem Ledger.Sized.step {L L' : Ledger} (hstep : Step L L') (hlanes : L.Lanes) (h : L.Sized) :
    L'.Sized := by
  have hfits : ∀ f, L.FrameFits f → L'.FrameFits f := fun f hf => by
    unfold Ledger.FrameFits
    rwa [hstep.limit_eq]
  refine ⟨fun b hb => hfits b ?_, fun f hf => hfits f ?_⟩
  · cases hstep.effect hlanes with
    | stay hheld => exact h.held b (hheld ▸ hb)
    | accept m hadm hheld =>
      rw [hheld, bodies_framesOf] at hb
      rcases Multiset.mem_add.mp hb with hb | hb
      · exact h.held b hb
      · exact framesOf_fits hadm hb
    | emit f _ hheld | retire f hheld => exact h.held b (hheld ▸ Multiset.mem_add.mpr (.inr hb))
  · have happend : ∀ {g : QueuedFrame}, L.FrameFits g → f ∈ L.outbox ++ [g] → L.FrameFits f := by
      intro g hg hf
      obtain hf | rfl := Lib.mem_snoc.mp hf
      · exact h.outbox f hf
      · exact hg
    cases hstep with
    | burst => exact (List.not_mem_nil hf).elim
    | resend hp => exact happend (h.flight (List.mem_of_getElem? hp)) hf
    | @launch g rest hp | @emit g rest hp =>
      have hg : L.FrameFits g := h.packets (by simp [hp])
      exact happend (g := L.fresh g) hg hf
    | @join g last rest hp =>
      have hg : L.FrameFits g := h.packets (by simp [hp])
      exact happend (g := g.numbered last.frame.sequenceNumber last.datagram) hg hf
    | @emitScheduled g rest hp =>
      have hg : L.FrameFits g := h.unreliable (by simp [hp])
      exact happend (g := L.fresh g) hg hf
    | probe hout hflight hperm =>
      obtain ⟨p', hp', rfl⟩ := List.mem_map.mp hf
      obtain ⟨p, hp, rfl⟩ := List.mem_map.mp (hperm.mem_iff.mp hp')
      have hfit : L.FrameFits p.packet := h.flight hp
      exact hfit
    | _ => exact h.outbox f hf

theorem sized_run (B : Build) (mtu : Fin 65536) (ops : List Op) :
    (run B mtu ops).ledger.Sized :=
  (run_preserves (I := fun L => L.Lanes ∧ L.Sized)
    (fun hstep h => ⟨h.1.step hstep, h.2.step hstep h.1⟩) B mtu
    ⟨⟨fun f hf => by simp [Run.ledger, Run.new, SendQ.new] at hf, fun _ => rfl⟩,
      fun b hb => by simp [Ledger.held, Run.ledger, Run.new, SendQ.new] at hb,
      fun f hf => by simp [Run.ledger, Run.new, OutgoingFrames.empty] at hf⟩ ops).2

/-! ### The scheduled burst -/

section scheduled

variable {tick : ℤ} {options : SendOptions}

/-- The bytes of a round are those of its burst, within the budget. -/
structure Billed (options : SendOptions) (r : Round) : Prop where
  policy : r.scheduler.options = options
  total : encodedBytes r.burst.output.frames = r.bytes
  within : r.bytes ≤ options.flushBytes

theorem Billed.advance {r : Round} (h : Billed options r) (lane : ℕ) :
    Billed options (r.advance lane) := by
  unfold Round.advance
  split_ifs
  · exact { h with }
  · exact h

/-- A frame is billed with its size. -/
theorem laneSend_total (probeSequence : Option ℕ) (tick : ℤ) (lane : ℕ) {charge : ℕ} {r : Round}
    (h : r.laneCharge lane = some charge) :
    encodedBytes (r.laneSend probeSequence tick lane charge).burst.output.frames =
      encodedBytes r.burst.output.frames + charge := by
  unfold Round.laneCharge at h
  unfold Round.laneSend
  split at h
  · unfold Round.sendUnreliable
    cases hl : r.scheduler.unreliable with
    | nil => simp [hl] at h
    | cons f rest =>
      have hsize : f.size = charge := by simpa [hl] using h
      simp [Round.charged, hsize]
  · unfold Round.sendRetry
    split_ifs at h
    cases hp : r.burst.queue.sentPacket[r.retryCursor]? with
    | none => simp [hp] at h
    | some p =>
      have hsize : p.packet.size = charge := by simpa [hp] using h
      simp [Round.charged, Burst.closeGroup, Burst.resend, hsize]
  · unfold Round.sendNew
    cases hl : r.burst.queue.packets with
    | nil => simp [hl] at h
    | cons f rest =>
      have hnumber := assign_numbering r.burst (r.burst.queue.coalesce && f.packable) f rest
      simp only [hl, List.head?_cons, Option.bind_some] at h
      split_ifs at h
      have hsize : f.size = charge := Option.some.inj h
      simp [Round.charged, Burst.launch, hnumber.output, hnumber.size, hsize]

/-- A turn bills what it sends. -/
theorem Billed.move {r r' : Round} (h : Billed options r) {probeSequence : Option ℕ}
    (hmove : r.Move probeSequence tick r') : Billed options r' := by
  have hpolicy : r'.scheduler.options = r.scheduler.options :=
    congrArg (fun x : Given => (x.options.map Prod.fst).getD options) (sends_given hmove.sends).1
  cases hmove with
  | clear => exact { h with }
  | advance lane => exact h.advance lane
  | @send lane charge hcharge hroom =>
    have hadvance := h.advance lane
    have hbytes : ((r.advance lane).laneSend probeSequence tick lane charge).bytes =
        (r.advance lane).bytes + charge := by
      unfold Round.laneSend Round.sendUnreliable Round.sendRetry Round.sendNew
      split <;> split <;> rfl
    refine ⟨hpolicy.trans h.policy, ?_, ?_⟩
    · rw [laneSend_total probeSequence tick lane hcharge, hadvance.total, hbytes]
    · rw [hbytes, ← hadvance.policy]
      exact hroom

/-- **A scheduled burst stays within its budget.** -/
theorem flushScheduled_within (B : Build) (q : SendQ) (s : SendScheduler) :
    encodedBytes (q.flushScheduled B tick s).1.frames ≤ s.options.flushBytes := by
  unfold SendQ.flushScheduled
  simp only
  generalize (q.tick B tick).sortFlight B = x
  have hstart : Billed s.options (x.startRound s) := ⟨rfl, rfl, Nat.zero_le _⟩
  have hend : Billed s.options ((x.startRound s).rounds x.probeReplay tick ((x.mtu : ℕ) * 4)
      ((x.startRound s).waiting + 1)) :=
    rounds_preserves (fun hmove h => Billed.move h hmove) _ _ _ hstart
  rw [hend.total]
  exact hend.within

end scheduled

/-! ### The original loop -/

section legacy

variable {B : Build} {tick : ℤ}

/-- The queue and the length of the flight, which the search for timeouts leaves alone. -/
def SendQ.load (q : SendQ) : List QueuedFrame × ℕ := (q.packets, q.sentPacket.length)

theorem load_eq {q q' : SendQ} (hsettled : q'.settled = q.settled)
    (hlength : q'.sentPacket.length = q.sentPacket.length) : q'.load = q.load :=
  Prod.ext (congrArg SendQ.packets hsettled :) hlength

theorem tick_sort_load (q : SendQ) : ((q.tick B tick).sortFlight B).load = q.load :=
  load_eq (tick_sort_settled q) (by rw [← length_bodies, (tick_sort_bodies q).length_eq,
    length_bodies])

/-- The frames of a burst are in the flight, which the loop fills up to 64 frames. -/
structure Bounded (s : Burst) : Prop where
  output : s.output.frames.length ≤ s.queue.sentPacket.length
  flight : s.queue.sentPacket.length ≤ maxInFlightPackets
  reliable : ∀ f ∈ s.queue.packets, f.isReliable = true

theorem resendAt_bounded (probeSequence : Option ℕ) (tick : ℤ) (s : Burst) (i : ℕ) :
    (Burst.resendAt probeSequence tick s i).output.frames.length ≤ s.output.frames.length + 1 ∧
      (Burst.resendAt probeSequence tick s i).queue.load = s.queue.load := by
  unfold Burst.resendAt
  split
  · exact ⟨Nat.le_succ _, rfl⟩
  · split_ifs
    · exact ⟨Nat.le_succ _, rfl⟩
    · simp [Burst.resend, OutgoingFrames.push, SendQ.load]

theorem resendAll_bounded {q : SendQ} (hflight : q.sentPacket.length ≤ maxInFlightPackets)
    (hreliable : ∀ f ∈ q.packets, f.isReliable = true) : Bounded (q.resendAll tick) := by
  have hbound : ∀ s : Burst, s.output.frames.length ≤ q.sentPacket.length →
      s.queue.load = q.load → Bounded s := by
    intro s houtput hload
    have hpackets : s.queue.packets = q.packets := congrArg Prod.fst hload
    have hlength : s.queue.sentPacket.length = q.sentPacket.length := congrArg Prod.snd hload
    exact ⟨by omega, by omega, by rwa [hpackets]⟩
  unfold SendQ.resendAll
  split_ifs
  · obtain ⟨houtput, hload⟩ := Lib.Machine.foldl_range
      (I := fun i (s : Burst) => s.output.frames.length ≤ i ∧ s.queue.load = q.load)
      (f := Burst.resendAt q.probeReplay tick)
      (s := q.burst) ⟨le_refl _, rfl⟩ q.sentPacket.length fun i s _ hs => by
        obtain ⟨h₁, h₂⟩ := resendAt_bounded q.probeReplay tick s i
        exact ⟨by omega, h₂.trans hs.2⟩
    exact hbound _ houtput hload
  · exact hbound _ (Nat.zero_le _) rfl

/-- A new frame enters the flight and the burst together. -/
theorem Bounded.turn {s s' : Burst} (h : Bounded s) (hturn : Turn tick s s') : Bounded s' := by
  cases hturn with
  | @rotate f rest hpackets hfull =>
    refine ⟨h.output, h.flight, fun g hg => h.reliable g ?_⟩
    rw [hpackets]
    have hg : g ∈ rest ++ [f] := hg
    simpa [or_comm] using hg
  | @launch f rest hpackets hf hroom =>
    have hnumber := number_numbering s f rest
    have houtput := h.output
    refine ⟨?_, ?_, fun g hg => h.reliable g ?_⟩
    · simp only [Burst.launch, OutgoingFrames.push, hnumber.output, hnumber.flight,
        List.length_append, List.length_singleton]
      omega
    · simp only [Burst.launch, hnumber.flight, List.length_append, List.length_singleton]
      omega
    · have hg : g ∈ rest := hnumber.packets ▸ hg
      rw [hpackets]
      exact List.mem_cons_of_mem f hg
  | @emit f rest hpackets hf =>
    have := h.reliable f (by simp [hpackets])
    exact absurd (hf.symm.trans this) Bool.false_ne_true

theorem Bounded.sendLoop (tick : ℤ) :
    ∀ (n : ℕ) {s : Burst}, Bounded s → Bounded (Burst.sendLoop tick n s)
  | 0, _, h => h
  | n + 1, s, h => by
    unfold Burst.sendLoop
    cases hs : s.sendOne tick with
    | none => exact h
    | some s' => exact Bounded.sendLoop tick n (h.turn (sendOne_turn hs))

/-- **A burst of the original loop has at most 64 frames**, when the flight had at most 64. -/
theorem flushLegacy_bounded {q : SendQ} (hflight : q.sentPacket.length ≤ maxInFlightPackets)
    (hreliable : ∀ f ∈ q.packets, f.isReliable = true) :
    (q.flushLegacy B tick).1.frames.length ≤ maxInFlightPackets := by
  have hload : ((q.tick B tick).sortFlight B).load = q.load := tick_sort_load q
  have hpackets : ((q.tick B tick).sortFlight B).packets = q.packets := congrArg Prod.fst hload
  have hlength : ((q.tick B tick).sortFlight B).sentPacket.length = q.sentPacket.length :=
    congrArg Prod.snd hload
  have hbegin : Bounded (((q.tick B tick).sortFlight B).resendAll tick) :=
    resendAll_bounded (by omega) (by rwa [hpackets])
  have hend := Bounded.sendLoop tick
    (((q.tick B tick).sortFlight B).resendAll tick).queue.packets.length hbegin
  exact hend.output.trans hend.flight

end legacy

/-! ### The budget -/

theorem encodedBytes_le {l : List QueuedFrame} {n : ℕ} (h : ∀ f ∈ l, f.size ≤ n) :
    encodedBytes l ≤ l.length * n := by
  unfold encodedBytes
  have hsum := List.sum_le_card_nsmul (l.map QueuedFrame.size) n fun x hx => by
    obtain ⟨f, hf, rfl⟩ := List.mem_map.mp hx
    exact h f hf
  simpa using hsum

theorem flush_size_le (B : Build) (mtu : Fin 65536) (ops : List Op) (tick : ℤ) :
    ∀ f ∈ ((run B mtu ops).queue.flush B tick).1.frames, f.size ≤ (mtu : ℕ) := by
  intro f hf
  have hsized := sized_run B mtu (ops ++ [.flush tick])
  have hlimit := run_mtu B mtu (ops ++ [.flush tick])
  rw [run_append] at hsized hlimit
  obtain ⟨hpos, hle⟩ := hsized.outbox f hf
  rw [hlimit] at hpos hle
  omega

/-- **The flush budget bounds every burst of a configured connection** from a state in which the
original loop, if it is taken, finds at most 64 frames in flight. -/
theorem flush_within_budget (B : Build) (mtu : Fin 65536) (ops : List Op) (tick : ℤ)
    (s : SendScheduler) (hs : (run B mtu ops).queue.scheduler = some s)
    (hlegacy : s.useLegacy = true → s.unreliable = [] →
      (run B mtu ops).queue.sentPacket.length ≤ maxInFlightPackets) :
    encodedBytes ((run B mtu ops).queue.flush B tick).1.frames ≤ s.options.flushBytes := by
  have hsize := flush_size_le B mtu ops tick
  have hroom := (legacy_room B mtu ops).2 s.options
  have hreliable := ((run_steps B mtu ops).1.scheduled s hs).2.2.2.2
  generalize (run B mtu ops).queue = q at *
  have hreset : (if B.recoveryPolicy then q.resetRecovery tick else q).load = q.load ∧
      (if B.recoveryPolicy then q.resetRecovery tick else q).scheduler = q.scheduler := by
    unfold SendQ.resetRecovery
    split_ifs <;> exact ⟨rfl, rfl⟩
  obtain ⟨hload, hscheduler⟩ := hreset
  unfold SendQ.flush at hsize ⊢
  simp only at hsize ⊢
  generalize (if B.recoveryPolicy = true then q.resetRecovery tick else q) = x at *
  have hpackets : x.packets = q.packets := congrArg Prod.fst hload
  have hlength : x.sentPacket.length = q.sentPacket.length := congrArg Prod.snd hload
  rw [hscheduler, hs] at hsize ⊢
  simp only at hsize ⊢
  by_cases hpath : (!s.useLegacy || !s.unreliable.isEmpty) = true
  · rw [if_pos hpath]
    exact flushScheduled_within B x s
  · rw [if_neg hpath] at hsize ⊢
    have hpath : s.useLegacy = true ∧ s.unreliable = [] := by simpa using hpath
    have hflight := hlegacy hpath.1 hpath.2
    have hframes : (x.flushLegacy B tick).1.frames.length ≤ maxInFlightPackets :=
      flushLegacy_bounded (by omega) (by rwa [hpackets])
    have hbudget : (mtu : ℕ) * maxInFlightPackets ≤ s.options.flushBytes :=
      hroom (by simp [SendQ.given, hs, hpath.1])
    calc encodedBytes (x.flushLegacy B tick).1.frames
        ≤ (x.flushLegacy B tick).1.frames.length * mtu := encodedBytes_le hsize
      _ ≤ maxInFlightPackets * mtu := Nat.mul_le_mul_right _ hframes
      _ = mtu * maxInFlightPackets := Nat.mul_comm _ _
      _ ≤ s.options.flushBytes := hbudget

theorem flush_within_budget_default :
    encodedBytes ((run (Build.insertion true false) 1492 [.setSendOptions .default,
      .insert ⟨.reliable, primaryChannel, [0xfe], false⟩]).queue.flush
        (Build.insertion true false) 5).1.frames ≤ SendOptions.default.flushBytes :=
  flush_within_budget _ _ _ _
    { options := .default, unreliable := [], unreliableBytes := 0, useLegacy := true,
      persistent := true, nextLane := 2 } (by decide +kernel) fun _ _ => by decide +kernel

/-! ### A flight that was filled under larger limits -/

section narrowed

variable {B : Build} {tick : ℤ}

/-- The frames before the index `i` wait to be sent again, the others have timed out. -/
structure Expiring (tick : ℤ) (sizes : List ℕ) (i : ℕ) (q : SendQ) : Prop where
  waiting : ∀ j p, j < i → q.sentPacket[j]? = some p → p.sent = false
  due : ∀ j p, i ≤ j → q.sentPacket[j]? = some p → p.sent = true ∧ p.deadline q.rto ≤ tick
  sizes : (q.sentPacket.map fun p => p.packet.size) = sizes
  pending : 0 < i → q.retriesPending = true

theorem Expiring.tickAt {sizes : List ℕ} {i : ℕ} {q : SendQ} (h : Expiring tick sizes i q)
    (hi : i < sizes.length) : Expiring tick sizes (i + 1) (SendQ.tickAt none tick q i) := by
  have hlength : i < q.sentPacket.length := by simpa [← h.sizes] using hi
  obtain ⟨hsent, hdue⟩ := h.due i _ le_rfl (List.getElem?_eq_getElem hlength)
  rcases tickAt_cases none tick q i with ⟨p, hp, -, -, he⟩ | ⟨p, hp, -, hlt, -⟩ | ⟨hnone, -⟩
  · rw [he]
    refine ⟨fun j p' hj hp' => ?_, fun j p' hj hp' => ?_, ?_, fun _ => rfl⟩
    · rcases Nat.lt_succ_iff_lt_or_eq.mp hj with hlt | rfl
      · have hne : i ≠ j := by omega
        simp only [SendQ.reissue, List.getElem?_set_ne hne] at hp'
        exact h.waiting j p' hlt hp'
      · simp only [SendQ.reissue, List.getElem?_set_self hlength, Option.some.injEq] at hp'
        rw [← hp']
        rfl
    · have hne : i ≠ j := by omega
      simp only [SendQ.reissue, List.getElem?_set_ne hne] at hp'
      exact h.due j p' (by omega) hp'
    · obtain ⟨l₁, l₂, hl, hset, -⟩ := split_at hp
      rw [← h.sizes]
      simp only [SendQ.reissue, hset]
      rw [hl]
      simp [InFlight.renumber]
  · have := (h.due i p le_rfl hp).2
    omega
  · exact absurd (hnone _ (List.getElem?_eq_getElem hlength)) (by simp [hsent])

/-- The burst has the frames before the index `i`, the others wait. -/
structure Resending (sizes : List ℕ) (i : ℕ) (s : Burst) : Prop where
  output : (s.output.frames.map QueuedFrame.size) = sizes.take i
  waiting : ∀ j p, i ≤ j → s.queue.sentPacket[j]? = some p → p.sent = false
  sizes : (s.queue.sentPacket.map fun p => p.packet.size) = sizes

theorem Resending.resendAt {sizes : List ℕ} {i : ℕ} {s : Burst} (h : Resending sizes i s)
    (hi : i < sizes.length) (probeSequence : Option ℕ) :
    Resending sizes (i + 1) (Burst.resendAt probeSequence tick s i) := by
  have hlength : i < s.queue.sentPacket.length := by simpa [← h.sizes] using hi
  rcases resendAt_cases probeSequence tick s i with ⟨p, hp, -, he⟩ | ⟨hall, -⟩
  · have hsize : sizes[i]? = some p.packet.size := by
      rw [← h.sizes, List.getElem?_map, hp]
      rfl
    rw [he]
    refine ⟨?_, fun j p' hj hp' => ?_, ?_⟩
    · simp [Burst.resend, OutgoingFrames.push, h.output, List.take_add_one, hsize]
    · have hne : i ≠ j := by omega
      simp only [Burst.resend, List.getElem?_set_ne hne] at hp'
      exact h.waiting j p' (by omega) hp'
    · obtain ⟨l₁, l₂, hl, hset, -⟩ := split_at hp
      rw [← h.sizes]
      simp only [Burst.resend, hset]
      rw [hl]
      simp
  · have hsent := hall _ (List.getElem?_eq_getElem hlength)
    have hunsent := h.waiting i _ le_rfl (List.getElem?_eq_getElem hlength)
    exact absurd (hsent.symm.trans hunsent) Bool.noConfusion

/-- The loop over the queue only adds to a burst. -/
theorem sendLoop_bytes : ∀ (n : ℕ) (s : Burst),
    encodedBytes s.output.frames ≤ encodedBytes (Burst.sendLoop tick n s).output.frames
  | 0, _ => le_rfl
  | n + 1, s => by
    unfold Burst.sendLoop
    cases h : s.sendOne tick with
    | none => exact le_rfl
    | some s' =>
      refine le_trans ?_ (sendLoop_bytes n s')
      cases sendOne_turn h with
      | rotate => exact le_rfl
      | @launch f rest =>
        have hnumber := number_numbering s f rest
        simp [Burst.launch, hnumber.output]
      | @emit f rest =>
        have hnumber := number_numbering s f rest
        simp [Burst.emit, hnumber.output]

/-- **The original loop sends every frame that timed out**, whatever the budget. -/
theorem flushLegacy_resends (hB : B.recoveryPolicy = false) {q : SendQ}
    (hdue : ∀ p ∈ q.sentPacket, p.sent = true ∧ p.deadline q.rto ≤ tick)
    (hretry : q.nextRetry ≤ tick) :
    encodedBytes (q.sentPacket.map InFlight.packet) ≤
      encodedBytes (q.flushLegacy B tick).1.frames := by
  have htick : q.tick B tick = q.expire B tick := by simp [SendQ.tick, hB]
  have hexpire : q.expire B tick =
      (List.range q.sentPacket.length).foldl (SendQ.tickAt none tick) q.clearRetry := by
    have hscan : ¬ tick < min q.nextRetry i64Max :=
      not_lt.mpr (le_trans (min_le_left _ _) hretry)
    simp [SendQ.expire, hB, hscan]
  have hexpired : Expiring tick (q.sentPacket.map fun p => p.packet.size) q.sentPacket.length
      (q.expire B tick) := by
    rw [hexpire]
    refine Lib.Machine.foldl_range ⟨fun j p hj => by omega, fun j p _ hp =>
      hdue p (List.mem_of_getElem? hp), rfl, fun h0 => by omega⟩ _ fun i x hi hx => ?_
    exact hx.tickAt (by simpa using hi)
  have hwaiting : ∀ p ∈ (q.expire B tick).sentPacket, p.sent = false := by
    intro p hp
    obtain ⟨j, hj, hget⟩ := List.getElem_of_mem hp
    have hlength : (q.expire B tick).sentPacket.length = q.sentPacket.length := by
      simpa using congrArg List.length hexpired.sizes
    exact hexpired.waiting j p (by omega) (List.getElem?_eq_some_iff.mpr ⟨hj, hget⟩)
  rcases Nat.eq_zero_or_pos q.sentPacket.length with hempty | hpos
  · simp [List.length_eq_zero_iff.mp hempty, encodedBytes]
  have hpending := hexpired.pending hpos
  obtain ⟨hperm, hpending'⟩ : ((q.expire B tick).sortFlight B).sentPacket.Perm
      (q.expire B tick).sentPacket ∧
      ((q.expire B tick).sortFlight B).retriesPending = (q.expire B tick).retriesPending := by
    unfold SendQ.sortFlight
    split_ifs
    · exact ⟨B.sort_perm _, rfl⟩
    · exact ⟨.refl _, rfl⟩
  have hsum : encodedBytes (q.sentPacket.map InFlight.packet) =
      (((q.expire B tick).sortFlight B).sentPacket.map fun p => p.packet.size).sum := by
    rw [(hperm.map fun p => p.packet.size).sum_eq, hexpired.sizes]
    simp [encodedBytes, Function.comp_def]
  rw [hsum]
  unfold SendQ.flushLegacy
  simp only
  rw [htick]
  generalize (q.expire B tick).sortFlight B = x at *
  refine le_trans ?_ (sendLoop_bytes _ _)
  have hresend := Lib.Machine.foldl_range (f := Burst.resendAt x.probeReplay tick)
    (I := Resending (x.sentPacket.map fun p => p.packet.size)) (s := x.burst)
    ⟨rfl, fun j p _ hp => hwaiting p (hperm.mem_iff.mp (List.mem_of_getElem? hp)), rfl⟩
    x.sentPacket.length fun i s hi hs => hs.resendAt (by simpa using hi) x.probeReplay
  have hall : x.resendAll tick =
      { (List.range x.sentPacket.length).foldl (Burst.resendAt x.probeReplay tick)
          x.burst with
        queue := ((List.range x.sentPacket.length).foldl (Burst.resendAt x.probeReplay tick)
          x.burst).queue.clearRetries } := by
    unfold SendQ.resendAll
    rw [hpending', hpending]
    rfl
  rw [hall, encodedBytes, hresend.output, List.take_of_length_le (by simp)]

end narrowed

/-- A message that fills a datagram of the largest MTU. -/
def fullMessage : Message := ⟨.reliable, primaryChannel, List.replicate 1432 0, true⟩

/-- Limits that let 182 full datagrams into the flight at once. -/
def wideOptions : SendOptions :=
  { SendOptions.default with inFlightFrames := 4096, flushBytes := 1024 * 1024 }

/-- A flight is filled under larger limits, and then the default limits are set. -/
def narrowedOps : List Op :=
  .setSendOptions wideOptions :: List.replicate 182 (.insert fullMessage) ++
    [.flush 0, .setSendOptions .default]

/-- When the 182 frames time out, one burst has them all, beyond the budget of 262,144 bytes. -/
theorem flush_over_budget :
    ∃ s, (run (Build.insertion true false) 1492 narrowedOps).queue.scheduler = some s ∧
      s.options.flushBytes < encodedBytes ((run (Build.insertion true false) 1492
        narrowedOps).queue.flush (Build.insertion true false) 1000).1.frames := by
  have hstate : (run (Build.insertion true false) 1492 narrowedOps).queue.scheduler =
      some ⟨.default, [], 0, true, true, 0⟩ ∧
    (∀ p ∈ (run (Build.insertion true false) 1492 narrowedOps).queue.sentPacket,
      p.sent = true ∧
        p.deadline (run (Build.insertion true false) 1492 narrowedOps).queue.rto ≤ 1000) ∧
    (run (Build.insertion true false) 1492 narrowedOps).queue.nextRetry ≤ 1000 ∧
    262144 < encodedBytes ((run (Build.insertion true false) 1492
      narrowedOps).queue.sentPacket.map InFlight.packet) := by
    decide +kernel
  obtain ⟨hs, hdue, hretry, hbytes⟩ := hstate
  have hflush : ∀ q : SendQ, q.scheduler = some ⟨.default, [], 0, true, true, 0⟩ →
      q.flush (Build.insertion true false) 1000 =
        q.flushLegacy (Build.insertion true false) 1000 := by
    intro q hq
    simp [SendQ.flush, Build.insertion, hq]
  refine ⟨_, hs, ?_⟩
  rw [hflush _ hs]
  exact lt_of_lt_of_le hbytes (flushLegacy_resends rfl hdue hretry)

end RustRaknet.Send
