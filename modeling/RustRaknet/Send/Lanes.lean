import Mathlib.Data.List.TakeWhile
import RustRaknet.Send.Given

/-! # The loops over the lanes end

`flush_scheduled` nests three loops: the rounds, the lanes of a round and the frames of a lane.
`RoundsRun` says what they do without counting turns: a lane is left when its quantum is spent or
when it is stuck, a round that sends nothing is the last, and a burst that fills the budget ends them
all. Every frame that is sent leaves those that wait, so the loops end (`rounds_run`); and when they
do, no lane has a frame that fits the rest of the budget (`RoundsRun.stuck`). -/

namespace RustRaknet.Send

open RustRaknet.Frame Ledger

namespace Round

/-! ### The next frame of a lane -/

/-- The size of the next frame of a lane, if it has one that may be sent. -/
def head (lane : ℕ) (r : Round) : Option ℕ := (r.advance lane).laneCharge lane

/-- The next frame of the lane has size `charge`, and the budget has room for it. -/
structure Fits (r : Round) (lane charge : ℕ) : Prop where
  head : r.head lane = some charge
  room : r.bytes + charge ≤ r.scheduler.options.flushBytes

/-- The lane has no frame that fits the rest of the budget. -/
def Stuck (lane : ℕ) (r : Round) : Prop := ∀ charge, ¬ r.Fits lane charge

/-- The next frame of the lane is sent. -/
def serve (probeSequence : Option ℕ) (tick : ℤ) (lane charge : ℕ) (r : Round) : Round :=
  (r.advance lane).laneSend probeSequence tick lane charge

/-- A frame in flight that waits, the first one from the cursor on. -/
def Waits (r : Round) (i : ℕ) (p : InFlight) : Prop :=
  r.burst.queue.sentPacket[i]? = some p ∧ p.sent = false ∧
    ∀ j, r.retryCursor ≤ j → j < i → ∀ p', r.burst.queue.sentPacket[j]? = some p' → p'.sent = true

/-- **What a lane sends.** -/
inductive Serves (probeSequence : Option ℕ) (tick : ℤ) (r : Round) : ℕ → ℕ → Round → Prop
  | unreliable {f : QueuedFrame} {rest : List QueuedFrame} (h : r.scheduler.unreliable = f :: rest) :
      Serves probeSequence tick r 0 f.size (r.sendUnreliable.charged 0 f.size)
  | retry {i : ℕ} {p : InFlight} (hpending : r.burst.queue.retriesPending = true)
      (h : r.Waits i p) :
      Serves probeSequence tick r 1 p.packet.size
        (({ r with
          burst := (r.burst.resend probeSequence tick i p).closeGroup
          retryCursor := i + 1 } : Round).charged 1 p.packet.size)
  | new {lane : ℕ} {f : QueuedFrame} {rest : List QueuedFrame} (hlane : 2 ≤ lane)
      (h : r.burst.queue.packets = f :: rest)
      (hframes : r.burst.queue.sentPacket.length < r.scheduler.options.inFlightFrames)
      (hbytes : r.flightBytes + f.size ≤ r.scheduler.options.inFlightBytes) :
      Serves probeSequence tick r lane f.size ((r.sendNew tick).charged lane f.size)

section head

variable {probeSequence : Option ℕ} {tick : ℤ} {r : Round} {lane charge : ℕ}

theorem advance_of_ne (h : lane ≠ 1) (r : Round) : r.advance lane = r := if_neg fun hc => h hc.1

theorem advance_eq (lane : ℕ) (r : Round) :
    ∃ retryCursor, r.advance lane = { r with retryCursor } := by
  unfold advance
  split_ifs
  · exact ⟨_, rfl⟩
  · exact ⟨r.retryCursor, rfl⟩

theorem seek_passes {flight : List InFlight} {cursor j : ℕ} (hle : cursor ≤ j)
    (hlt : j < seek flight cursor) {p : InFlight} (hp : flight[j]? = some p) : p.sent = true := by
  unfold seek at hlt
  have hj : j - cursor < (flight.drop cursor).findIdx fun p => !p.sent := by omega
  have hget : (flight.drop cursor)[j - cursor]? = some p := by
    rw [List.getElem?_drop, Nat.add_sub_cancel' hle, hp]
  obtain ⟨hlen, he⟩ := List.getElem?_eq_some_iff.mp hget
  have := List.not_of_lt_findIdx hj
  simpa [he] using this

theorem Fits.serves (h : r.Fits lane charge) :
    Serves probeSequence tick r lane charge (r.serve probeSequence tick lane charge) := by
  have hhead : (r.advance lane).laneCharge lane = some charge := h.head
  unfold serve
  match lane with
  | 0 =>
    rw [advance_of_ne (by omega)] at hhead ⊢
    unfold laneCharge at hhead
    cases hl : r.scheduler.unreliable with
    | nil => simp [hl] at hhead
    | cons f rest =>
      obtain rfl : f.size = charge := by simpa [hl] using hhead
      exact .unreliable hl
  | 1 =>
    have hpending : r.burst.queue.retriesPending = true := by
      by_contra hno
      unfold advance at hhead
      rw [if_neg fun hc => hno hc.2] at hhead
      simp [laneCharge, hno] at hhead
    have hadvance : r.advance 1 =
        { r with retryCursor := seek r.burst.queue.sentPacket r.retryCursor } :=
      if_pos ⟨rfl, hpending⟩
    rw [hadvance] at hhead ⊢
    simp only [laneCharge, hpending, if_true, Option.map_eq_some_iff] at hhead
    obtain ⟨p, hp, rfl⟩ := hhead
    have hserves : Serves probeSequence tick r 1 p.packet.size _ :=
      .retry hpending ⟨hp, seek_unsent hp, fun j hle hlt p' hp' => seek_passes hle hlt hp'⟩
    simpa [laneSend, sendRetry, hp] using hserves
  | n + 2 =>
    rw [advance_of_ne (by omega)] at hhead ⊢
    unfold laneCharge at hhead
    cases hl : r.burst.queue.packets with
    | nil => simp [hl] at hhead
    | cons f rest =>
      simp only [hl, List.head?_cons, Option.bind_some] at hhead
      split_ifs at hhead with hroom
      obtain rfl : f.size = charge := Option.some.inj hhead
      exact .new (by omega) hl hroom.1 hroom.2

theorem getElem?_seek (flight : List InFlight) (cursor : ℕ) :
    flight[seek flight cursor]? = (flight.drop cursor).find? fun p => !p.sent := by
  have hdrop : (flight.drop cursor).dropWhile InFlight.sent =
      (flight.drop cursor).drop ((flight.drop cursor).findIdx fun p => !p.sent) :=
    List.dropWhile_eq_drop_findIdx_not
  rw [List.find?_not_eq_head?_dropWhile, hdrop, List.head?_drop, List.getElem?_drop]
  rfl

theorem seek_seek (flight : List InFlight) (cursor : ℕ) :
    seek flight (seek flight cursor) = seek flight cursor := by
  have hstay : (flight.drop (seek flight cursor)).findIdx (fun p => !p.sent) = 0 := by
    cases hdrop : flight.drop (seek flight cursor) with
    | nil => rfl
    | cons p rest =>
      have hp : flight[seek flight cursor]? = some p := by
        rw [← List.head?_drop, hdrop]
        rfl
      simp [List.findIdx_cons, seek_unsent hp]
  have hseek : seek flight (seek flight cursor) = seek flight cursor +
      (flight.drop (seek flight cursor)).findIdx fun p => !p.sent := rfl
  rw [hseek, hstay, Nat.add_zero]

theorem head_zero (r : Round) : r.head 0 = r.scheduler.unreliable.head?.map QueuedFrame.size := by
  unfold Round.head
  rw [advance_of_ne (by omega)]
  rfl

theorem head_one (r : Round) : r.head 1 =
    if r.burst.queue.retriesPending then
      ((r.burst.queue.sentPacket.drop r.retryCursor).find? fun p => !p.sent).map
        fun p => p.packet.size
    else none := by
  unfold Round.head Round.advance
  by_cases h : r.burst.queue.retriesPending = true
  · simp [h, laneCharge, getElem?_seek]
  · simp [h, laneCharge]

theorem head_new (hlane : 2 ≤ lane) (r : Round) :
    r.head lane = r.burst.queue.packets.head?.bind fun f =>
      if r.burst.queue.sentPacket.length < r.scheduler.options.inFlightFrames ∧
          r.flightBytes + f.size ≤ r.scheduler.options.inFlightBytes then some f.size else none := by
  unfold Round.head
  rw [advance_of_ne (by omega)]
  obtain ⟨n, rfl⟩ := Nat.exists_eq_add_of_le' hlane
  rfl

theorem head_advance (lane other : ℕ) (r : Round) : (r.advance other).head lane = r.head lane := by
  by_cases hother : other = 1 ∧ r.burst.queue.retriesPending = true
  · have hadvance : r.advance other =
        { r with retryCursor := seek r.burst.queue.sentPacket r.retryCursor } := if_pos hother
    rw [hadvance]
    match lane with
    | 0 => rw [head_zero, head_zero]
    | 1 =>
      rw [head_one, head_one]
      simp only
      rw [← getElem?_seek, ← getElem?_seek, seek_seek]
    | n + 2 => rw [head_new (by omega), head_new (by omega)]
  · rw [show r.advance other = r from if_neg hother]

theorem Fits.of_advance {other : ℕ} (h : (r.advance other).Fits lane charge) :
    r.Fits lane charge := by
  obtain ⟨retryCursor, hadvance⟩ := advance_eq other r
  refine ⟨(head_advance lane other r).symm.trans h.head, ?_⟩
  have := h.room
  rwa [hadvance] at this

theorem Stuck.advance (h : r.Stuck lane) (other : ℕ) : (r.advance other).Stuck lane :=
  fun charge hfits => h charge hfits.of_advance

theorem sendUnreliable_eq {f : QueuedFrame} {rest : List QueuedFrame}
    (h : r.scheduler.unreliable = f :: rest) :
    r.sendUnreliable = { r with
      scheduler := { r.scheduler with
        unreliable := rest
        unreliableBytes := r.scheduler.unreliableBytes - Send.charge f }
      burst := r.sendUnreliable.burst } := by
  unfold sendUnreliable
  rw [h]

/-- The number of a new frame, and the burst that it joins. -/
def newNumber (r : Round) (f : QueuedFrame) (rest : List QueuedFrame) : QueuedFrame × Burst :=
  (r.burst.pop rest).assign (r.burst.queue.coalesce && f.packable) f

theorem sendNew_eq {f : QueuedFrame} {rest : List QueuedFrame}
    (h : r.burst.queue.packets = f :: rest) :
    r.sendNew tick = { r with
      burst := (r.newNumber f rest).2.launch tick (r.newNumber f rest).1
      flightBytes := r.flightBytes + f.size } := by
  unfold sendNew
  rw [h]
  rfl

theorem newNumber_numbering (r : Round) (f : QueuedFrame) (rest : List QueuedFrame) :
    Numbering r.burst f rest (r.newNumber f rest) :=
  assign_numbering r.burst _ f rest

theorem newNumber_body (r : Round) (f : QueuedFrame) (rest : List QueuedFrame) :
    (r.newNumber f rest).1.body = f.body := by
  unfold newNumber Burst.assign
  split
  · split_ifs <;> rfl
  · rfl

theorem newNumber_pending (r : Round) (f : QueuedFrame) (rest : List QueuedFrame) :
    (r.newNumber f rest).2.queue.retriesPending = r.burst.queue.retriesPending := by
  unfold newNumber Burst.assign
  split
  · split_ifs <;> rfl
  · rfl

end head

/-! ### A frame is sent -/

section serves

variable {probeSequence : Option ℕ} {tick : ℤ} {r r' : Round} {lane charge : ℕ}

/-- The frame that is sent no longer waits. -/
theorem Serves.waiting (h : Serves probeSequence tick r lane charge r') :
    r'.waiting + 1 = r.waiting := by
  cases h with
  | @unreliable f rest h =>
    have hflight : r.sendUnreliable.burst.queue.sentPacket = r.burst.queue.sentPacket := by
      unfold sendUnreliable
      rw [h]
    have hpackets : r.sendUnreliable.burst.queue.packets = r.burst.queue.packets := by
      unfold sendUnreliable
      rw [h]
    rw [sendUnreliable_eq h]
    simp only [Round.waiting, charged, h, hflight, hpackets, List.length_cons]
    omega
  | @retry i p hpending h =>
    obtain ⟨l₁, l₂, hl, hset, -⟩ := split_at h.1
    simp only [Round.waiting, charged, Burst.closeGroup, Burst.resend, hset]
    simp [hl, h.2.1]
    omega
  | @new lane f rest hlane h hframes hbytes =>
    have hnumber := newNumber_numbering r f rest
    rw [sendNew_eq h]
    simp only [Round.waiting, charged, Burst.launch, hnumber.flight, hnumber.packets, h,
      List.length_cons, List.filter_append, List.length_append]
    simp
    omega

theorem Serves.bytes (h : Serves probeSequence tick r lane charge r') :
    r'.bytes = r.bytes + charge ∧ r'.scheduler.options = r.scheduler.options ∧
      r'.scheduler.persistent = r.scheduler.persistent := by
  cases h with
  | unreliable h => rw [sendUnreliable_eq h]; exact ⟨rfl, rfl, rfl⟩
  | retry hpending h => exact ⟨rfl, rfl, rfl⟩
  | new hlane h hframes hbytes => rw [sendNew_eq h]; exact ⟨rfl, rfl, rfl⟩

theorem Serves.nextLane (h : Serves probeSequence tick r lane charge r') :
    r'.scheduler.nextLane = (lane + 1) % 3 := by
  cases h with
  | unreliable h | retry hpending h | new hlane h hframes hbytes => rfl

theorem Serves.progressed (h : Serves probeSequence tick r lane charge r') :
    r'.progressed = true := by
  cases h with
  | unreliable h | retry hpending h | new hlane h hframes hbytes => rfl

theorem advance_waiting (lane : ℕ) (r : Round) : (r.advance lane).waiting = r.waiting := by
  obtain ⟨retryCursor, h⟩ := advance_eq lane r
  rw [h]
  rfl

/-- The frames that wait in a lane. -/
def frames (lane : ℕ) (r : Round) : List QueuedFrame :=
  match lane with
  | 0 => r.scheduler.unreliable
  | 1 => (r.burst.queue.sentPacket.filter fun p => !p.sent).map InFlight.packet
  | _ => r.burst.queue.packets

/-- The next frame of a lane waits in it. -/
theorem head_mem (h : r.head lane = some charge) : ∃ f ∈ r.frames lane, f.size = charge := by
  match lane with
  | 0 =>
    rw [head_zero, Option.map_eq_some_iff] at h
    obtain ⟨f, hf, hsize⟩ := h
    exact ⟨f, List.mem_of_head? hf, hsize⟩
  | 1 =>
    rw [head_one] at h
    split_ifs at h
    obtain ⟨p, hp, hsize⟩ := Option.map_eq_some_iff.mp h
    have hmem := List.mem_of_mem_drop (List.mem_of_find?_eq_some hp)
    have hunsent := List.find?_some (p := fun p : InFlight => !p.sent) hp
    exact ⟨p.packet, List.mem_map_of_mem (List.mem_filter.mpr ⟨hmem, hunsent⟩), hsize⟩
  | n + 2 =>
    rw [head_new (by omega), Option.bind_eq_some_iff] at h
    obtain ⟨f, hf, hsize⟩ := h
    split_ifs at hsize
    exact ⟨f, List.mem_of_head? hf, Option.some.inj hsize⟩

/-- No frame comes to a lane. -/
theorem Serves.frames (h : Serves probeSequence tick r lane charge r') (other : ℕ) :
    ∀ f ∈ r'.frames other, f ∈ r.frames other := by
  cases h with
  | @unreliable f rest h =>
    unfold sendUnreliable
    rw [h]
    match other with
    | 0 => exact fun g hg => by rw [Round.frames, h]; exact List.mem_cons_of_mem f hg
    | 1 | n + 2 => exact fun g hg => hg
  | @retry i p hpending h =>
    match other with
    | 0 => exact fun g hg => hg
    | 1 =>
      obtain ⟨l₁, l₂, hl, hset, -⟩ := split_at h.1
      simp only [Round.frames, charged, Burst.closeGroup, Burst.resend, hset]
      intro g hg
      rw [hl]
      simp only [List.filter_append, List.filter_cons, List.map_append, List.mem_append] at hg ⊢
      simp only [Bool.not_true, Bool.false_eq_true, if_false] at hg
      refine hg.imp id fun hg => ?_
      split_ifs
      · exact List.mem_cons_of_mem p.packet hg
      · exact hg
    | n + 2 => exact fun g hg => hg
  | @new lane f rest hlane h hframes hbytes =>
    have hnumber := newNumber_numbering r f rest
    rw [sendNew_eq h]
    match other with
    | 0 => exact fun g hg => hg
    | 1 => simp [Round.frames, charged, Burst.launch, hnumber.flight]
    | n + 2 =>
      simp only [Round.frames, charged, Burst.launch, hnumber.packets, h]
      exact fun g hg => List.mem_cons_of_mem f hg

/-- **What another lane sends does not change the next frame of a lane.** -/
theorem Serves.head_other (h : Serves probeSequence tick r lane charge r') {other size : ℕ}
    (hlane : lane < 3) (hother : other < 3) (hne : other ≠ lane)
    (hhead : r.head other = some size) : r'.head other = some size := by
  cases h with
  | @unreliable f rest h =>
    unfold sendUnreliable
    rw [h]
    obtain rfl | rfl : other = 1 ∨ other = 2 := by omega
    · rw [head_one] at hhead ⊢
      exact hhead
    · rw [head_new le_rfl] at hhead ⊢
      exact hhead
  | @retry i p hpending h =>
    obtain rfl | rfl : other = 0 ∨ other = 2 := by omega
    · rw [head_zero] at hhead ⊢
      exact hhead
    · rw [head_new le_rfl] at hhead ⊢
      simpa [charged, Burst.closeGroup, Burst.resend] using hhead
  | @new lane f rest hle h hframes hbytes =>
    have hnumber := newNumber_numbering r f rest
    rw [sendNew_eq h]
    obtain rfl | rfl : other = 0 ∨ other = 1 := by omega
    · rw [head_zero] at hhead ⊢
      exact hhead
    · rw [head_one] at hhead ⊢
      simp only [charged, Burst.launch, hnumber.flight]
      rw [newNumber_pending]
      split_ifs at hhead ⊢
      -- the new frame is sent, so the first one that waits is an old one
      obtain ⟨p, hp, hsize⟩ := Option.map_eq_some_iff.mp hhead
      have hle : r.retryCursor ≤ r.burst.queue.sentPacket.length := by
        by_contra hgt
        rw [List.drop_of_length_le (by omega)] at hp
        cases hp
      rw [List.drop_append_of_le_length hle, List.find?_append, hp]
      exact congrArg some hsize

end serves

/-! ### The loops without a count of turns -/

/-- The loop over a lane, `laneBytes` bytes into its quantum: the lane of each frame it sends, and
whether the burst is full. -/
inductive LaneRun (probeSequence : Option ℕ) (tick : ℤ) (lane quantum : ℕ) :
    ℕ → Round → List ℕ → Round → Bool → Prop
  | spent {laneBytes : ℕ} {r : Round} (h : quantum ≤ laneBytes) :
      LaneRun probeSequence tick lane quantum laneBytes r [] r false
  | stuck {laneBytes : ℕ} {r : Round} (h : laneBytes < quantum) (hstuck : r.Stuck lane) :
      LaneRun probeSequence tick lane quantum laneBytes r [] (r.advance lane) false
  | full {laneBytes charge : ℕ} {r : Round} (h : laneBytes < quantum) (hfits : r.Fits lane charge)
      (hfull : r.bytes + charge = r.scheduler.options.flushBytes) :
      LaneRun probeSequence tick lane quantum laneBytes r [lane]
        (r.serve probeSequence tick lane charge) true
  | turn {laneBytes charge : ℕ} {r r' : Round} {trace : List ℕ} {stop : Bool}
      (h : laneBytes < quantum) (hfits : r.Fits lane charge)
      (hmore : r.bytes + charge ≠ r.scheduler.options.flushBytes)
      (hrest : LaneRun probeSequence tick lane quantum (laneBytes + charge)
        (r.serve probeSequence tick lane charge) trace r' stop) :
      LaneRun probeSequence tick lane quantum laneBytes r (lane :: trace) r' stop

/-- The lanes of a round. -/
inductive LanesRun (probeSequence : Option ℕ) (tick : ℤ) (quantum start : ℕ) :
    List ℕ → Round → List ℕ → Round → Bool → Prop
  | done {r : Round} : LanesRun probeSequence tick quantum start [] r [] r false
  | stop {offset : ℕ} {offsets trace : List ℕ} {r r' : Round}
      (h : LaneRun probeSequence tick ((start + offset) % 3) quantum 0 r trace r' true) :
      LanesRun probeSequence tick quantum start (offset :: offsets) r trace r' true
  | next {offset : ℕ} {offsets trace trace' : List ℕ} {r r' r'' : Round} {stop : Bool}
      (h : LaneRun probeSequence tick ((start + offset) % 3) quantum 0 r trace r' false)
      (hrest : LanesRun probeSequence tick quantum start offsets r' trace' r'' stop) :
      LanesRun probeSequence tick quantum start (offset :: offsets) r (trace ++ trace') r'' stop

/-- A round before its first lane. -/
def cleared (r : Round) : Round := { r with progressed := false }

/-- The rounds. -/
inductive RoundsRun (probeSequence : Option ℕ) (tick : ℤ) (quantum : ℕ) :
    Round → List ℕ → Round → Prop
  | stop {r r' : Round} {trace : List ℕ}
      (h : LanesRun probeSequence tick quantum r.scheduler.nextLane [0, 1, 2] r.cleared trace
        r' true) : RoundsRun probeSequence tick quantum r trace r'
  | idle {r r' : Round}
      (h : LanesRun probeSequence tick quantum r.scheduler.nextLane [0, 1, 2] r.cleared []
        r' false) : RoundsRun probeSequence tick quantum r [] r'
  | again {r r' r'' : Round} {trace trace' : List ℕ}
      (h : LanesRun probeSequence tick quantum r.scheduler.nextLane [0, 1, 2] r.cleared trace
        r' false) (hne : trace ≠ [])
      (hrest : RoundsRun probeSequence tick quantum r' trace' r'') :
      RoundsRun probeSequence tick quantum r (trace ++ trace') r''

section runs

variable {probeSequence : Option ℕ} {tick : ℤ} {quantum : ℕ}

theorem LaneRun.waiting {lane laneBytes : ℕ} {r r' : Round} {trace : List ℕ} {stop : Bool}
    (h : LaneRun probeSequence tick lane quantum laneBytes r trace r' stop) :
    r'.waiting + trace.length = r.waiting ∧
      r'.progressed = (r.progressed || !trace.isEmpty) := by
  induction h with
  | spent h => simp
  | @stuck laneBytes r h hstuck =>
    obtain ⟨retryCursor, hadvance⟩ := advance_eq lane r
    exact ⟨advance_waiting lane r, by rw [hadvance]; simp⟩
  | full h hfits hfull => exact ⟨hfits.serves.waiting, by simp [hfits.serves.progressed]⟩
  | @turn laneBytes charge r r' trace stop h hfits hmore hrest ih =>
    have hserves : Serves probeSequence tick r lane charge _ := hfits.serves
    have hwaiting := hserves.waiting
    obtain ⟨h₁, h₂⟩ := ih
    refine ⟨by simp only [List.length_cons]; omega, ?_⟩
    rw [h₂, hserves.progressed]
    simp

theorem LanesRun.waiting {start : ℕ} {offsets : List ℕ} {r r' : Round} {trace : List ℕ}
    {stop : Bool} (h : LanesRun probeSequence tick quantum start offsets r trace r' stop) :
    r'.waiting + trace.length = r.waiting ∧
      r'.progressed = (r.progressed || !trace.isEmpty) := by
  induction h with
  | done => simp
  | stop h => exact h.waiting
  | @next offset offsets trace trace' r r' r'' stop h hrest ih =>
    obtain ⟨h₁, h₂⟩ := h.waiting
    obtain ⟨h₃, h₄⟩ := ih
    refine ⟨by simp only [List.length_append]; omega, ?_⟩
    rw [h₄, h₂]
    cases trace <;> simp

variable (probeSequence tick quantum)

/-- Enough turns for the frames that wait are enough turns. -/
theorem laneLoop_run (lane : ℕ) : ∀ (n laneBytes : ℕ) (r : Round), r.waiting < n →
    ∃ trace, LaneRun probeSequence tick lane quantum laneBytes r trace
      (laneLoop probeSequence tick lane quantum n laneBytes r).1
      (laneLoop probeSequence tick lane quantum n laneBytes r).2
  | 0, _, _, h => absurd h (Nat.not_lt_zero _)
  | n + 1, laneBytes, r, h => by
    unfold laneLoop
    by_cases hspent : quantum ≤ laneBytes
    · rw [if_pos hspent]
      exact ⟨[], .spent hspent⟩
    rw [if_neg hspent]
    obtain ⟨retryCursor, hadvance⟩ := advance_eq lane r
    have hbytes : (r.advance lane).bytes = r.bytes := by rw [hadvance]
    have hscheduler : (r.advance lane).scheduler = r.scheduler := by rw [hadvance]
    simp only
    split
    · next hnone =>
      refine ⟨[], .stuck (not_le.mp hspent) fun charge hfits => ?_⟩
      cases hnone.symm.trans hfits.head
    · next charge hcharge =>
      rw [hbytes, hscheduler]
      by_cases hroom : r.scheduler.options.flushBytes < r.bytes + charge
      · rw [if_pos hroom]
        refine ⟨[], .stuck (not_le.mp hspent) fun charge' hfits => ?_⟩
        obtain rfl : charge = charge' := Option.some.inj (hcharge.symm.trans hfits.head)
        exact absurd hfits.room (not_le.mpr hroom)
      rw [if_neg hroom]
      have hfits : r.Fits lane charge := ⟨hcharge, not_lt.mp hroom⟩
      have hserves : Serves probeSequence tick r lane charge
          ((r.advance lane).laneSend probeSequence tick lane charge) := hfits.serves
      rw [hserves.bytes.1, hserves.bytes.2.1]
      by_cases hfull : r.bytes + charge = r.scheduler.options.flushBytes
      · rw [if_pos hfull]
        exact ⟨[lane], .full (not_le.mp hspent) hfits hfull⟩
      · rw [if_neg hfull]
        have hwaiting := hserves.waiting
        obtain ⟨trace, hrest⟩ := laneLoop_run lane n (laneBytes + charge)
          ((r.advance lane).laneSend probeSequence tick lane charge) (by omega)
        exact ⟨lane :: trace, .turn (not_le.mp hspent) hfits hfull hrest⟩

theorem laneRound_run (start : ℕ) : ∀ (offsets : List ℕ) (r : Round),
    ∃ trace, LanesRun probeSequence tick quantum start offsets r trace
      (laneRound probeSequence tick quantum start offsets r).1
      (laneRound probeSequence tick quantum start offsets r).2
  | [], r => ⟨[], .done⟩
  | offset :: offsets, r => by
    obtain ⟨trace, hlane⟩ := laneLoop_run probeSequence tick quantum ((start + offset) % 3)
      (r.waiting + 1) 0 r (Nat.lt_succ_self _)
    unfold laneRound
    simp only
    split_ifs with hstop
    · rw [hstop] at hlane
      exact ⟨trace, .stop hlane⟩
    · rw [Bool.eq_false_iff.mpr hstop] at hlane
      obtain ⟨trace', hrest⟩ := laneRound_run start offsets
        (laneLoop probeSequence tick ((start + offset) % 3) quantum (r.waiting + 1) 0 r).1
      exact ⟨trace ++ trace', .next hlane hrest⟩

/-- **The loops end**: the frames that wait are enough rounds. -/
theorem rounds_run : ∀ (n : ℕ) (r : Round), r.waiting < n →
    ∃ trace, RoundsRun probeSequence tick quantum r trace (rounds probeSequence tick quantum n r)
  | 0, _, h => absurd h (Nat.not_lt_zero _)
  | n + 1, r, h => by
    obtain ⟨trace, hround⟩ := laneRound_run probeSequence tick quantum r.scheduler.nextLane [0, 1, 2]
      r.cleared
    have hwaiting : r.cleared.waiting = r.waiting := rfl
    obtain ⟨hwait, hprogressed⟩ := hround.waiting
    have hcleared : r.cleared.progressed = false := rfl
    rw [hcleared, Bool.false_or] at hprogressed
    unfold rounds
    simp only
    rw [show ({ r with progressed := false } : Round) = r.cleared from rfl]
    generalize laneRound probeSequence tick quantum r.scheduler.nextLane [0, 1, 2] r.cleared = x at *
    obtain ⟨r', stop⟩ := x
    simp only at *
    cases stop with
    | true => exact ⟨trace, .stop hround⟩
    | false =>
      cases trace with
      | nil =>
        rw [hprogressed]
        exact ⟨[], .idle hround⟩
      | cons lane trace =>
        rw [hprogressed]
        simp only [List.length_cons] at hwait
        obtain ⟨trace', hrest⟩ := rounds_run n r' (by omega)
        exact ⟨lane :: trace ++ trace', .again hround (by simp) hrest⟩

variable {probeSequence tick quantum}

theorem LaneRun.full_bytes {lane laneBytes : ℕ} {r r' : Round} {trace : List ℕ}
    (h : LaneRun probeSequence tick lane quantum laneBytes r trace r' true) :
    r'.bytes = r'.scheduler.options.flushBytes := by
  generalize hstop : true = stop at h
  induction h with
  | spent h | stuck h hstuck => cases hstop
  | @full laneBytes charge r h hfits hfull =>
    have hserves : Serves probeSequence tick r lane charge _ := hfits.serves
    rw [hserves.bytes.1, hserves.bytes.2.1, hfull]
  | turn h hfits hmore hrest ih => exact ih hstop

theorem LanesRun.full_bytes {start : ℕ} {offsets : List ℕ} {r r' : Round} {trace : List ℕ}
    (h : LanesRun probeSequence tick quantum start offsets r trace r' true) :
    r'.bytes = r'.scheduler.options.flushBytes := by
  generalize hstop : true = stop at h
  induction h with
  | done => cases hstop
  | stop h => exact h.full_bytes
  | next h hrest ih => exact ih hstop

theorem LaneRun.idle (hquantum : 0 < quantum) {lane : ℕ} {r r' : Round} {stop : Bool}
    (h : LaneRun probeSequence tick lane quantum 0 r [] r' stop) :
    r.Stuck lane ∧ r' = r.advance lane := by
  cases h with
  | spent h => omega
  | stuck h hstuck => exact ⟨hstuck, rfl⟩

/-- A round that sends nothing finds every lane stuck. -/
theorem LanesRun.idle (hquantum : 0 < quantum) {start : ℕ} {offsets : List ℕ} {r r' : Round}
    {stop : Bool} (h : LanesRun probeSequence tick quantum start offsets r [] r' stop) :
    (∀ lane, r.Stuck lane → r'.Stuck lane) ∧
      (∀ offset ∈ offsets, r'.Stuck ((start + offset) % 3)) := by
  generalize htrace : [] = trace at h
  induction h with
  | done => exact ⟨fun _ h => h, fun _ h => (List.not_mem_nil h).elim⟩
  | @stop offset offsets trace r r' h =>
    subst htrace
    generalize hstop : true = stop at h
    cases h with
    | spent h => omega
    | stuck h hstuck => cases hstop
  | @next offset offsets trace trace' r r' r'' stop h hrest ih =>
    obtain ⟨rfl, rfl⟩ := List.append_eq_nil_iff.mp htrace.symm
    obtain ⟨hstuck, rfl⟩ := h.idle hquantum
    obtain ⟨hkeep, hall⟩ := ih rfl
    refine ⟨fun lane h => hkeep lane (h.advance _), fun o ho => ?_⟩
    rcases List.mem_cons.mp ho with rfl | ho
    · exact hkeep _ (hstuck.advance _)
    · exact hall o ho

/-- The rule of the loops: what holds of the lanes served so far and is kept by every frame that is
sent, holds in the end. -/
theorem LaneRun.preserves {I : List ℕ → Round → Prop} {lane laneBytes : ℕ} {r r' : Round}
    {trace : List ℕ} {stop : Bool}
    (hadvance : ∀ {t r} lane, I t r → I t (r.advance lane))
    (hserve : ∀ {t r charge r'}, I t r → r.Fits lane charge →
      Serves probeSequence tick r lane charge r' → I (t ++ [lane]) r')
    (h : LaneRun probeSequence tick lane quantum laneBytes r trace r' stop) (served : List ℕ)
    (hI : I served r) : I (served ++ trace) r' := by
  induction h generalizing served with
  | spent h => simpa using hI
  | stuck h hstuck => simpa using hadvance lane hI
  | full h hfits hfull => exact hserve hI hfits hfits.serves
  | turn h hfits hmore hrest ih =>
    have := ih _ (hserve hI hfits hfits.serves)
    rwa [List.append_assoc] at this

theorem LanesRun.preserves {I : List ℕ → Round → Prop} {start : ℕ} {offsets : List ℕ}
    {r r' : Round} {trace : List ℕ} {stop : Bool}
    (hadvance : ∀ {t r} lane, I t r → I t (r.advance lane))
    (hserve : ∀ {t r lane charge r'}, lane < 3 → I t r → r.Fits lane charge →
      Serves probeSequence tick r lane charge r' → I (t ++ [lane]) r')
    (h : LanesRun probeSequence tick quantum start offsets r trace r' stop) (served : List ℕ)
    (hI : I served r) : I (served ++ trace) r' := by
  induction h generalizing served with
  | done => simpa using hI
  | stop h => exact h.preserves hadvance (hserve (Nat.mod_lt _ (by omega))) served hI
  | next h hrest ih =>
    have := ih _ (h.preserves hadvance (hserve (Nat.mod_lt _ (by omega))) served hI)
    rwa [List.append_assoc] at this

theorem RoundsRun.preserves {I : List ℕ → Round → Prop} {r r' : Round} {trace : List ℕ}
    (hclear : ∀ {t r}, I t r → I t r.cleared)
    (hadvance : ∀ {t r} lane, I t r → I t (r.advance lane))
    (hserve : ∀ {t r lane charge r'}, lane < 3 → I t r → r.Fits lane charge →
      Serves probeSequence tick r lane charge r' → I (t ++ [lane]) r')
    (h : RoundsRun probeSequence tick quantum r trace r') (served : List ℕ) (hI : I served r) :
    I (served ++ trace) r' := by
  induction h generalizing served with
  | stop h | idle h => exact h.preserves hadvance hserve served (hclear hI)
  | again h hne hrest ih =>
    have := ih _ (h.preserves hadvance hserve served (hclear hI))
    rwa [List.append_assoc] at this

/-- **Nothing that fits is left behind**: when the loops end, every lane is stuck. -/
theorem RoundsRun.stuck (hquantum : 0 < quantum) {r r' : Round} {trace : List ℕ}
    (h : RoundsRun probeSequence tick quantum r trace r')
    (hpos : ∀ lane charge, r'.head lane = some charge → 0 < charge) :
    ∀ lane < 3, r'.Stuck lane := by
  induction h with
  | stop h =>
    intro lane _ charge hfits
    have hfull := h.full_bytes
    have hlt := hpos lane charge hfits.head
    have hroom := hfits.room
    omega
  | @idle r r' h =>
    intro lane hlane
    -- the three offsets reach every lane
    obtain ⟨offset, hoffset, rfl⟩ : ∃ offset ∈ [0, 1, 2],
        (r.scheduler.nextLane + offset) % 3 = lane := by
      simp only [List.mem_cons, List.not_mem_nil, or_false, exists_eq_or_imp, exists_eq_left]
      omega
    exact (h.idle hquantum).2 offset hoffset
  | again h hne hrest ih => exact ih hpos

end runs

end Round

/-- **A scheduled flush is a run of the loops**, which ends. -/
theorem scheduled_rounds {B : Build} {q : SendQ} {s : SendScheduler} (hs : q.scheduler = some s)
    (hpath : (!s.useLegacy || !s.unreliable.isEmpty) = true) (tick : ℤ) :
    ∃ trace r, Round.RoundsRun (q.prepared B tick).probeReplay tick
        (((q.prepared B tick).mtu : ℕ) * 4) ((q.prepared B tick).startRound s) trace r ∧
      q.flush B tick = (r.burst.output, r.burst.queue.finish r.scheduler) := by
  obtain ⟨trace, hrun⟩ := Round.rounds_run (q.prepared B tick).probeReplay tick
    (((q.prepared B tick).mtu : ℕ) * 4) (((q.prepared B tick).startRound s).waiting + 1)
    ((q.prepared B tick).startRound s) (Nat.lt_succ_self _)
  exact ⟨trace, _, hrun, flush_scheduled hs hpath⟩

end RustRaknet.Send
