import RustRaknet.Send.Refinement

/-! # What becomes of the frames in flight

Between two bursts a frame in flight can be taken for lost, it can be retired, and its count of
retries can be eased. These are all the changes that the operations of the queue other than a flush
make to the flight and to the next number (`step_fates`), and the search of a flush for timeouts
makes no others, except that a tail probe renumbers the whole flight (`tick_fates`). The ledger
forgets the clocks of the flight; here they are kept. -/

namespace RustRaknet.Send

open RustRaknet.Frame RustRaknet.Sequence RustRaknet.Lib.Result Ledger

/-- The frames in flight, the next number, and whether a frame may wait to be sent again. -/
structure Deck where
  flight : List InFlight
  allocated : ℕ
  pending : Bool

/-- The flight of a queue. -/
def SendQ.deck (q : SendQ) : Deck := ⟨q.sentPacket, q.allocated, q.retriesPending⟩

/-- The entry with a count of retries that was eased. -/
def InFlight.eased (p : InFlight) : InFlight := { p with retries := min p.retries 1 }

/-- **What becomes of the frames in flight.** -/
inductive Fate (D : Deck) : Deck → Prop
  /-- A frame is taken for lost. -/
  | reissue {i : ℕ} {p : InFlight} (h : D.flight[i]? = some p) (hp : p.sent = true)
      (sequence : ℕ) (time : ℤ) :
      Fate D ⟨D.flight.set i { p.renumber sequence D.allocated with time }, D.allocated + 1, true⟩
  /-- Frames are retired. -/
  | retire {flight : List InFlight} (h : flight.Sublist D.flight) : Fate D { D with flight }
  /-- The counts of retries are eased. -/
  | ease : Fate D { D with flight := D.flight.map InFlight.eased }
  /-- A number is given to a frame that waits in the queue. -/
  | skip : Fate D { D with allocated := D.allocated + 1 }

/-- A sequence of fates. -/
abbrev Fates : Deck → Deck → Prop := Relation.ReflTransGen Fate

section feedback

variable {B : Build}

theorem reissue_fates {q : SendQ} {i : ℕ} {p : InFlight} (h : q.sentPacket[i]? = some p)
    (hp : p.sent = true) (time : ℤ) : Fates q.deck (q.reissue i p time).deck :=
  .single (.reissue h hp _ time)

/-! ### Acknowledgements -/

theorem progress_fates (q : SendQ) (retired sampled : Bool) (tick : ℤ) :
    Fates q.deck (q.progress B retired sampled tick).deck := by
  unfold SendQ.progress SendQ.acknowledgeProgress
  split_ifs
  · split
    · exact .refl
    · simp only
      split_ifs
      · exact .single .ease
      · exact .refl
  · exact .refl

/-- After its frames are removed, feedback only takes frames for lost and eases their retries. -/
theorem ackRule_fates : AckRule B fun q q' => Fates q.deck q'.deck where
  refl _ := .refl
  trans h h' := h.trans h'
  reissue h hp time := reissue_fates h hp time
  advanceAck _ _ := .refl
  progress := progress_fates
  ungroup _ := .refl
  release _ _ := .refl
  updateRto _ _ := .refl
  setLatency _ _ _ := .refl

theorem remove_fates (q : SendQ) (i : ℕ) : Fates q.deck (q.remove i).deck :=
  .single (.retire (List.eraseIdx_sublist _ _))

theorem settle_fates (q : SendQ) (grouped : Bool) (ranges : List (ℕ × ℕ)) (tick : ℤ) :
    Fates q.deck (q.settle (q.scan B grouped ranges tick)).deck := by
  refine .single (.retire ?_)
  show (q.scan B grouped ranges tick).kept.Sublist q.sentPacket
  rw [scan_kept]
  exact List.filter_sublist

end feedback

/-! ### Timeouts -/

section timeouts

variable {B : Build} {tick : ℤ}

theorem expire_fates (q : SendQ) : Fates q.deck (q.expire B tick).deck := by
  have hrule : TickRule fun q q' => Fates q.deck q'.deck := {
    (ackRule_fates (B := B)).toNackRule with
    clock _ _ := .refl
    dropProbe _ := .refl }
  exact hrule.expire B q tick

/-- The flight of a tail probe: the whole flight, renumbered. -/
def Deck.replay (D : Deck) (sequence : ℕ) : Deck :=
  ⟨D.flight.map fun p => p.renumber sequence D.allocated, D.allocated + 1, true⟩

/-- **The search for timeouts** takes frames for lost, or starts a probe. -/
theorem tick_fates (q : SendQ) :
    Fates q.deck (q.tick B tick).deck ∨ B.recoveryPolicy = true ∧
      ∃ first, Tail q first ∧ (q.tick B tick).deck = q.deck.replay q.sequenceNumber := by
  rcases hcase : (B.recoveryPolicy && q.recovery.isSome) with _ | _
  · refine .inl ?_
    unfold SendQ.tick
    rw [if_neg (by simp [hcase])]
    exact expire_fates q
  rcases tick_cases (B := B) q tick with h | ⟨first, r, h, htail⟩
  · exact .inl (h ▸ expire_fates q)
  · refine .inr ⟨(Bool.and_eq_true_iff.mp hcase).1, first, htail, ?_⟩
    have hreplay : (q.replay first r).deck = q.deck.replay q.sequenceNumber := by
      refine congrArg (Deck.mk · (q.allocated + 1) true) (List.map_congr_left fun p hp => ?_)
      rw [← (htail.flight p hp).2.2]
      rfl
    have hunsent : ∀ p ∈ (q.replay first r).sentPacket, p.sent = false := by
      intro p hp
      obtain ⟨p', -, rfl⟩ := List.mem_map.mp hp
      rfl
    rw [h, ← hreplay]
    rcases expire_unsent (B := B) hunsent tick with he | he | he <;> rw [he] <;> rfl

/-- The flight when a flush begins to send: some frames have been taken for lost, or a probe has
started with all of them, and they may have been sorted. -/
theorem prepared_deck (B : Build) (q : SendQ) (tick : ℤ) :
    ∃ D : Deck, (q.prepared B tick).sentPacket.Perm D.flight ∧
      (q.prepared B tick).allocated = D.allocated ∧ (q.prepared B tick).retriesPending = D.pending ∧
      (Fates q.deck D ∨ D = q.deck.replay q.sequenceNumber ∧
        ∀ p ∈ q.sentPacket, ∀ p' ∈ q.sentPacket, p.sequence = p'.sequence) := by
  obtain ⟨nextRetry, recovery, hentered⟩ := entered_eq B q tick
  have hfates : Fates (q.entered B tick).deck ((q.entered B tick).tick B tick).deck ∨ _ :=
    tick_fates (q.entered B tick)
  refine ⟨((q.entered B tick).tick B tick).deck, sortFlight_perm _, ?_, ?_, hfates.imp ?_ ?_⟩
  · unfold SendQ.prepared SendQ.sortFlight
    split_ifs <;> rfl
  · unfold SendQ.prepared SendQ.sortFlight
    split_ifs <;> rfl
  · intro hfates
    rwa [show (q.entered B tick).deck = q.deck by rw [hentered]; rfl] at hfates
  · rintro ⟨-, first, htail, hreplay⟩
    rw [hreplay, hentered]
    refine ⟨rfl, fun p hp p' hp' => ?_⟩
    rw [hentered] at htail
    exact (htail.flight p hp).2.2.trans (htail.flight p' hp').2.2.symm

end timeouts

/-! ### Operations -/

section operations

variable {B : Build}

theorem pushUnreliable_fates (q : SendQ) (frame : FrameSetPacket) :
    Fates q.deck (q.pushUnreliable B frame).deck := by
  unfold SendQ.pushUnreliable
  simp only
  split_ifs
  · cases hs : q.scheduler with
    | none => exact .single .skip
    | some s => exact .refl
  · exact .refl

theorem insertPayload_fates {q q' : SendQ} {m : Message} (h : q.insertPayload B m = .ok q') :
    Fates q.deck q'.deck := by
  have hrule : PushRule B fun q q' => Fates q.deck q'.deck := ⟨.trans, pushUnreliable_fates,
    fun _ _ => .refl, fun _ _ => .refl, fun _ _ => .refl, fun _ _ => .refl, fun _ => .refl⟩
  exact hrule.insert (fun _ _ => .refl) h

theorem ensureScheduler_deck (q : SendQ) : q.ensureScheduler.deck = q.deck := by
  unfold SendQ.ensureScheduler
  cases q.scheduler <;> rfl

/-- **The operations other than a flush** make no other changes to the flight. -/
theorem step_fates {r : Run} {op : Op} (hop : ∀ tick, op ≠ .flush tick) :
    Fates r.queue.deck (r.step B op).queue.deck := by
  cases op with
  | insert m => exact Run.insert_cases (fun q hq => insertPayload_fates hq) .refl
  | flush tick => exact absurd rfl (hop tick)
  | ack sequence tick =>
    exact ackRule_fates.ack r.queue remove_fates (settle_fates · · · tick) sequence
  | ackRanges ranges tick =>
    exact ackRule_fates.ackRangesInner r.queue remove_fates (settle_fates · · · tick) _ ranges
  | nack sequence tick => exact (ackRule_fates (B := B)).nack r.queue sequence
  | nackRanges ranges tick => exact (ackRule_fates (B := B)).nackRanges r.queue ranges
  | enableCoalescing => exact .refl
  | setSendOptions options =>
    refine Run.setSendOptions_cases (fun q _ hq => ?_) .refl
    unfold SendQ.setSendOptions at hq
    obtain ⟨-, hq⟩ := guard_eq_ok.mp hq
    have hdeck : q.deck = r.queue.deck := by
      rw [← Except.ok.inj hq]
      exact ensureScheduler_deck r.queue
    rw [hdeck]
  | setRecoveryOptions options now => exact Run.setRecoveryOptions_cases (fun _ => .refl) .refl

end operations

end RustRaknet.Send
