import RustRaknet.Lib.Machine
import RustRaknet.Send.Ledger

/-! # Before new frames are sent

`tick`, the sort of the flight and the retransmissions come before the loop of `flush` over the
queue. They change the numbers and clocks of the frames in flight, the flags that say so, and the
state of the recovery; the rest of the queue stays (`settled`), and so do the frames in flight apart
from their numbers (`bodies`). -/

namespace RustRaknet.Send

open Ledger

/-- The queue without its flight, its numbers and the state of the recovery. -/
def SendQ.settled (q : SendQ) : SendQ :=
  { q with
    sequenceNumber := 0
    allocated := 0
    recovery := none
    sentPacket := []
    flightOrderDirty := false
    nextRetry := 0
    retriesPending := false
    coalesce := false
    coalescingAllowed := false
    groupedAcks := false }

/-- The frames in flight as they were inserted. -/
def SendQ.bodies (q : SendQ) : List QueuedFrame := q.sentPacket.map fun p => p.packet.body

section prepare

variable {B : Build} {tick : ℤ}

theorem length_bodies (q : SendQ) : q.bodies.length = q.sentPacket.length := List.length_map _

/-! ### Timeouts -/

theorem reissue_bodies {q : SendQ} {i : ℕ} {item : InFlight} (time : ℤ)
    (h : q.sentPacket[i]? = some item) : (q.reissue i item time).bodies = q.bodies := by
  obtain ⟨l₁, l₂, hl, hset, -⟩ := split_at h
  simp only [SendQ.bodies, SendQ.reissue, hset]
  rw [hl]
  simp [InFlight.renumber, QueuedFrame.body, QueuedFrame.numbered]

theorem expire_keeps (q : SendQ) :
    (q.expire B tick).settled = q.settled ∧ (q.expire B tick).bodies = q.bodies := by
  have hrule : TickRule fun q q' : SendQ => q'.settled = q.settled ∧ q'.bodies = q.bodies := {
    refl _ := ⟨rfl, rfl⟩
    trans h h' := ⟨h'.1.trans h.1, h'.2.trans h.2⟩
    reissue h _ time := ⟨rfl, reissue_bodies time h⟩
    clock _ _ := ⟨rfl, rfl⟩
    dropProbe _ := ⟨rfl, rfl⟩ }
  exact hrule.expire B q tick

theorem probeTail_keeps (q : SendQ) :
    (q.probeTail tick).settled = q.settled ∧ (q.probeTail tick).bodies = q.bodies := by
  unfold SendQ.probeTail
  simp only
  split_ifs
  · exact ⟨rfl, rfl⟩
  · split
    · refine ⟨rfl, ?_⟩
      simp [SendQ.bodies, SendQ.replay, InFlight.renumber, QueuedFrame.body, QueuedFrame.numbered]
    · exact ⟨rfl, rfl⟩

theorem tick_keeps (q : SendQ) :
    (q.tick B tick).settled = q.settled ∧ (q.tick B tick).bodies = q.bodies := by
  unfold SendQ.tick
  split_ifs
  · obtain ⟨hsettled, hbodies⟩ := expire_keeps (B := B) (q.probeTail tick)
    obtain ⟨hsettled', hbodies'⟩ := probeTail_keeps q
    exact ⟨hsettled.trans hsettled', hbodies.trans hbodies'⟩
  · exact expire_keeps q

/-- The queue after the beginning of `flush`. -/
def SendQ.entered (B : Build) (q : SendQ) (tick : ℤ) : SendQ :=
  if B.recoveryPolicy then q.resetRecovery tick else q

/-- The beginning of `flush` changes only a deadline and the state of the recovery. -/
theorem entered_eq (B : Build) (q : SendQ) (tick : ℤ) :
    ∃ nextRetry recovery, q.entered B tick = { q with nextRetry, recovery } := by
  unfold SendQ.entered SendQ.resetRecovery
  split_ifs
  · exact ⟨_, _, rfl⟩
  · exact ⟨_, _, rfl⟩
  · exact ⟨_, _, rfl⟩

/-- A flush takes one of its two loops. -/
theorem flush_cases (B : Build) (q : SendQ) (tick : ℤ) :
    q.scheduler.all (fun s => s.useLegacy && s.unreliable.isEmpty) = true ∧
      q.flush B tick = (q.entered B tick).flushLegacy B tick ∨
    ∃ s, q.scheduler = some s ∧ (!s.useLegacy || !s.unreliable.isEmpty) = true ∧
      q.flush B tick = (q.entered B tick).flushScheduled B tick s := by
  obtain ⟨nextRetry, recovery, he⟩ := entered_eq B q tick
  have hs : (q.entered B tick).scheduler = q.scheduler := by rw [he]
  unfold SendQ.flush
  simp only
  rw [show (if B.recoveryPolicy = true then q.resetRecovery tick else q) = q.entered B tick from rfl,
    hs]
  cases q.scheduler with
  | none => exact .inl ⟨rfl, rfl⟩
  | some s =>
    by_cases h : (!s.useLegacy || !s.unreliable.isEmpty) = true
    · exact .inr ⟨s, rfl, h, if_pos h⟩
    · exact .inl ⟨by simpa using h, if_neg h⟩

theorem flush_legacy {q : SendQ}
    (h : q.scheduler.all (fun s => s.useLegacy && s.unreliable.isEmpty) = true) :
    q.flush B tick = (q.entered B tick).flushLegacy B tick := by
  obtain ⟨-, he⟩ | ⟨s, hs, hpath, -⟩ := flush_cases B q tick
  · exact he
  · simp_all

theorem flush_scheduled {q : SendQ} {s : SendScheduler} (hs : q.scheduler = some s)
    (h : (!s.useLegacy || !s.unreliable.isEmpty) = true) :
    q.flush B tick = (q.entered B tick).flushScheduled B tick s := by
  obtain ⟨hlegacy, -⟩ | ⟨s', hs', -, he⟩ := flush_cases B q tick
  · simp_all
  · obtain rfl := Option.some.inj (hs.symm.trans hs')
    exact he

theorem sortFlight_settled (q : SendQ) : (q.sortFlight B).settled = q.settled := by
  unfold SendQ.sortFlight
  split_ifs <;> rfl

theorem sortFlight_perm (q : SendQ) : (q.sortFlight B).sentPacket.Perm q.sentPacket := by
  unfold SendQ.sortFlight
  split_ifs
  · exact B.sort_perm q.sentPacket
  · exact .refl _

theorem tick_sort_settled (q : SendQ) : ((q.tick B tick).sortFlight B).settled = q.settled :=
  (sortFlight_settled _).trans (tick_keeps q).1

theorem tick_sort_bodies (q : SendQ) : ((q.tick B tick).sortFlight B).bodies.Perm q.bodies := by
  rw [← (tick_keeps (B := B) q).2]
  exact (sortFlight_perm (q.tick B tick)).map _

/-! ### Retransmissions -/

theorem resendAt_settled (probeSequence : Option ℕ) (s : Burst) (i : ℕ) :
    (Burst.resendAt probeSequence tick s i).queue.settled = s.queue.settled := by
  unfold Burst.resendAt
  split
  · rfl
  · split_ifs <;> rfl

theorem resendAt_bodies (probeSequence : Option ℕ) (s : Burst) (i : ℕ) :
    (Burst.resendAt probeSequence tick s i).queue.bodies = s.queue.bodies ∧
      ∀ f ∈ (Burst.resendAt probeSequence tick s i).output.frames,
        f ∈ s.output.frames ∨ f.body ∈ s.queue.bodies := by
  unfold Burst.resendAt
  split
  · exact ⟨rfl, fun f hf => .inl hf⟩
  · next p hp =>
    split_ifs
    · exact ⟨rfl, fun f hf => .inl hf⟩
    · obtain ⟨l₁, l₂, hl, hset, -⟩ := split_at hp
      refine ⟨?_, fun f hf => ?_⟩
      · simp only [Burst.resend, SendQ.bodies, hset]
        rw [hl]
        simp
      · obtain hf | rfl := Lib.mem_snoc.mp hf
        · exact .inl hf
        · exact .inr (List.mem_map_of_mem (f := fun p : InFlight => p.packet.body)
            (List.mem_of_getElem? hp))

/-- **The retransmissions** are frames of the flight, and they stay in it. -/
theorem resendAll_keeps (q : SendQ) :
    (q.resendAll tick).queue.settled = q.settled ∧ (q.resendAll tick).queue.bodies = q.bodies ∧
      ∀ f ∈ (q.resendAll tick).output.frames, f.body ∈ q.bodies := by
  unfold SendQ.resendAll
  split_ifs
  · exact Lib.Machine.foldl_range
      (I := fun _ (s : Burst) => s.queue.settled = q.settled ∧ s.queue.bodies = q.bodies ∧
        ∀ f ∈ s.output.frames, f.body ∈ q.bodies)
      (f := Burst.resendAt q.probeReplay tick)
      (s := q.burst) ⟨rfl, rfl, by simp [SendQ.burst]⟩ q.sentPacket.length fun i s _ h => by
        obtain ⟨hsettled, hbodies, hframes⟩ := h
        obtain ⟨hbodies', hframes'⟩ := resendAt_bodies q.probeReplay s i
        refine ⟨(resendAt_settled _ s i).trans hsettled, hbodies'.trans hbodies, fun f hf => ?_⟩
        rcases hframes' f hf with hf | hf
        · exact hframes f hf
        · exact hbodies ▸ hf
  · exact ⟨rfl, rfl, by simp [SendQ.burst]⟩

end prepare

end RustRaknet.Send
