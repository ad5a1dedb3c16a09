import RustRaknet.Send.Acknowledge
import RustRaknet.Send.Trips

/-! # Karn's rule

A round-trip sample is taken from a frame that was transmitted once, and one packed datagram gives
one sample. The frames that share a datagram stand next to each other in the flight as long as their
numbers were never changed (`Unbroken`): that is what the test for the previous sample in
`ack_ranges_inner` relies on.

A negative acknowledgement sets the time of the entry although nothing is transmitted yet. Without
`recovery-policy` a frame that still waits for its first retransmission can be sampled, and the
sample is then too short (`nacked_sample_short`). No sample is wrong otherwise (`karn`). -/

namespace RustRaknet.Send

open RustRaknet.Frame RustRaknet.Lib.Machine RustRaknet.Lib.Result

/-! ### Entries of a run -/

section traced

variable {B : Build} {tick : ℤ}

theorem prepared_traced {q : SendQ} {sent : List (ℤ × QueuedFrame)}
    (h : ∀ p ∈ q.sentPacket, Traced B sent p) :
    ∀ p ∈ (q.prepared B tick).sentPacket, Traced B sent p := by
  obtain ⟨D, hperm, -, -, hfates⟩ := prepared_deck B q tick
  have hticked : ∀ p ∈ D.flight, Traced B sent p := by
    rcases hfates with hfates | ⟨rfl, -⟩
    · exact hfates.traced h
    · intro p' hp'
      obtain ⟨p, hp, rfl⟩ := List.mem_map.mp hp'
      exact (h p hp).renumber _ _ p.time
  exact fun p hp => hticked p (hperm.mem_iff.mp hp)

/-- **The entries of the flight are true** in every run. -/
theorem traced_run (B : Build) (mtu : Fin 65536) (ops : List Op) :
    ∀ p ∈ (run B mtu ops).queue.sentPacket, Traced B (history B mtu ops).transmissions p := by
  induction ops using List.reverseRecOn with
  | nil => exact fun _ hp => absurd hp List.not_mem_nil
  | append_singleton ops op ih =>
    have hw := (run_steps B mtu ops).1
    have hrun := history_run B mtu ops
    have haway := transmissions_away B mtu ops
    obtain ⟨hnodup, hqueued⟩ := bodies_nodup B mtu ops
    have hrecovery := fun hB => unrecovered_run (B := B) hB mtu ops
    rw [history_append, run_append]
    generalize history B mtu ops = h at hrun haway ih ⊢
    obtain ⟨r, sent, samples⟩ := h
    subst hrun
    generalize run B mtu ops = r at *
    by_cases hflush : ∃ tick, op = .flush tick
    · obtain ⟨tick, rfl⟩ := hflush
      obtain ⟨s, hsends, retriesPending, scheduler, hresult, -⟩ := flush_sends B r.queue tick
      have hprobe : B.recoveryPolicy = false → (r.queue.prepared B tick).probeReplay = none := by
        intro hB
        unfold SendQ.probeReplay
        rw [prepared_recovery hB (hrecovery hB)]
        rfl
      have hstart : Tracing B sent tick (r.queue.prepared B tick).burst := by
        have hsame : (r.queue.prepared B tick).burst.queue.queued = r.queue.queued :=
          prepared_queued r.queue tick
        have hbodies := prepared_bodies (B := B) r.queue tick
        refine ⟨?_, fun f hf => ?_, fun p hp => ?_⟩
        · rw [hsame]
          refine List.Perm.nodup_iff ?_ |>.mpr hnodup
          rw [List.map_append, List.map_append, List.map_map, List.map_map]
          exact hbodies.append_left _
        · rw [hsame] at hf
          refine List.filter_eq_nil_iff.mpr fun e he hbody => hqueued f hf ?_
          rw [← of_decide_eq_true hbody]
          exact haway e (List.append_nil sent ▸ he)
        · rw [show (r.queue.prepared B tick).burst.output.frames = [] from rfl, List.map_nil,
            List.append_nil]
          exact prepared_traced ih p hp
      have hend : Tracing B sent tick s := by
        clear hresult
        induction hsends with
        | refl => exact hstart
        | tail _ hstep ih => exact ih.sends hprobe hstep
      have hqueue : (r.step B (.flush tick)).queue = (r.queue.flush B tick).2 := rfl
      have hburst : (History.mk r sent samples).burst B (.flush tick) =
          (r.queue.flush B tick).1.frames.map fun f => (tick, f) := rfl
      simp only [History.step, hqueue, hburst, hresult]
      exact hend.flight
    · have hfates := step_fates (B := B) (r := r) fun tick h => hflush ⟨tick, h⟩
      have hsilent : (History.mk r sent samples).burst B op = [] := by
        cases op with
        | flush tick => exact absurd ⟨tick, rfl⟩ hflush
        | _ => rfl
      simp only [History.step, hsilent, List.append_nil]
      exact hfates.traced ih

end traced

/-! ### Frames that share a datagram -/

/-- The frames in flight whose number was never changed. -/
def Deck.originals (D : Deck) : List QueuedFrame :=
  (D.flight.filter fun p => p.previous.isEmpty).map InFlight.packet

theorem mem_originals {D : Deck} {f : QueuedFrame} :
    f ∈ D.originals ↔ ∃ p ∈ D.flight, p.previous = [] ∧ p.packet = f := by
  simp [Deck.originals, and_assoc]

/-- Between two frames of a datagram stand only frames of its number. -/
def Unbroken (l : List QueuedFrame) : Prop :=
  ∀ f g k, [f, g, k].Sublist l → f.datagram = k.datagram →
    g.frame.sequenceNumber = f.frame.sequenceNumber

theorem Unbroken.sublist {l l' : List QueuedFrame} (h : Unbroken l) (hsub : l'.Sublist l) :
    Unbroken l' :=
  fun f g k hl => h f g k (hl.trans hsub)

theorem sublist_snoc {α : Type*} {l : List α} (l' : List α) {a x : α} :
    (l' ++ [a]).Sublist (l ++ [x]) ↔ (l' ++ [a]).Sublist l ∨ (a = x ∧ l'.Sublist l) := by
  have hlast : ∀ l : List α, (l' ++ [a]).Sublist l ↔ (a :: l'.reverse).Sublist l.reverse := by
    intro l
    rw [← List.reverse_sublist, List.reverse_append, List.reverse_singleton, List.singleton_append]
  rw [hlast, hlast, List.reverse_append, List.reverse_singleton, List.singleton_append,
    List.cons_sublist_cons', List.reverse_sublist]

/-- Between two bursts original frames only leave. -/
theorem Fates.originals {D D' : Deck} (h : Fates D D') : D'.originals.Sublist D.originals := by
  induction h with
  | refl => exact .refl _
  | tail _ hfate ih =>
    refine List.Sublist.trans ?_ ih
    cases hfate with
    | @reissue i p hi hp sequence time =>
      obtain ⟨l₁, l₂, hl, hset, -⟩ := Ledger.split_at hi
      unfold Deck.originals
      rw [hset, hl]
      refine List.Sublist.map _ ?_
      rw [List.filter_append, List.filter_cons_of_neg (by simp [InFlight.renumber, pushPrevious]),
        ← List.filter_append]
      exact List.Sublist.filter _ ((List.sublist_cons_self _ _).append_left _)
    | retire hsub => exact (hsub.filter _).map _
    | ease =>
      unfold Deck.originals
      simp only [List.filter_map, List.map_map]
      exact .refl _
    | skip => exact .refl _

/-- A burst, when the numbers in `taken`, all below `a`, are not those of original frames. -/
structure Packing (taken : List ℕ) (a : ℕ) (s : Burst) : Prop where
  unbroken : Unbroken s.queue.deck.originals
  numbered : ∀ f ∈ s.queue.deck.originals, f.Numbered s.queue.allocated
  sequence : s.queue.sequenceNumber = s.queue.allocated % 16777216
  begun : a ≤ s.queue.allocated
  untaken : ∀ f ∈ s.queue.deck.originals, f.datagram ∉ taken
  group : s.queue.coalesce = true → ∀ x, s.group.sequence = some x →
    (x = s.group.datagram % 16777216 ∧ a ≤ s.group.datagram ∧
      s.group.datagram < s.queue.allocated) ∧
    ∀ f g, [f, g].Sublist s.queue.deck.originals → f.datagram = s.group.datagram →
      g.datagram = s.group.datagram

namespace Packing

variable {taken : List ℕ} {a : ℕ} {s s' : Burst}

theorem stay (h : Packing taken a s) (hflight : s'.queue.deck.originals = s.queue.deck.originals)
    (hsequence : s'.queue.sequenceNumber = s'.queue.allocated % 16777216)
    (hallocated : s.queue.allocated ≤ s'.queue.allocated)
    (hgroup : s'.queue.coalesce = true → s'.group.sequence = none ∨
      (s'.group = s.group ∧ s.queue.coalesce = true)) : Packing taken a s' := by
  refine ⟨hflight ▸ h.unbroken, fun f hf => ?_, hsequence, h.begun.trans hallocated,
    hflight ▸ h.untaken, fun hcoalesce x hx => ?_⟩
  · rw [hflight] at hf
    exact (h.numbered f hf).mono hallocated
  · rcases hgroup hcoalesce with hnone | ⟨hsame, hold⟩
    · exact absurd (hnone.symm.trans hx) (by simp)
    · rw [hsame] at hx ⊢
      obtain ⟨⟨h₁, h₂, h₃⟩, h₄⟩ := h.group hold x hx
      exact ⟨⟨h₁, h₂, h₃.trans_le hallocated⟩, hflight ▸ h₄⟩

/-- A frame enters the flight under a number that is not below `a`, behind the others of that
number. -/
theorem push {g : QueuedFrame} (h : Packing taken a s) (htaken : ∀ d ∈ taken, d < a)
    (hnew : g.Numbered s'.queue.allocated) (hbegun : a ≤ g.datagram)
    (hflight : s'.queue.deck.originals = s.queue.deck.originals ++ [g])
    (hsequence : s'.queue.sequenceNumber = s'.queue.allocated % 16777216)
    (hallocated : s.queue.allocated ≤ s'.queue.allocated)
    (hlast : ∀ f k, [f, k].Sublist s.queue.deck.originals → f.datagram = g.datagram →
      k.datagram = g.datagram)
    (hgroup : s'.queue.coalesce = true → ∀ x, s'.group.sequence = some x →
      x = g.frame.sequenceNumber ∧ s'.group.datagram = g.datagram) : Packing taken a s' := by
  have hlast' : ∀ f k, [f, k].Sublist (s.queue.deck.originals ++ [g]) →
      f.datagram = g.datagram → k.datagram = g.datagram := by
    intro f k hsub he
    rcases (sublist_snoc [f]).mp hsub with hpair | ⟨rfl, -⟩
    · exact hlast f k hpair he
    · rfl
  refine ⟨fun f k b hsub he => ?_, fun f hf => ?_, hsequence, h.begun.trans hallocated,
    fun f hf => ?_, fun hcoalesce x hx => ?_⟩
  · rw [hflight] at hsub
    rcases (sublist_snoc [f, k]).mp hsub with hthree | ⟨rfl, hpair⟩
    · exact h.unbroken f k b hthree he
    · have hf := h.numbered f (hpair.subset List.mem_cons_self)
      have hk := h.numbered k (hpair.subset (List.mem_cons_of_mem _ List.mem_cons_self))
      rw [hf.sequence, hk.sequence, hlast f k hpair he, he]
  · obtain hf | rfl := Lib.mem_snoc.mp (hflight ▸ hf)
    · exact (h.numbered f hf).mono hallocated
    · exact hnew
  · obtain hf | rfl := Lib.mem_snoc.mp (hflight ▸ hf)
    · exact h.untaken f hf
    · exact fun hmem => absurd (htaken _ hmem) (not_lt.mpr hbegun)
  · obtain ⟨rfl, hdatagram⟩ := hgroup hcoalesce x hx
    rw [hdatagram]
    exact ⟨⟨hnew.sequence, hbegun, hnew.lt⟩, hflight ▸ hlast'⟩

theorem start {g : QueuedFrame} (h : Packing taken a s) (htaken : ∀ d ∈ taken, d < a)
    (hg : g.frame.sequenceNumber = s.queue.sequenceNumber ∧ g.datagram = s.queue.allocated)
    (hflight : s'.queue.deck.originals = s.queue.deck.originals ++ [g])
    (hsequence : s'.queue.sequenceNumber = s'.queue.allocated % 16777216)
    (hallocated : s'.queue.allocated = s.queue.allocated + 1)
    (hgroup : s'.queue.coalesce = true → ∀ x, s'.group.sequence = some x →
      x = s.queue.sequenceNumber ∧ s'.group.datagram = s.queue.allocated) :
    Packing taken a s' := by
  refine h.push htaken ⟨by rw [hg.1, hg.2, h.sequence], by omega⟩ (hg.2 ▸ h.begun) hflight hsequence
    (by omega) (fun f k hpair he => ?_) fun hcoalesce x hx => ?_
  · have hf := (h.numbered f (hpair.subset List.mem_cons_self)).lt
    omega
  · rw [hg.1, hg.2]
    exact hgroup hcoalesce x hx

theorem join {g : QueuedFrame} {x : ℕ} (h : Packing taken a s) (htaken : ∀ d ∈ taken, d < a)
    (hcoalesce : s.queue.coalesce = true) (hx : s.group.sequence = some x)
    (hg : g.frame.sequenceNumber = x ∧ g.datagram = s.group.datagram)
    (hflight : s'.queue.deck.originals = s.queue.deck.originals ++ [g])
    (hsequence : s'.queue.sequenceNumber = s'.queue.allocated % 16777216)
    (hallocated : s'.queue.allocated = s.queue.allocated)
    (hgroup : s'.group.sequence = s.group.sequence ∧ s'.group.datagram = s.group.datagram) :
    Packing taken a s' := by
  obtain ⟨⟨hmod, hbegun, hlt⟩, hlast⟩ := h.group hcoalesce x hx
  refine h.push htaken ⟨by rw [hg.1, hg.2, hmod], by omega⟩ (hg.2 ▸ hbegun) hflight hsequence
    hallocated.ge (hg.2 ▸ hlast) fun _ y hy => ⟨?_, hgroup.2.trans hg.2.symm⟩
  rw [hgroup.1, hx] at hy
  rw [hg.1, Option.some.inj hy]

theorem originals_launch {q : SendQ} {f : QueuedFrame} {tick : ℤ} (a : ℕ) (pending : Bool) :
    (Deck.mk (q.sentPacket ++ [⟨f, true, tick, 0, [], []⟩]) a pending).originals =
      q.deck.originals ++ [f] := by
  simp [Deck.originals, SendQ.deck, List.filter_append]

theorem originals_resend {flight : List InFlight} {i : ℕ} {p : InFlight} (p' : InFlight)
    (hi : flight[i]? = some p) (hpacket : p'.packet = p.packet) (hprevious : p'.previous = p.previous)
    (a : ℕ) (pending : Bool) :
    (Deck.mk (flight.set i p') a pending).originals = (Deck.mk flight a pending).originals := by
  obtain ⟨l₁, l₂, hl, hset, -⟩ := Ledger.split_at hi
  unfold Deck.originals
  simp only
  rw [hset, hl]
  simp only [List.filter_append, List.filter_cons, List.map_append, hprevious]
  split_ifs
  · simp [hpacket]
  · rfl

/-- **One turn of a burst** keeps the datagrams together. -/
theorem sends {probeSequence : Option ℕ} {tick : ℤ} (h : Packing taken a s)
    (htaken : ∀ d ∈ taken, d < a) (hsends : Sends probeSequence tick s s') :
    Packing taken a s' := by
  have hnext : Sequence.next s.queue.sequenceNumber = (s.queue.allocated + 1) % 16777216 := by
    rw [h.sequence, Sequence.next_eq]
    omega
  cases hsends with
  | @resend i p hi hp =>
    have hsame : (s.resend probeSequence tick i p).closeGroup.queue.deck.originals =
        s.queue.deck.originals :=
      originals_resend { p with sent := true, time := tick, retries := _ } hi rfl rfl _ _
    exact h.stay hsame h.sequence le_rfl fun _ => .inl rfl
  | @start f rest packable hpackets hf hpackable =>
    refine h.start (g := f.numbered s.queue.sequenceNumber s.queue.allocated) htaken ⟨rfl, rfl⟩
      (originals_launch _ _) hnext rfl fun _ x hx => ⟨?_, rfl⟩
    cases packable with
    | true => exact (Option.some.inj hx).symm
    | false => cases hx
  | @join f rest x hpackets hf hx hcoalesce =>
    exact h.join (g := f.numbered x s.group.datagram) htaken hcoalesce hx ⟨rfl, rfl⟩
      (originals_launch _ _) h.sequence rfl ⟨rfl, rfl⟩
  | @fresh f rest hpackets hf hcoalesce =>
    refine h.start (g := f.numbered s.queue.sequenceNumber s.queue.allocated) htaken ⟨rfl, rfl⟩
      (originals_launch _ _) hnext rfl fun hc => ?_
    exact absurd (hcoalesce.symm.trans hc) (by simp)
  | emit hpackets hf hgroup =>
    exact h.stay rfl hnext (Nat.le_succ _) fun hc => .inl (hgroup hc)
  | emitScheduled hs hunreliable =>
    exact h.stay rfl hnext (Nat.le_succ _) fun _ => .inl rfl
  | rotate hpackets | turnTo hs hlane | clear =>
    exact h.stay rfl h.sequence le_rfl fun hc => .inr ⟨rfl, hc⟩

end Packing

/-! ### Before a burst -/

section prepared

variable {B : Build} {q : SendQ}

theorem prepared_numbered (hw : Wf B q) (tick : ℤ) :
    (q.prepared B tick).sequenceNumber = (q.prepared B tick).allocated % 16777216 := by
  have hentered : Wf B (q.entered B tick) :=
    (Moves.ite (resetRecovery_moves q tick) (.refl q) hw).1
  unfold SendQ.prepared
  rcases tick_cases (B := B) (q.entered B tick) tick with h | ⟨first, r, h, htail⟩
  · rw [h]
    exact (((tickRule_moves.expire B _ tick).trans (sortFlight_moves _)) hentered).1.numbered
  · rw [h]
    exact (replayed_expire r tick hentered htail).wf.numbered

theorem Fates.allocated_le {D D' : Deck} (h : Fates D D') : D.allocated ≤ D'.allocated := by
  induction h with
  | refl => exact le_rfl
  | tail _ hfate ih =>
    cases hfate with
    | reissue | skip => exact ih.trans (Nat.le_succ _)
    | retire | ease => exact ih

/-- Before a flush sends, original frames have only left, or the flight is sorted. -/
theorem prepared_originals (q : SendQ) (tick : ℤ) :
    q.allocated ≤ (q.prepared B tick).allocated ∧
    (∀ f ∈ (q.prepared B tick).deck.originals, f ∈ q.deck.originals) ∧
    ((q.prepared B tick).deck.originals.Sublist q.deck.originals ∨
      (q.prepared B tick).deck.originals.Pairwise fun f g =>
        f.frame.sequenceNumber ≤ g.frame.sequenceNumber) := by
  obtain ⟨nextRetry, recovery, hentered⟩ := entered_eq B q tick
  have hdeck : (q.entered B tick).deck = q.deck := by
    rw [hentered]
    rfl
  obtain ⟨hallocated, hsub⟩ : q.deck.allocated ≤ ((q.entered B tick).tick B tick).deck.allocated ∧
      ((q.entered B tick).tick B tick).deck.originals.Sublist q.deck.originals := by
    rcases tick_fates (B := B) (q.entered B tick) with hfates | ⟨-, first, -, hreplay⟩
    · rw [hdeck] at hfates
      exact ⟨hfates.allocated_le, hfates.originals⟩
    · rw [hreplay, hdeck]
      refine ⟨Nat.le_succ _, ?_⟩
      have hnone : (q.deck.replay (q.entered B tick).sequenceNumber).originals = [] := by
        refine List.eq_nil_iff_forall_not_mem.mpr fun f hf => ?_
        obtain ⟨p, hp, hprevious, -⟩ := mem_originals.mp hf
        obtain ⟨p', -, rfl⟩ := List.mem_map.mp hp
        exact Traced.pushPrevious_ne_nil _ _ hprevious
      rw [hnone]
      exact List.nil_sublist _
  unfold SendQ.prepared SendQ.sortFlight
  split_ifs
  · refine ⟨hallocated, fun f hf => hsub.subset ?_, .inr ?_⟩
    · obtain ⟨p, hp, hprevious⟩ := mem_originals.mp hf
      exact mem_originals.mpr ⟨p, (B.sort_perm _).mem_iff.mp hp, hprevious⟩
    · exact List.pairwise_map.mpr ((B.sort_sorted _).sublist List.filter_sublist)
  · exact ⟨hallocated, hsub.subset, .inl hsub⟩

/-- The burst of a flush begins with the datagrams together. -/
theorem prepared_packing {taken : List ℕ} (hw : Wf B q) (hunbroken : Unbroken q.deck.originals)
    (hnumbered : ∀ f ∈ q.deck.originals, f.Numbered q.allocated)
    (huntaken : ∀ f ∈ q.deck.originals, f.datagram ∉ taken) (tick : ℤ) :
    Packing taken (q.prepared B tick).allocated (q.prepared B tick).burst := by
  obtain ⟨hallocated, hsubset, horder⟩ := prepared_originals (B := B) q tick
  refine ⟨?_, fun f hf => (hnumbered f (hsubset f hf)).mono hallocated, prepared_numbered hw tick,
    le_rfl, fun f hf => huntaken f (hsubset f hf), fun _ x hx => ?_⟩
  · rcases horder with hsub | hsorted
    · exact hunbroken.sublist hsub
    · intro f g k hthree he
      -- the numbers ascend, and the first is the last
      have hmem : ∀ x ∈ [f, g, k], x.Numbered q.allocated := fun x hx =>
        hnumbered x (hsubset x (hthree.subset hx))
      have hsame : f.frame.sequenceNumber = k.frame.sequenceNumber := by
        rw [(hmem f (by simp)).sequence, (hmem k (by simp)).sequence, he]
      have hpairs := hsorted.sublist hthree
      simp only [List.pairwise_cons, List.mem_cons, List.not_mem_nil, or_false] at hpairs
      have hfg := hpairs.1 g (.inl rfl)
      have hgk := hpairs.2.1 k rfl
      omega
  · cases hx

end prepared

/-! ### What an acknowledgement samples -/

/-- The samples of an acknowledgement: none shares its datagram with another, nor with an original
frame that is left. -/
structure Fair (samples : List InFlight) (D : Deck) : Prop where
  nodup : (samples.map fun p => p.packet.datagram).Nodup
  left : ∀ f ∈ D.originals, ∀ p ∈ samples, f.datagram ≠ p.packet.datagram

theorem Fair.fates {samples : List InFlight} {D D' : Deck} (h : Fair samples D) (hfates : Fates D D') :
    Fair samples D' :=
  ⟨h.nodup, fun f hf => h.left f (hfates.originals.subset hf)⟩

/-- Frames whose neighbours have other numbers are of different datagrams. -/
theorem Unbroken.nodup {l : List QueuedFrame} (h : Unbroken l)
    (hnumbered : ∀ f ∈ l, f.frame.sequenceNumber = f.datagram % 16777216)
    (hchain : l.IsChain fun f g => f.frame.sequenceNumber ≠ g.frame.sequenceNumber) :
    (l.map QueuedFrame.datagram).Nodup := by
  induction l with
  | nil => exact .nil
  | cons f l ih =>
    refine List.nodup_cons.mpr ⟨fun hmem => ?_, ih (h.sublist (List.sublist_cons_self f l))
      (fun g hg => hnumbered g (List.mem_cons_of_mem _ hg)) hchain.tail⟩
    obtain ⟨k, hk, he⟩ := List.mem_map.mp hmem
    cases l with
    | nil => exact absurd hk List.not_mem_nil
    | cons g l =>
      -- the neighbour has the number of both
      refine (List.isChain_cons_cons.mp hchain).1 ?_
      rcases List.mem_cons.mp hk with rfl | hk'
      · rw [hnumbered f List.mem_cons_self, hnumbered k (List.mem_cons_of_mem _ hk), he]
      · have hthree : [f, g, k].Sublist (f :: g :: l) :=
          ((List.singleton_sublist.mpr hk').cons_cons g).cons_cons f
        exact (h f g k hthree he.symm).symm

section fair

variable {B : Build} {tick : ℤ} {q : SendQ}

/-- The fast path, when no two frames share a datagram. -/
theorem ackSingle_fair (sequence : ℕ)
    (hapart : q.sentPacket.Pairwise fun p p' => p.packet.datagram ≠ p'.packet.datagram) :
    Fair (q.samplesSingle B sequence) (q.ackSingle B sequence tick).2.deck := by
  obtain ⟨hfirst, he⟩ | ⟨index, item, hitem, hfirst, he⟩ := ackSingle_cases B q sequence tick <;>
    rw [he]
  · have hnone : q.samplesSingle B sequence = [] := by
      rw [SendQ.samplesSingle, hfirst]
      rfl
    rw [hnone]
    exact ⟨.nil, fun _ _ p hp => absurd hp List.not_mem_nil⟩
  · obtain ⟨hlt, rfl⟩ := List.getElem?_eq_some_iff.mp hitem
    have hsamples : ∀ p ∈ q.samplesSingle B sequence, p = q.sentPacket[index] := fun p hp =>
      Option.some.inj ((mem_samplesSingle hp).1.symm.trans hfirst)
    refine Fair.fates ⟨?_, fun f hf p hp => ?_⟩ (ackRule_fates.removed q sequence index _)
    · unfold SendQ.samplesSingle
      rw [hfirst, Option.toList_some]
      refine List.Nodup.sublist (List.Sublist.map _ List.filter_sublist) ?_
      exact List.nodup_singleton _
    · obtain ⟨p', hp', -, rfl⟩ := mem_originals.mp hf
      rw [hsamples p hp]
      have hmiddle : (q.sentPacket.take index ++ q.sentPacket[index] ::
          q.sentPacket.drop (index + 1)).Pairwise
          fun p p' => p.packet.datagram ≠ p'.packet.datagram := by
        rwa [List.getElem_cons_drop, List.take_append_drop]
      have hrest := (List.pairwise_cons.mp ((List.pairwise_middle fun h => h.symm).mp hmiddle)).1
      refine (hrest p' ?_).symm
      rw [← List.eraseIdx_eq_take_drop_succ]
      exact hp'

theorem samplesScan_sublist (grouped : Bool) (ranges : List (ℕ × ℕ)) :
    ∀ (l : List InFlight) (previousSample : Option ℕ),
      (SendQ.samplesScan B grouped ranges previousSample l).Sublist l
  | [], _ => .refl _
  | item :: l, previousSample => by
    unfold SendQ.samplesScan
    cases item.ids.find? (SendQ.inRanges ranges) with
    | none => exact (samplesScan_sublist grouped ranges l _).cons item
    | some id =>
      simp only
      by_cases hsample : (SendQ.unambiguous B item && (!grouped || previousSample != some id)) = true
      · rw [if_pos hsample]
        exact (samplesScan_sublist grouped ranges l _).cons_cons item
      · rw [if_neg hsample]
        exact (samplesScan_sublist grouped ranges l _).cons item

/-- The test for the previous sample: two samples in a row have different numbers. -/
theorem samplesScan_chain (ranges : List (ℕ × ℕ)) :
    ∀ (l : List InFlight) (previousSample : Option ℕ),
      (∀ p ∈ SendQ.samplesScan B true ranges previousSample l, p.previous = []) →
      (SendQ.samplesScan B true ranges previousSample l).IsChain
        (fun p p' => p.sequence ≠ p'.sequence) ∧
      ∀ p ∈ (SendQ.samplesScan B true ranges previousSample l).head?,
        previousSample ≠ some p.sequence
  | [], _, _ => ⟨.nil, fun _ hp => nomatch hp⟩
  | item :: l, previousSample, h => by
    rw [SendQ.samplesScan] at h ⊢
    cases hfind : item.ids.find? (SendQ.inRanges ranges) with
    | none =>
      simp only [hfind] at h ⊢
      exact samplesScan_chain ranges l previousSample h
    | some id =>
      simp only [hfind] at h ⊢
      by_cases hsample : (SendQ.unambiguous B item && (!true || previousSample != some id)) = true
      · rw [if_pos hsample] at h ⊢
        obtain ⟨hchain, hhead⟩ := samplesScan_chain ranges l _ fun p hp =>
          h p (List.mem_cons_of_mem _ hp)
        have hid : id = item.sequence := by
          have hmem := List.mem_of_find?_eq_some hfind
          rw [InFlight.ids, h item List.mem_cons_self] at hmem
          exact List.mem_singleton.mp hmem
        refine ⟨List.isChain_cons.mpr ⟨fun p hp => ?_, hchain⟩, fun p hp => ?_⟩
        · intro he
          exact hhead p hp (by simp [hid, he])
        · obtain rfl := Option.some.inj hp
          simpa [hid] using (Bool.and_eq_true_iff.mp hsample).2
      · rw [if_neg hsample] at h ⊢
        exact samplesScan_chain ranges l previousSample h

theorem ackScan_fair (tick : ℤ) (ranges : List (ℕ × ℕ)) (hunbroken : Unbroken q.deck.originals)
    (hnumbered : ∀ p ∈ q.sentPacket, p.packet.Numbered q.allocated)
    (hgrouped : q.groupedAcks = true ∨
      q.sentPacket.Pairwise fun p p' => p.packet.datagram ≠ p'.packet.datagram)
    (horiginal : ∀ p ∈ SendQ.samplesScan B q.groupedAcks ranges none q.sentPacket, p.previous = []) :
    Fair (SendQ.samplesScan B q.groupedAcks ranges none q.sentPacket)
      (q.ackScan B q.groupedAcks ranges tick).2.deck := by
  have hsub := samplesScan_sublist (B := B) q.groupedAcks ranges q.sentPacket none
  refine Fair.fates ⟨?_, fun f hf p hp he => ?_⟩ (ackRule_fates.settled q q.groupedAcks ranges)
  · cases hg : q.groupedAcks with
    | false =>
      have hapart := hgrouped.resolve_left (by simp [hg])
      rw [hg] at hsub
      exact List.pairwise_map.mpr (hapart.sublist hsub)
    | true =>
      rw [hg] at hsub horiginal
      generalize hS : SendQ.samplesScan B true ranges none q.sentPacket = S at hsub horiginal
      have hpackets : (S.map InFlight.packet).Sublist q.deck.originals := by
        have hall : S.filter (fun p => p.previous.isEmpty) = S :=
          List.filter_eq_self.mpr fun p hp => by simp [horiginal p hp]
        rw [← hall]
        exact (hsub.filter _).map _
      have hchain := (samplesScan_chain (B := B) ranges q.sentPacket none (hS ▸ horiginal)).1
      rw [hS] at hchain
      have hnodup := (hunbroken.sublist hpackets).nodup (fun f hf => ?_)
        ((List.isChain_map InFlight.packet).mpr hchain)
      · rwa [List.map_map] at hnodup
      · obtain ⟨p, hp, rfl⟩ := List.mem_map.mp hf
        exact (hnumbered p (hsub.subset hp)).sequence
  · obtain ⟨p', hp', hprevious, rfl⟩ := mem_originals.mp hf
    have hkept : p' ∈ q.sentPacket ∧ p'.ids.any (SendQ.inRanges ranges) = false := by
      rw [show (q.settle (q.scan B q.groupedAcks ranges tick)).deck.flight =
        (q.scan B q.groupedAcks ranges tick).kept from rfl, scan_kept] at hp'
      simpa using hp'
    obtain ⟨hmem, ⟨id, hid, hin⟩, -⟩ := mem_samplesScan hp
    rw [InFlight.ids, horiginal p hp] at hid
    -- the frame that is left has the number that was acknowledged
    have hsame : p'.sequence = id := by
      rw [List.mem_singleton.mp hid]
      show p'.packet.frame.sequenceNumber = p.packet.frame.sequenceNumber
      rw [(hnumbered p' hkept.1).sequence, (hnumbered p hmem).sequence, he]
    have hnamed : p'.ids.any (SendQ.inRanges ranges) = true :=
      List.any_eq_true.mpr ⟨id, hsame ▸ List.mem_cons_self, hin⟩
    exact absurd (hnamed.symm.trans hkept.2) (by simp)

theorem pairwise_of_short (h : q.sentPacket.length ≤ 1) :
    q.sentPacket.Pairwise fun p p' => p.packet.datagram ≠ p'.packet.datagram := by
  rcases hl : q.sentPacket with _ | ⟨p, _ | ⟨p', l⟩⟩
  · exact .nil
  · exact List.pairwise_singleton _ _
  · simp [hl] at h

theorem ackRanges_fair (ranges : List (ℕ × ℕ)) (hunbroken : Unbroken q.deck.originals)
    (hnumbered : ∀ p ∈ q.sentPacket, p.packet.Numbered q.allocated)
    (hgrouped : q.groupedAcks = true ∨
      q.sentPacket.Pairwise fun p p' => p.packet.datagram ≠ p'.packet.datagram)
    (horiginal : ∀ p ∈ q.samplesRanges B ranges, p.previous = []) :
    Fair (q.samplesRanges B ranges) (q.ackRanges B ranges tick).2.deck := by
  have hscan := ackScan_fair (B := B) tick ranges hunbroken hnumbered hgrouped
  unfold SendQ.samplesRanges SendQ.ackRanges SendQ.ackRangesInner at *
  rcases ranges with _ | ⟨⟨a, b⟩, _ | ⟨r, rest⟩⟩
  · exact hscan horiginal
  · simp only at horiginal ⊢
    by_cases hsingle : a = b ∧ (¬ q.groupedAcks ∨ q.sentPacket.length ≤ 1)
    · rw [if_pos hsingle, if_pos hsingle]
      exact ackSingle_fair a (hsingle.2.elim hgrouped.resolve_left pairwise_of_short)
    · rw [if_neg hsingle] at horiginal ⊢
      rw [if_neg hsingle]
      exact hscan horiginal
  · exact hscan horiginal

end fair

/-- **The samples of an operation** are of different datagrams, of which no original frame is
left. -/
theorem step_fair {B : Build} {r : Run} {op : Op} (hunbroken : Unbroken r.queue.deck.originals)
    (hnumbered : ∀ p ∈ r.queue.sentPacket, p.packet.Numbered r.queue.allocated)
    (hgrouped : r.queue.groupedAcks = true ∨
      r.queue.sentPacket.Pairwise fun p p' => p.packet.datagram ≠ p'.packet.datagram)
    (horiginal : ∀ p ∈ r.queue.samples B op, p.previous = []) :
    Fair (r.queue.samples B op) (r.step B op).queue.deck := by
  have hnone : ∀ D, Fair [] D := fun _ => ⟨.nil, fun _ _ _ hp => absurd hp List.not_mem_nil⟩
  cases op with
  | ack sequence tick =>
    show Fair _ (r.queue.ack B sequence tick).2.deck
    unfold SendQ.samples SendQ.ack at *
    simp only at horiginal ⊢
    by_cases hgroup : (r.queue.groupedAcks && decide (1 < r.queue.sentPacket.length)) = true
    · rw [if_pos hgroup] at horiginal ⊢
      rw [if_pos hgroup]
      exact ackRanges_fair _ hunbroken hnumbered hgrouped horiginal
    · rw [if_neg hgroup, if_neg hgroup]
      refine ackSingle_fair sequence ?_
      rcases hgrouped with hg | hapart
      · exact pairwise_of_short (not_lt.mp (by simpa [hg] using hgroup))
      · exact hapart
  | ackRanges ranges tick => exact ackRanges_fair ranges hunbroken hnumbered hgrouped horiginal
  | _ => exact hnone _

/-! ### Runs -/

/-- The operation acknowledges no frame that waits for its first retransmission, or the build has
`recovery-policy`. -/
def Settled (B : Build) (h : History) (op : Op) : Prop :=
  B.recoveryPolicy = true ∨
    ∀ p ∈ h.run.queue.sentPacket, op.Names p → p.retries = 0 → p.sent = true

instance (B : Build) (h : History) (op : Op) : Decidable (Settled B h op) :=
  inferInstanceAs (Decidable (_ ∨ _))

/-- The datagrams that gave a sample. -/
def History.sampled (h : History) : List ℕ := h.samples.map fun e => e.2.packet.datagram

/-- **A datagram gives one sample**: those sampled have no original frame left. -/
structure Sampled (h : History) : Prop where
  unbroken : Unbroken h.run.queue.deck.originals
  untaken : ∀ f ∈ h.run.queue.deck.originals, f.datagram ∉ h.sampled
  below : ∀ d ∈ h.sampled, d < h.run.queue.allocated
  nodup : h.sampled.Nodup

theorem sample_original {B : Build} {h : History} {op : Op} {p : InFlight}
    (htraced : ∀ p ∈ h.run.queue.sentPacket, Traced B h.transmissions p)
    (hp : p ∈ h.run.queue.samples B op) (hsent : B.recoveryPolicy = true ∨ p.sent = true) :
    p.previous = [] := by
  obtain ⟨hmem, -, hsample⟩ := mem_samples hp
  obtain ⟨hretries, hrecovery⟩ := Bool.and_eq_true_iff.mp hsample
  cases hB : B.recoveryPolicy with
  | true => simpa [hB] using hrecovery
  | false =>
    exact (htraced p hmem).settled hB (by simpa using hretries) (hsent.resolve_left (by simp [hB]))

theorem Settled.sent {B : Build} {h : History} {op : Op} {p : InFlight} (hsettled : Settled B h op)
    (hp : p ∈ h.run.queue.samples B op) : B.recoveryPolicy = true ∨ p.sent = true := by
  obtain ⟨hmem, hnames, hsample⟩ := mem_samples hp
  refine hsettled.imp_right fun h => h p hmem hnames ?_
  simpa using (Bool.and_eq_true_iff.mp hsample).1

theorem originals_numbered {q : SendQ} (h : ∀ p ∈ q.sentPacket, p.packet.Numbered q.allocated) :
    ∀ f ∈ q.deck.originals, f.Numbered q.allocated := by
  intro f hf
  obtain ⟨p, hp, -, rfl⟩ := mem_originals.mp hf
  exact h p hp

theorem Sampled.step {B : Build} {h : History} {op : Op} (hsampled : Sampled h)
    (hw : Wf B h.run.queue)
    (hnumbered : ∀ p ∈ h.run.queue.sentPacket, p.packet.Numbered h.run.queue.allocated)
    (hgrouped : h.run.queue.groupedAcks = true ∨
      h.run.queue.sentPacket.Pairwise fun p p' => p.packet.datagram ≠ p'.packet.datagram)
    (horiginal : ∀ p ∈ h.run.queue.samples B op, p.previous = []) : Sampled (h.step B op) := by
  by_cases hflush : ∃ tick, op = .flush tick
  · obtain ⟨tick, rfl⟩ := hflush
    have hsame : (h.step B (.flush tick)).sampled = h.sampled := by
      simp [History.sampled, History.step, SendQ.samples]
    have hallocated := (prepared_originals (B := B) h.run.queue tick).1
    have htaken : ∀ d ∈ h.sampled, d < (h.run.queue.prepared B tick).allocated := fun d hd =>
      (hsampled.below d hd).trans_le hallocated
    obtain ⟨s, hsends, retriesPending, scheduler, hresult, -⟩ := flush_sends B h.run.queue tick
    have hend : Packing h.sampled (h.run.queue.prepared B tick).allocated s := by
      clear hresult
      induction hsends with
      | refl =>
        exact prepared_packing hw hsampled.unbroken (originals_numbered hnumbered) hsampled.untaken
          tick
      | tail _ hstep ih => exact ih.sends htaken hstep
    have hqueue : (h.step B (.flush tick)).run.queue =
        { s.queue with retriesPending, scheduler } := congrArg Prod.snd hresult
    refine ⟨?_, ?_, ?_, hsame ▸ hsampled.nodup⟩
    · rw [hqueue]
      exact hend.unbroken
    · rw [hqueue, hsame]
      exact hend.untaken
    · rw [hqueue, hsame]
      exact fun d hd => (htaken d hd).trans_le hend.begun
  · have hfates := step_fates (B := B) (r := h.run) fun tick h => hflush ⟨tick, h⟩
    have hfair := step_fair hsampled.unbroken hnumbered hgrouped horiginal
    have hsnoc : (h.step B op).sampled =
        h.sampled ++ (h.run.queue.samples B op).map fun p => p.packet.datagram := by
      simp [History.sampled, History.step, Function.comp_def]
    refine ⟨hsampled.unbroken.sublist hfates.originals, fun f hf hmem => ?_, fun d hd => ?_, ?_⟩
    · rcases List.mem_append.mp (hsnoc ▸ hmem) with hold | hnew
      · exact hsampled.untaken f (hfates.originals.subset hf) hold
      · obtain ⟨p, hp, he⟩ := List.mem_map.mp hnew
        exact hfair.left f hf p hp he.symm
    · refine lt_of_lt_of_le ?_ hfates.allocated_le
      rcases List.mem_append.mp (hsnoc ▸ hd) with hold | hnew
      · exact hsampled.below d hold
      · obtain ⟨p, hp, rfl⟩ := List.mem_map.mp hnew
        exact (hnumbered p (mem_samples hp).1).lt
    · rw [hsnoc]
      refine List.nodup_append.mpr ⟨hsampled.nodup, hfair.nodup, fun d hd d' hd' he => ?_⟩
      obtain ⟨p, hp, rfl⟩ := List.mem_map.mp hd'
      exact hsampled.untaken p.packet
        (mem_originals.mpr ⟨p, (mem_samples hp).1, horiginal p hp, rfl⟩) (he ▸ hd)

/-- A datagram gives one sample, in every run that acknowledges no frame that waits. -/
theorem sampled_run {B : Build} {mtu : Fin 65536} {ops : List Op}
    (h : Always (History.step B) (.new mtu) (Settled B) ops) : Sampled (history B mtu ops) := by
  induction ops using List.reverseRecOn with
  | nil =>
    exact ⟨fun _ _ _ hthree => absurd hthree (by simp [history, History.new, Run.new, SendQ.new,
      Deck.originals, SendQ.deck]), fun _ _ => List.not_mem_nil, fun _ hd => absurd hd List.not_mem_nil,
      .nil⟩
  | append_singleton ops op ih =>
    obtain ⟨hinit, hsettled⟩ := h.init
    have hrun := history_run B mtu ops
    have hgrouped := (numbered_run B mtu ops).2
    have htraced := traced_run B mtu ops
    have hnumbered := flight_numbered B mtu ops
    have hw := (run_steps B mtu ops).1
    rw [history_append]
    rw [← hrun] at hgrouped htraced hnumbered hw
    refine (ih hinit).step hw (fun p hp => (hnumbered p hp).packet) ?_
      fun p hp => sample_original htraced hp (hsettled.sent hp)
    refine hgrouped.imp_right fun hapart => ?_
    have hpairs := List.pairwise_map.mp hapart
    have hlast : ∀ x : InFlight, x.packet.datagram ∈ x.datagrams := fun x =>
      List.mem_append_right _ (List.mem_singleton_self _)
    refine hpairs.imp fun {p p'} hdisjoint he => ?_
    exact hdisjoint (hlast p.timeless) (he ▸ hlast p'.timeless)

/-- **Karn's rule.** The estimate after an operation is the one before it, fed with the samples of
the frames it acknowledges, and a sampled frame was transmitted once. If the frame does not wait for
its first retransmission, or in a build with `recovery-policy`, the sample is the time since that
transmission. In a run that acknowledges no frame that waits so, no datagram gives two samples. -/
theorem karn (B : Build) (mtu : Fin 65536) (ops : List Op) (op : Op) :
    (run B mtu (ops ++ [op])).queue.latency =
      feed op.tick (run B mtu ops).queue.latency ((run B mtu ops).queue.samples B op) ∧
    (∀ p ∈ (run B mtu ops).queue.samples B op, p ∈ (run B mtu ops).queue.sentPacket ∧ op.Names p ∧
      ∃ t f, trips (history B mtu ops).transmissions p.packet = [(t, f)]) ∧
    (∀ p ∈ (run B mtu ops).queue.samples B op, B.recoveryPolicy = true ∨ p.sent = true → ∃ t,
      trips (history B mtu ops).transmissions p.packet = [(t, p.packet)] ∧
      p.rtt op.tick = max (saturatingSub op.tick t) 0 ∧
      (0 ≤ t → t ≤ op.tick → op.tick ≤ i64Max → p.rtt op.tick = op.tick - t)) ∧
    (Always (History.step B) (.new mtu) (Settled B) (ops ++ [op]) →
      (history B mtu (ops ++ [op])).sampled.Nodup) := by
  have hrun := history_run B mtu ops
  have htraced := traced_run B mtu ops
  refine ⟨?_, fun p hp => ?_, fun p hp hsent => ?_, fun halways => (sampled_run halways).nodup⟩
  · rw [run_append]
    exact step_latency _ op
  · obtain ⟨hmem, hnames, hsample⟩ := mem_samples hp
    obtain ⟨hretries, hrecovery⟩ := Bool.and_eq_true_iff.mp hsample
    refine ⟨hmem, hnames, ?_⟩
    cases hB : B.recoveryPolicy with
    | true =>
      have hprevious : p.previous = [] := by simpa [hB] using hrecovery
      exact ⟨p.time, p.packet, ((htraced p hmem).original hprevious).2.2⟩
    | false =>
      obtain ⟨e, he⟩ := (htraced p hmem).once hB (by simpa using hretries)
      exact ⟨e.1, e.2, he⟩
  · rw [← hrun] at htraced hp
    have hprevious := sample_original htraced hp hsent
    have hmem := (mem_samples hp).1
    refine ⟨p.time, ((htraced p hmem).original hprevious).2.2, rfl, fun h₀ hle hmax => ?_⟩
    unfold InFlight.rtt saturatingSub
    unfold i64Max at *
    omega

/-- A message that is taken for lost and acknowledged before it is sent again. -/
def nackedOps : List Op :=
  [.insert ⟨.reliable, primaryChannel, [0xfe, 1], false⟩, .flush 0, .nack 0 100]

/-- **A negative acknowledgement shortens a sample.** The frame was transmitted once, at 0, and is
acknowledged at 110. The sample is 10. -/
theorem nacked_sample_short :
    ((run (.insertion false false) 1400 nackedOps).queue.samples (.insertion false false)
      (.ack 0 110)).map (InFlight.rtt 110) = [10] ∧
    (history (.insertion false false) 1400 nackedOps).transmissions.map Prod.fst = [0] := by
  decide +kernel

end RustRaknet.Send
