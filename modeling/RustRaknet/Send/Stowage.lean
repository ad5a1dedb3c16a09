import RustRaknet.Send.Budget
import RustRaknet.Send.Fate
import RustRaknet.Send.FlushBudget
import RustRaknet.Send.Numbers

/-! # What a datagram carries

The frames in flight under one datagram number fit a datagram together: there are at most eight, all
unfragmented ordered ones if there is more than one, and their bytes leave room for the headers of
IP and UDP (`Deck.Stowed`). The limits are checked when a frame joins the group of the burst; a frame
that is taken for lost travels alone from then on, and a tail probe renumbers one datagram as a
whole. So the frames of a burst under one number fit a datagram (`flush_stowed`).

For a probe the flight must be one datagram, while the code compares sequence numbers: this is where
the window of 2^24 numbers comes in (`Windowed`). -/

namespace RustRaknet.Send

open RustRaknet.Frame RustRaknet.Sequence Ledger

/-! ### Frames that fit a datagram -/

/-- The bytes of frames in one datagram: its header of four bytes, and the frames without theirs. -/
def stowedBytes (l : List QueuedFrame) : ℕ := 4 + (l.map fun f => f.size - 4).sum

/-- The frames may share a datagram. -/
structure Stowable (mtu : ℕ) (l : List QueuedFrame) : Prop where
  count : l.length ≤ maxCoalescedFrames
  packable : 1 < l.length → ∀ f ∈ l, f.packable = true
  bytes : l ≠ [] → stowedBytes l ≤ mtu - 28

theorem stowable_nil (mtu : ℕ) : Stowable mtu [] :=
  ⟨Nat.zero_le _, fun h => by simp at h, fun h => absurd rfl h⟩

theorem Stowable.subperm {mtu : ℕ} {l l' : List QueuedFrame} (h : Stowable mtu l)
    (hsub : l'.Subperm l) : Stowable mtu l' := by
  have hlength := hsub.length_le
  refine ⟨hlength.trans h.count, fun hlt f hf => ?_, fun hne => ?_⟩
  · exact h.packable (by omega) f (hsub.subset hf)
  · obtain ⟨l₀, hperm, hsublist⟩ := hsub
    have hne' : l ≠ [] := by
      rintro rfl
      exact hne (List.perm_nil.mp (List.sublist_nil.mp hsublist ▸ hperm.symm))
    have hsum : (l'.map fun f => f.size - 4).sum ≤ (l.map fun f => f.size - 4).sum := by
      rw [← (hperm.map fun f => f.size - 4).sum_eq]
      exact (hsublist.map fun f : QueuedFrame => f.size - 4).sum_le_sum fun _ _ => Nat.zero_le _
    have hbytes := h.bytes hne'
    unfold stowedBytes at hbytes ⊢
    omega

theorem Stowable.renumber {mtu : ℕ} {l : List QueuedFrame} (h : Stowable mtu l) (sequence d : ℕ) :
    Stowable mtu (l.map fun f => f.numbered sequence d) := by
  refine ⟨by simpa using h.count, fun hlt f hf => ?_, fun hne => ?_⟩
  · obtain ⟨g, hg, rfl⟩ := List.mem_map.mp hf
    exact h.packable (by simpa using hlt) g hg
  · have hbytes := h.bytes (by simpa using hne)
    unfold stowedBytes at hbytes ⊢
    rw [List.map_map]
    exact hbytes

theorem stowable_singleton {mtu : ℕ} {f : QueuedFrame} :
    Stowable mtu [f] ↔ 4 + (f.size - 4) ≤ mtu - 28 := by
  refine ⟨fun h => by simpa [stowedBytes] using h.bytes (by simp), fun h => ⟨?_, ?_, fun _ => ?_⟩⟩
  · simp [maxCoalescedFrames]
  · simp
  · simpa [stowedBytes] using h

theorem packable_mode {f : QueuedFrame} (h : f.packable = true) :
    f.frame.reliability = .ok .reliableOrdered ∧ f.frame.isFragment = false := by
  unfold QueuedFrame.packable at h
  cases hr : f.frame.reliability with
  | error _ => simp [hr] at h
  | ok r => cases r <;> simp_all

theorem size_of_packable {f : QueuedFrame} (h : f.packable = true) : 4 ≤ f.size := by
  simp only [QueuedFrame.size, FrameSetPacket.size, (packable_mode h).1, Lib.Result.map_ok,
    FrameSetPacket.sizeOf]
  omega

/-! ### The flight -/

/-- The frames of one number. -/
def ofNumber (d : ℕ) (l : List QueuedFrame) : List QueuedFrame :=
  l.filter fun f => decide (f.datagram = d)

theorem ofNumber_append (d : ℕ) (l l' : List QueuedFrame) :
    ofNumber d (l ++ l') = ofNumber d l ++ ofNumber d l' := List.filter_append ..

theorem mem_ofNumber {d : ℕ} {l : List QueuedFrame} {f : QueuedFrame} :
    f ∈ ofNumber d l ↔ f ∈ l ∧ f.datagram = d := by simp [ofNumber]

theorem ofNumber_numbered (f : QueuedFrame) (x d : ℕ) :
    ofNumber d [f.numbered x d] = [f.numbered x d] := by
  simp [ofNumber, QueuedFrame.numbered]

theorem ofNumber_singleton_ne {f : QueuedFrame} {d : ℕ} (h : f.datagram ≠ d) :
    ofNumber d [f] = [] := by simp [ofNumber, h]

theorem ofNumber_eq_nil {d : ℕ} {l : List QueuedFrame} (h : ∀ f ∈ l, f.datagram ≠ d) :
    ofNumber d l = [] := by
  unfold ofNumber
  exact List.filter_eq_nil_iff.mpr fun f hf => by simp [h f hf]

theorem ofNumber_eq_self {d : ℕ} {l : List QueuedFrame} (h : ∀ f ∈ l, f.datagram = d) :
    ofNumber d l = l := by
  unfold ofNumber
  exact List.filter_eq_self.mpr fun f hf => by simp [h f hf]

/-- The frames in flight under a number. -/
def Deck.aboard (D : Deck) (d : ℕ) : List QueuedFrame := ofNumber d (D.flight.map InFlight.packet)

/-- **Every number of the flight fits a datagram.** -/
structure Deck.Stowed (mtu : ℕ) (D : Deck) : Prop where
  lt : ∀ p ∈ D.flight, p.packet.datagram < D.allocated
  fits : ∀ d, Stowable mtu (D.aboard d)

namespace Deck.Stowed

variable {mtu : ℕ} {D D' : Deck}

theorem alone (h : D.Stowed mtu) {p : InFlight} (hp : p ∈ D.flight) : Stowable mtu [p.packet] := by
  refine (h.fits p.packet.datagram).subperm (List.singleton_subperm_iff.mpr ?_)
  exact mem_ofNumber.mpr ⟨List.mem_map_of_mem hp, rfl⟩

theorem fate (h : D.Stowed mtu) (hfate : Fate D D') : D'.Stowed mtu := by
  cases hfate with
  | @reissue i p hp hsent sequence time =>
    obtain ⟨l₁, l₂, hl, hset, -⟩ := split_at hp
    have hothers : ∀ q ∈ l₁ ++ l₂, q.packet.datagram < D.allocated := fun q hq =>
      h.lt q (by rw [hl]; exact List.perm_middle.mem_iff.mpr (List.mem_cons_of_mem _ hq))
    refine ⟨fun q hq => ?_, fun d => ?_⟩
    · simp only [hset] at hq
      rcases List.mem_cons.mp (List.perm_middle.mem_iff.mp hq) with rfl | hq
      · exact Nat.lt_succ_self _
      · exact (hothers q hq).trans (Nat.lt_succ_self _)
    · unfold Deck.aboard
      simp only [hset, List.map_append, List.map_cons]
      by_cases hd : d = D.allocated
      · -- the new number has one frame
        subst hd
        have hnone : ∀ l : List InFlight, (∀ q ∈ l, q ∈ l₁ ++ l₂) →
            ofNumber D.allocated (l.map InFlight.packet) = [] := fun l hsub =>
          ofNumber_eq_nil fun f hf => by
            obtain ⟨q, hq, rfl⟩ := List.mem_map.mp hf
            exact (hothers q (hsub q hq)).ne
        rw [← List.singleton_append, ofNumber_append, ofNumber_append,
          hnone l₁ fun q hq => List.mem_append_left _ hq,
          hnone l₂ fun q hq => List.mem_append_right _ hq,
          List.nil_append, List.append_nil]
        show Stowable mtu (ofNumber D.allocated [p.packet.numbered sequence D.allocated])
        rw [ofNumber_numbered]
        exact (h.alone (List.mem_of_getElem? hp)).renumber sequence D.allocated
      · refine (h.fits d).subperm (List.Sublist.subperm ?_)
        unfold Deck.aboard
        rw [hl, ← List.singleton_append, ofNumber_append, ofNumber_append,
          ofNumber_singleton_ne (fun he => hd he.symm), List.nil_append,
          ← ofNumber_append, ← List.map_append]
        exact ((List.Sublist.append_left (List.sublist_cons_self p l₂) l₁).map _).filter _
  | retire hsub =>
    exact ⟨fun p hp => h.lt p (hsub.subset hp),
      fun d => (h.fits d).subperm ((hsub.map _).filter _).subperm⟩
  | ease =>
    refine ⟨fun p hp => ?_, fun d => ?_⟩
    · obtain ⟨q, hq, rfl⟩ := List.mem_map.mp hp
      exact h.lt q hq
    · have hpackets : (D.flight.map InFlight.eased).map InFlight.packet =
          D.flight.map InFlight.packet := by
        rw [List.map_map]
        rfl
      unfold Deck.aboard
      rw [hpackets]
      exact h.fits d
  | skip => exact ⟨fun p hp => (h.lt p hp).trans (Nat.lt_succ_self _), h.fits⟩

theorem fates (h : D.Stowed mtu) (hfates : Fates D D') : D'.Stowed mtu := by
  induction hfates with
  | refl => exact h
  | tail _ hfate ih => exact ih.fate hfate

theorem perm (h : D.Stowed mtu) (hperm : D'.flight.Perm D.flight)
    (hle : D.allocated ≤ D'.allocated) : D'.Stowed mtu :=
  ⟨fun p hp => (h.lt p (hperm.mem_iff.mp hp)).trans_le hle,
    fun d => (h.fits d).subperm ((hperm.map _).filter _).subperm⟩

/-- A probe renumbers a flight that is one datagram. -/
theorem replay (h : D.Stowed mtu) (sequence : ℕ)
    (hone : ∀ p ∈ D.flight, ∀ q ∈ D.flight, p.packet.datagram = q.packet.datagram) :
    (D.replay sequence).Stowed mtu := by
  have hnumbers : ∀ f ∈ (D.replay sequence).flight.map InFlight.packet, f.datagram = D.allocated := by
    intro f hf
    obtain ⟨q, hq, rfl⟩ := List.mem_map.mp hf
    obtain ⟨p, hp, rfl⟩ := List.mem_map.mp hq
    rfl
  refine ⟨fun p hp => ?_, fun d => ?_⟩
  · rw [hnumbers _ (List.mem_map_of_mem hp)]
    exact Nat.lt_succ_self _
  · by_cases hd : d = D.allocated
    · subst hd
      unfold Deck.aboard
      rw [ofNumber_eq_self hnumbers]
      have hpackets : (D.replay sequence).flight.map InFlight.packet =
          (D.flight.map InFlight.packet).map fun f => f.numbered sequence D.allocated := by
        simp [Deck.replay, InFlight.renumber]
      rw [hpackets]
      refine Stowable.renumber ?_ sequence D.allocated
      rcases hflight : D.flight with _ | ⟨first, rest⟩
      · exact stowable_nil mtu
      · have hall := h.fits first.packet.datagram
        unfold Deck.aboard at hall
        rwa [ofNumber_eq_self fun f hf => ?_, hflight] at hall
        obtain ⟨p, hp, rfl⟩ := List.mem_map.mp hf
        exact hone p hp first (by simp [hflight])
    · unfold Deck.aboard
      rw [ofNumber_eq_nil fun f hf => by rw [hnumbers f hf]; exact fun he => hd he.symm]
      exact stowable_nil mtu

end Deck.Stowed

/-! ### The burst -/

/-- The frames that wait to be sent for the first time. -/
def SendQ.queued (q : SendQ) : List QueuedFrame :=
  q.packets ++ q.scheduler.elim [] SendScheduler.unreliable

/-- The frames in flight that are not waiting to be sent again. -/
def Deck.sent (D : Deck) : List QueuedFrame :=
  (D.flight.filter InFlight.sent).map InFlight.packet

/-- The open group of a burst counts the frames of its datagram and their bytes. -/
def Burst.Grouping (s : Burst) : Prop :=
  s.queue.coalesce = true → ∀ x, s.group.sequence = some x →
    0 < s.group.frames ∧ (s.queue.deck.aboard s.group.datagram).length = s.group.frames ∧
    stowedBytes (s.queue.deck.aboard s.group.datagram) = s.group.bytes ∧
    ∀ f ∈ s.queue.deck.aboard s.group.datagram, f.packable = true

/-- What a burst carries, when it began with `n` frames queued and the next number `a`. The frames of
one number are frames of the flight, or one frame that was sent and forgotten. -/
structure Stowing (mtu a n : ℕ) (s : Burst) : Prop where
  limit : (s.queue.mtu : ℕ) = mtu
  deck : s.queue.deck.Stowed mtu
  queued : ∀ f ∈ s.queue.queued, Stowable mtu [f]
  spent : a ≤ s.queue.allocated ∧ s.queue.allocated + s.queue.queued.length ≤ a + n
  outbox : ∀ f ∈ s.output.frames, f.datagram < s.queue.allocated
  carried : ∀ d, (ofNumber d s.output.frames).Subperm (ofNumber d s.queue.deck.sent) ∨
    ∃ f, ofNumber d s.output.frames = [f] ∧ Stowable mtu [f] ∧ a ≤ d ∧
      ∀ p ∈ s.queue.sentPacket, p.packet.datagram ≠ d
  group : s.Grouping

namespace Stowing

variable {mtu a n : ℕ} {s : Burst} {probeSequence : Option ℕ} {tick : ℤ}

/-- A frame enters the flight, under the next number or under that of the group. -/
theorem launch {s' : Burst} {f : QueuedFrame} {rest : List QueuedFrame} {x : ℕ}
    (h : Stowing mtu a n s) (hpackets : s.queue.packets = f :: rest)
    (hqueue : s'.queue.packets = rest ∧ s'.queue.scheduler = s.queue.scheduler ∧
      s'.queue.mtu = s.queue.mtu) {d : ℕ}
    (hflight : s'.queue.sentPacket = s.queue.sentPacket ++
      [⟨f.numbered x d, true, tick, 0, [], []⟩])
    (houtput : s'.output.frames = s.output.frames ++ [f.numbered x d])
    (hnumber : d = s.queue.allocated ∧ s'.queue.allocated = s.queue.allocated + 1 ∨
      s'.queue.allocated = s.queue.allocated ∧ s.queue.deck.aboard d ≠ [] ∧ d < s.queue.allocated)
    (hfits : Stowable mtu (s.queue.deck.aboard d ++ [f.numbered x d]))
    (hgroup : s'.Grouping) : Stowing mtu a n s' := by
  have hle : s.queue.allocated ≤ s'.queue.allocated := by omega
  have hd : d < s'.queue.allocated := by omega
  have hqueued : s.queue.queued = f :: s'.queue.queued := by
    simp [SendQ.queued, hpackets, hqueue.1, hqueue.2.1]
  have hspent := h.spent
  rw [hqueued, List.length_cons] at hspent
  have haboard : ∀ d', s'.queue.deck.aboard d' =
      s.queue.deck.aboard d' ++ ofNumber d' [f.numbered x d] := fun d' => by
    simp only [Deck.aboard, SendQ.deck, hflight, List.map_append, List.map_singleton, ofNumber_append]
  have hsent : s'.queue.deck.sent = s.queue.deck.sent ++ [f.numbered x d] := by
    simp [Deck.sent, SendQ.deck, hflight, List.filter_append]
  refine ⟨hqueue.2.2 ▸ h.limit, ⟨fun p hp => ?_, fun d' => ?_⟩, fun g hg => ?_, ⟨by omega, ?_⟩,
    fun g hg => ?_, fun d' => ?_, hgroup⟩
  · rw [show s'.queue.deck.flight = s'.queue.sentPacket from rfl, hflight] at hp
    obtain hp | rfl := Lib.mem_snoc.mp hp
    · exact (h.deck.lt p hp).trans_le hle
    · exact hd
  · rw [haboard]
    by_cases he : d' = d
    · subst he
      rw [ofNumber_numbered]
      exact hfits
    · rw [ofNumber_singleton_ne (f := f.numbered x d) fun hc => he hc.symm, List.append_nil]
      exact h.deck.fits d'
  · exact h.queued g (by rw [hqueued]; exact List.mem_cons_of_mem _ hg)
  · rcases hnumber with ⟨-, hnext⟩ | ⟨hsame, -⟩ <;> omega
  · rw [houtput] at hg
    obtain hg | rfl := Lib.mem_snoc.mp hg
    · exact (h.outbox g hg).trans_le hle
    · exact hd
  · rw [houtput, hsent, ofNumber_append, ofNumber_append]
    by_cases he : d' = d
    · refine .inl (List.Subperm.append ?_ (.refl _))
      subst he
      rcases h.carried d' with hsub | ⟨g, hg, -, -, hnone⟩
      · exact hsub
      · rcases hnumber with ⟨hnew, -⟩ | ⟨-, hne, -⟩
        · have hmem : g ∈ ofNumber d' s.output.frames := by simp [hg]
          exact absurd (mem_ofNumber.mp hmem).2 (hnew ▸ (h.outbox g (mem_ofNumber.mp hmem).1).ne)
        · obtain ⟨g', hg'⟩ := List.exists_mem_of_ne_nil _ hne
          obtain ⟨hmem, hdatagram⟩ := mem_ofNumber.mp hg'
          obtain ⟨p, hp, rfl⟩ := List.mem_map.mp hmem
          exact absurd hdatagram (hnone p hp)
    · rw [ofNumber_singleton_ne (f := f.numbered x d) fun hc => he hc.symm, List.append_nil,
        List.append_nil]
      refine (h.carried d').imp_right fun ⟨g, hg, hfit, ha, hnone⟩ => ⟨g, hg, hfit, ha, fun p hp => ?_⟩
      rw [hflight] at hp
      obtain hp | rfl := Lib.mem_snoc.mp hp
      · exact hnone p hp
      · exact fun hc => he hc.symm

theorem forget {s' : Burst} {f : QueuedFrame} (h : Stowing mtu a n s) {x : ℕ}
    (hmtu : s'.queue.mtu = s.queue.mtu) (hqueued : (f :: s'.queue.queued).Perm s.queue.queued)
    (hflight : s'.queue.sentPacket = s.queue.sentPacket)
    (hnumber : s'.queue.allocated = s.queue.allocated + 1)
    (houtput : s'.output.frames = s.output.frames ++ [f.numbered x s.queue.allocated])
    (hgroup : s'.queue.coalesce = true → s'.group.sequence = none) : Stowing mtu a n s' := by
  have hspent := h.spent
  rw [← hqueued.length_eq, List.length_cons] at hspent
  have hsame : s'.queue.deck.sent = s.queue.deck.sent := by
    simp [Deck.sent, SendQ.deck, hflight]
  have hdeck : s'.queue.deck.Stowed mtu := by
    refine h.deck.perm (.of_eq hflight) ?_
    show s.queue.allocated ≤ s'.queue.allocated
    omega
  refine ⟨hmtu ▸ h.limit, hdeck,
    fun g hg => h.queued g (hqueued.mem_iff.mp (List.mem_cons_of_mem _ hg)), by omega,
    fun g hg => ?_, fun d => ?_, fun hc y hy => ?_⟩
  · rw [houtput] at hg
    rw [hnumber]
    obtain hg | rfl := Lib.mem_snoc.mp hg
    · exact (h.outbox g hg).trans (Nat.lt_succ_self _)
    · exact Nat.lt_succ_self _
  · rw [houtput, ofNumber_append, hflight, hsame]
    by_cases hd : d = s.queue.allocated
    · subst hd
      refine .inr ⟨f.numbered x s.queue.allocated, ?_, ?_, h.spent.1, fun p hp => (h.deck.lt p hp).ne⟩
      · rw [ofNumber_eq_nil fun g hg => (h.outbox g hg).ne, List.nil_append,
          ofNumber_numbered]
      · exact (h.queued f (hqueued.mem_iff.mp (List.mem_cons_self ..))).renumber x _
    · rw [ofNumber_singleton_ne (f := f.numbered x s.queue.allocated) fun hc => hd hc.symm,
        List.append_nil]
      exact h.carried d
  · cases (hgroup hc).symm.trans hy

theorem resend {i : ℕ} {p : InFlight} (h : Stowing mtu a n s) (hp : s.queue.sentPacket[i]? = some p)
    (hsent : p.sent = false) :
    Stowing mtu a n (s.resend probeSequence tick i p).closeGroup := by
  obtain ⟨l₁, l₂, hl, hset, -⟩ := split_at hp
  have hmem : p ∈ s.queue.sentPacket := List.mem_of_getElem? hp
  generalize hs' : (s.resend probeSequence tick i p).closeGroup = s'
  obtain ⟨time, retries, hflight⟩ : ∃ time retries,
      s'.queue.sentPacket = l₁ ++ { p with sent := true, time, retries } :: l₂ := by
    rw [← hs']
    exact ⟨_, _, hset _⟩
  have hpackets : s'.queue.sentPacket.map InFlight.packet = s.queue.sentPacket.map InFlight.packet := by
    rw [hflight, hl]
    simp
  have houtput : s'.output.frames = s.output.frames ++ [p.packet] := by
    rw [← hs']
    rfl
  have hrest : s'.queue.mtu = s.queue.mtu ∧ s'.queue.queued = s.queue.queued ∧
      s'.queue.allocated = s.queue.allocated ∧ s'.group.sequence = none := by
    rw [← hs']
    exact ⟨rfl, rfl, rfl, rfl⟩
  obtain ⟨hmtu, hqueued, hallocated, hgroup⟩ := hrest
  have hsame : ∀ q ∈ s'.queue.sentPacket, ∃ q' ∈ s.queue.sentPacket, q'.packet = q.packet :=
    fun q hq => List.mem_map.mp (hpackets ▸ List.mem_map_of_mem hq)
  have hnew : s'.queue.deck.sent.Perm (s.queue.deck.sent ++ [p.packet]) := by
    simp only [Deck.sent, SendQ.deck, hflight, hl, List.filter_append, List.filter_cons, hsent,
      if_true, Bool.false_eq_true, if_false, List.map_append, List.map_cons]
    refine List.perm_middle.trans ?_
    exact (List.perm_append_singleton _ _).symm
  refine ⟨hmtu ▸ h.limit, ⟨fun q hq => ?_, fun d => ?_⟩, hqueued ▸ h.queued,
    by rw [hallocated, hqueued]; exact h.spent, fun g hg => ?_, fun d => ?_, fun _ x hx => ?_⟩
  · obtain ⟨q', hq', he⟩ := hsame q hq
    rw [← he, show s'.queue.deck.allocated = s.queue.allocated from hallocated]
    exact h.deck.lt q' hq'
  · unfold Deck.aboard
    rw [show s'.queue.deck.flight = s'.queue.sentPacket from rfl, hpackets]
    exact h.deck.fits d
  · rw [houtput] at hg
    rw [hallocated]
    obtain hg | rfl := Lib.mem_snoc.mp hg
    · exact h.outbox g hg
    · exact h.deck.lt p hmem
  · rw [houtput, ofNumber_append]
    rcases h.carried d with hsub | ⟨g, hg, hfit, ha, hnone⟩
    · refine .inl (.trans (.append hsub (.refl _)) ?_)
      rw [← ofNumber_append]
      exact (hnew.symm.filter _).subperm
    · refine .inr ⟨g, ?_, hfit, ha, fun q hq => ?_⟩
      · rw [hg, ofNumber_singleton_ne (hnone p hmem), List.append_nil]
      · obtain ⟨q', hq', he⟩ := hsame q hq
        exact he ▸ hnone q' hq'
  · cases hgroup.symm.trans hx

/-- The flight, the queue and the group stay. -/
theorem congr {s' : Burst} (h : Stowing mtu a n s) (hmtu : s'.queue.mtu = s.queue.mtu)
    (hflight : s'.queue.sentPacket = s.queue.sentPacket)
    (hallocated : s'.queue.allocated = s.queue.allocated)
    (hqueued : s'.queue.queued.Perm s.queue.queued)
    (hcoalesce : s'.queue.coalesce = s.queue.coalesce) (houtput : s'.output = s.output)
    (hgroup : s'.group = s.group) : Stowing mtu a n s' := by
  have hsent : s'.queue.deck.sent = s.queue.deck.sent := by
    simp [Deck.sent, SendQ.deck, hflight]
  have haboard : s'.queue.deck.aboard = s.queue.deck.aboard := by
    funext d
    simp [Deck.aboard, SendQ.deck, hflight]
  have hdeck : s'.queue.deck.Stowed mtu := by
    refine h.deck.perm (.of_eq hflight) ?_
    show s.queue.allocated ≤ s'.queue.allocated
    omega
  refine ⟨hmtu ▸ h.limit, hdeck, fun f hf => h.queued f (hqueued.mem_iff.mp hf), ?_, ?_,
    fun d => ?_, ?_⟩
  · rw [hallocated, hqueued.length_eq]
    exact h.spent
  · rw [houtput, hallocated]
    exact h.outbox
  · rw [houtput, hsent, hflight]
    exact h.carried d
  · unfold Burst.Grouping
    rw [hcoalesce, haboard, hgroup]
    exact h.group

theorem aboard_fresh (h : Stowing mtu a n s) : s.queue.deck.aboard s.queue.allocated = [] :=
  ofNumber_eq_nil fun f hf => by
    obtain ⟨p, hp, rfl⟩ := List.mem_map.mp hf
    exact (h.deck.lt p hp).ne

theorem head_fits (h : Stowing mtu a n s) {f : QueuedFrame} {rest : List QueuedFrame}
    (hpackets : s.queue.packets = f :: rest) : Stowable mtu [f] :=
  h.queued f (by simp [SendQ.queued, hpackets])

/-- **One turn of a flush** keeps every datagram within its limits. -/
theorem sends {s' : Burst} (h : Stowing mtu a n s) (hsends : Sends probeSequence tick s s') :
    Stowing mtu a n s' := by
  cases hsends with
  | resend hp hsent => exact h.resend hp hsent
  | @start f rest packable hpackets hf hpackable =>
    have hfits := (h.head_fits hpackets).renumber s.queue.sequenceNumber s.queue.allocated
    refine h.launch (x := s.queue.sequenceNumber) (d := s.queue.allocated) hpackets ⟨rfl, rfl, rfl⟩
      rfl rfl (.inl ⟨rfl, rfl⟩) ?_ fun hc y hy => ?_
    · rw [h.aboard_fresh]
      exact hfits
    · -- the frame is alone in the group it opens
      cases packable with
      | false => cases hy
      | true =>
        have haboard : Deck.aboard ⟨s.queue.sentPacket ++ [⟨f.numbered s.queue.sequenceNumber
            s.queue.allocated, true, tick, 0, [], []⟩], s.queue.allocated + 1,
              s.queue.retriesPending⟩ s.queue.allocated =
                [f.numbered s.queue.sequenceNumber s.queue.allocated] := by
          have hold : ofNumber s.queue.allocated (s.queue.sentPacket.map InFlight.packet) = [] :=
            h.aboard_fresh
          rw [Deck.aboard, List.map_append, ofNumber_append, hold, List.nil_append]
          exact ofNumber_numbered ..
        have hsize := size_of_packable (hpackable rfl).2
        refine ⟨Nat.one_pos, congrArg List.length haboard, ?_, fun g hg => ?_⟩
        · refine (congrArg stowedBytes haboard).trans ?_
          show 4 + ((f.size - 4) + 0) = f.size
          omega
        · have hg : g ∈ [f.numbered s.queue.sequenceNumber s.queue.allocated] := haboard ▸ hg
          rw [List.mem_singleton.mp hg]
          exact (hpackable rfl).2
  | @join f rest x hpackets hf hx hcoalesce hpackable hframes hbytes =>
    obtain ⟨hpos, hcount, hload, hall⟩ := h.group hcoalesce x hx
    have hne : s.queue.deck.aboard s.group.datagram ≠ [] := by
      intro he
      rw [he] at hcount
      exact absurd hcount hpos.ne
    have hload' : stowedBytes (s.queue.deck.aboard s.group.datagram ++
        [f.numbered x s.group.datagram]) = s.group.bytes + (f.size - 4) := by
      rw [← hload, stowedBytes, List.map_append, List.sum_append, ← Nat.add_assoc]
      rfl
    have hpacked : ∀ g ∈ s.queue.deck.aboard s.group.datagram ++ [f.numbered x s.group.datagram],
        g.packable = true := by
      intro g hg
      obtain hg | rfl := Lib.mem_snoc.mp hg
      · exact hall g hg
      · exact hpackable
    have hlt : s.group.datagram < s.queue.allocated := by
      obtain ⟨g, hg⟩ := List.exists_mem_of_ne_nil _ hne
      obtain ⟨hmem, hdatagram⟩ := mem_ofNumber.mp hg
      obtain ⟨p, hp, rfl⟩ := List.mem_map.mp hmem
      exact hdatagram ▸ h.deck.lt p hp
    refine h.launch (x := x) (d := s.group.datagram) hpackets ⟨rfl, rfl, rfl⟩ rfl rfl
      (.inr ⟨rfl, hne, hlt⟩) ⟨?_, fun _ => hpacked, fun _ => ?_⟩ fun hc y hy => ?_
    · rw [List.length_append, hcount]
      exact hframes
    · rw [hload', ← h.limit]
      exact hbytes
    · have haboard : Deck.aboard ⟨s.queue.sentPacket ++ [⟨f.numbered x s.group.datagram, true, tick, 0,
          [], []⟩], s.queue.allocated, s.queue.retriesPending⟩ s.group.datagram =
            s.queue.deck.aboard s.group.datagram ++ [f.numbered x s.group.datagram] := by
        rw [Deck.aboard, List.map_append, ofNumber_append]
        exact congrArg _ (ofNumber_numbered ..)
      refine ⟨Nat.succ_pos _, ?_, ?_, fun g hg => hpacked g (haboard ▸ hg)⟩
      · refine (congrArg List.length haboard).trans ?_
        rw [List.length_append, hcount]
        rfl
      · exact (congrArg stowedBytes haboard).trans hload'
  | @fresh f rest hpackets hf hcoalesce =>
    refine h.launch (x := s.queue.sequenceNumber) (d := s.queue.allocated) hpackets ⟨rfl, rfl, rfl⟩
      rfl rfl (.inl ⟨rfl, rfl⟩) ?_ fun hc y hy => ?_
    · rw [h.aboard_fresh]
      exact (h.head_fits hpackets).renumber _ _
    · cases hcoalesce.symm.trans hc
  | @emit f rest group hpackets hf hgroup =>
    refine h.forget (f := f) rfl ?_ rfl rfl rfl hgroup
    simp [SendQ.queued, hpackets, Burst.emit, Burst.setGroup, Burst.fresh, Burst.pop, SendQ.allocate]
  | @emitScheduled scheduler f rest hs hunreliable =>
    refine h.forget (f := f) rfl ?_ rfl rfl rfl fun _ => rfl
    simp only [SendQ.queued, Burst.emitScheduled, hs, Option.elim, hunreliable]
    exact List.perm_middle.symm
  | @rotate f rest hpackets hf =>
    refine h.congr rfl rfl rfl ?_ rfl rfl rfl
    simp only [SendQ.queued, Burst.pop, hpackets]
    exact (List.perm_append_singleton f rest).append_right _
  | turnTo hs hlane =>
    refine h.congr rfl rfl rfl ?_ rfl rfl rfl
    simp [SendQ.queued, Burst.schedule, SendQ.schedule, hs]
  | clear => exact h.congr rfl rfl rfl (.refl _) rfl rfl rfl

theorem fits (h : Stowing mtu a n s) (d : ℕ) : Stowable mtu (ofNumber d s.output.frames) := by
  rcases h.carried d with hsub | ⟨f, hf, hfit, -⟩
  · have hsent : (ofNumber d s.queue.deck.sent).Sublist (s.queue.deck.aboard d) :=
      ((List.filter_sublist ..).map _).filter _
    exact (h.deck.fits d).subperm (hsub.trans hsent.subperm)
  · exact hf ▸ hfit

end Stowing

/-! ### Flushes and runs -/

/-- Fewer than 2^24 numbers are given out while a frame is in flight. -/
def SendQ.Windowed (q : SendQ) : Prop := ∀ p ∈ q.sentPacket, q.allocated ≤ p.born + 16777216

instance : DecidablePred SendQ.Windowed := fun q =>
  inferInstanceAs (Decidable (∀ p ∈ q.sentPacket, q.allocated ≤ p.born + 16777216))

section runs

variable {B : Build} {tick : ℤ} {mtu : ℕ} {q : SendQ}

theorem datagram_eq (hnumbered : ∀ p ∈ q.sentPacket, p.Numbered q.allocated) (hwindow : q.Windowed)
    {p p' : InFlight} (hp : p ∈ q.sentPacket) (hp' : p' ∈ q.sentPacket)
    (h : p.sequence = p'.sequence) : p.packet.datagram = p'.packet.datagram := by
  have hlast : ∀ x : InFlight, x.packet.datagram ∈ x.datagrams := fun x => by
    simp [InFlight.datagrams]
  have hle : ∀ x ∈ q.sentPacket, q.allocated ≤ x.packet.datagram + 16777216 := fun x hx => by
    have hborn := (hnumbered x hx).born_le _ (hlast x)
    have := hwindow x hx
    omega
  refine eq_of_window (hnumbered p hp).packet.lt (hnumbered p' hp').packet.lt (hle p hp) (hle p' hp') ?_
  rw [← (hnumbered p hp).packet.sequence, ← (hnumbered p' hp').packet.sequence]
  exact h

theorem prepared_stowed (hnumbered : ∀ p ∈ q.sentPacket, p.Numbered q.allocated)
    (hwindow : q.Windowed) (h : q.deck.Stowed mtu) : (q.prepared B tick).deck.Stowed mtu := by
  obtain ⟨D, hperm, hallocated, -, hfates⟩ := prepared_deck B q tick
  have hticked : D.Stowed mtu := by
    rcases hfates with hfates | ⟨rfl, hone⟩
    · exact h.fates hfates
    · exact h.replay _ fun p hp p' hp' => datagram_eq hnumbered hwindow hp hp' (hone p hp p' hp')
  exact hticked.perm hperm hallocated.ge

theorem prepared_queued (q : SendQ) (tick : ℤ) : (q.prepared B tick).queued = q.queued :=
  (congrArg SendQ.queued (prepared_settled q tick) :)

/-- **The frames of a flush under one number fit a datagram.** -/
theorem flush_stowed (tick : ℤ) (hnumbered : ∀ p ∈ q.sentPacket, p.Numbered q.allocated)
    (hwindow : q.Windowed) (hmtu : (q.mtu : ℕ) = mtu) (hdeck : q.deck.Stowed mtu)
    (hqueued : ∀ f ∈ q.queued, Stowable mtu [f]) :
    ∃ s, Stowing mtu (q.prepared B tick).allocated q.queued.length s ∧ s.Ends (q.flush B tick) := by
  obtain ⟨s, hsends, hends⟩ := flush_sends B q tick
  refine ⟨s, ?_, hends⟩
  clear hends
  induction hsends with
  | refl =>
    have hsame : (q.prepared B tick).mtu = q.mtu := congrArg Given.mtu (prepared_given q)
    have hall : (q.prepared B tick).burst.queue.queued = q.queued := prepared_queued q tick
    refine ⟨(congrArg Fin.val hsame).trans hmtu, prepared_stowed hnumbered hwindow hdeck,
      hall ▸ hqueued, ⟨le_rfl, hall ▸ le_rfl⟩, ?_, fun d => .inl List.nil_subperm, ?_⟩
    · intro f hf
      cases hf
    · intro _ x hx
      cases hx
  | tail _ hstep ih => exact ih.sends hstep

end runs

theorem flight_numbered (B : Build) (mtu : Fin 65536) (ops : List Op) :
    ∀ p ∈ (run B mtu ops).queue.sentPacket, p.Numbered (run B mtu ops).queue.allocated := by
  intro p hp
  obtain ⟨hpacket, hprevious, hsorted⟩ :=
    (numbered_run B mtu ops).1.flight p.timeless (List.mem_map_of_mem hp)
  exact ⟨hpacket, hprevious, hsorted⟩

theorem queued_fits (B : Build) (mtu : Fin 65536) (ops : List Op) :
    ∀ f ∈ (run B mtu ops).queue.queued, Stowable mtu [f] := by
  intro f hf
  have hsized := sized_run B mtu ops
  have hfits : (run B mtu ops).ledger.FrameFits f := by
    rcases List.mem_append.mp hf with hf | hf
    · exact hsized.packets hf
    · exact hsized.unreliable hf
  obtain ⟨hpos, hle⟩ := hfits
  rw [run_mtu] at hpos hle
  exact stowable_singleton.mpr (by omega)

theorem queued_length_le (B : Build) (mtu : Fin 65536) (ops : List Op) :
    (run B mtu ops).queue.queued.length ≤ 524288 := by
  obtain ⟨-, hcharged, -, -⟩ := balanced_run B mtu ops
  have hmax := hcharged.max
  have hcard : (run B mtu ops).queue.queued.length ≤ (run B mtu ops).ledger.held.card := by
    simp only [Ledger.held, bodies, Multiset.card_add, Multiset.coe_card, List.length_map,
      SendQ.queued, List.length_append, Run.ledger]
    omega
  rw [hcharged.bytes, budget] at hmax
  have hbudget : maxBufferedBytes = 128 * 524288 := by decide
  omega

/-- The frames of a burst are within the window, because those in flight are and a burst sends fewer
than 2^24 others. -/
theorem output_windowed {B : Build} {mtu : Fin 65536} {ops : List Op} {tick : ℤ} {a : ℕ} {s : Burst}
    (hs : Stowing mtu a (run B mtu ops).queue.queued.length s)
    (hends : s.Ends ((run B mtu ops).queue.flush B tick))
    (hwindow : ((run B mtu ops).queue.flush B tick).2.Windowed) :
    ∀ f ∈ ((run B mtu ops).queue.flush B tick).1.frames,
      ((run B mtu ops).queue.flush B tick).2.allocated ≤ f.datagram + 16777216 := by
  intro f hf
  have hnumbered := flight_numbered B mtu (ops ++ [.flush tick])
  rw [run_append] at hnumbered
  obtain ⟨retriesPending, scheduler, hresult, -⟩ := hends
  have hqueue : ((run B mtu ops).step B (.flush tick)).queue =
      { s.queue with retriesPending, scheduler } := congrArg Prod.snd hresult
  rw [hqueue] at hnumbered
  rw [hresult] at hf hwindow ⊢
  have hmem : f ∈ ofNumber f.datagram s.output.frames := mem_ofNumber.mpr ⟨hf, rfl⟩
  rcases hs.carried f.datagram with hsub | ⟨-, -, -, ha, -⟩
  · obtain ⟨hsent, -⟩ := mem_ofNumber.mp (hsub.subset hmem)
    obtain ⟨p, hp, rfl⟩ := List.mem_map.mp hsent
    have hp : p ∈ s.queue.sentPacket := (List.mem_filter.mp hp).1
    have hborn := (hnumbered p hp).born_le p.packet.datagram (by simp [InFlight.datagrams])
    have := hwindow p hp
    simp only at this ⊢
    omega
  · have hspent := hs.spent.2
    have := queued_length_le B mtu ops
    show s.queue.allocated ≤ f.datagram + 16777216
    omega

/-- **Every number of the flight fits a datagram**, in every run within the window. -/
theorem stowed_run (B : Build) (mtu : Fin 65536) (ops : List Op)
    (hwindow : ∀ before, before <+: ops → (run B mtu before).queue.Windowed) :
    (run B mtu ops).queue.deck.Stowed mtu := by
  induction ops using List.reverseRecOn with
  | nil => exact ⟨fun p hp => (List.not_mem_nil hp).elim, fun d => stowable_nil mtu⟩
  | append_singleton ops op ih =>
    have hold := ih fun before h => hwindow before (h.trans (List.prefix_append ops [op]))
    have hnow := hwindow ops (List.prefix_append ops [op])
    rw [run_append]
    by_cases hop : ∃ tick, op = .flush tick
    · obtain ⟨tick, rfl⟩ := hop
      obtain ⟨s, hs, retriesPending, scheduler, hresult, -⟩ := flush_stowed tick
        (flight_numbered B mtu ops) hnow (congrArg Fin.val (legacy_room B mtu ops).1) hold
        (queued_fits B mtu ops)
      have hqueue : ((run B mtu ops).step B (.flush tick)).queue =
          { s.queue with retriesPending, scheduler } := congrArg Prod.snd hresult
      rw [hqueue]
      exact hs.deck.perm (.refl _) le_rfl
    · exact hold.fates (step_fates fun tick he => hop ⟨tick, he⟩)

end RustRaknet.Send
