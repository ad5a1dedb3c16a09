import RustRaknet.Lib.Machine
import RustRaknet.Send.Cached

/-! # A flush and the caches of a retransmission

In the default build the three caches of `SendQ` cannot be observed: a queue in which all of them
are reset before every flush returns the same bursts and has the same flight
(`caches_unobservable`). A flush that skips its scan for timeouts, its sort or its loop over the
flight would have found nothing to do.

This holds for flushes at times from 0 on: `next_retry` is set to 0 for "at once" when the timeout
changes, and before time 0 that is too late. -/

namespace RustRaknet.Send

open RustRaknet.Frame RustRaknet.Sequence RustRaknet.Lib.Forget RustRaknet.Lib.Result

/-! ### The scan for timeouts -/

section scan

variable {tick : ℤ}

/-- What one turn of the loop of `tick` does. -/
theorem tickAt_cases (probe : Option ProbeFallback) (tick : ℤ) (q : SendQ) (i : ℕ) :
    (∃ p, q.sentPacket[i]? = some p ∧ p.sent = true ∧ (probe = none → p.deadline q.rto ≤ tick) ∧
      SendQ.tickAt probe tick q i = q.reissue i p p.time) ∨
    (∃ p, q.sentPacket[i]? = some p ∧ p.sent = true ∧ tick < p.deadline q.rto ∧
      SendQ.tickAt probe tick q i = { q with
        nextRetry := min q.nextRetry (saturatingAdd p.time (retryTimeout q.rto p.retries)) }) ∨
    ((∀ p, q.sentPacket[i]? = some p → p.sent = false) ∧ SendQ.tickAt probe tick q i = q) := by
  unfold SendQ.tickAt InFlight.deadline
  cases hp : q.sentPacket[i]? with
  | none => exact .inr (.inr ⟨fun p h => (nomatch h), rfl⟩)
  | some p =>
    simp only
    split_ifs with hexpired hsent
    · simp only [Bool.and_eq_true, Bool.or_eq_true, decide_eq_true_eq] at hexpired
      refine .inl ⟨p, rfl, hexpired.1, ?_, rfl⟩
      rintro rfl
      have := hexpired.2.resolve_right (by simp)
      omega
    · refine .inr (.inl ⟨p, rfl, hsent, ?_, rfl⟩)
      by_contra hlate
      exact hexpired (by simp [hsent, show retryTimeout q.rto p.retries ≤ tick - p.time by omega])
    · exact .inr (.inr ⟨fun p' h => by cases h; simpa using hsent, rfl⟩)

theorem tickAt_blind (tick : ℤ) (i : ℕ) :
    Blind SendQ.bare SendQ.bare fun q => SendQ.tickAt none tick q i := by
  intro q
  have hflight : q.bare.sentPacket = q.sentPacket := rfl
  have hrto : q.bare.rto = q.rto := rfl
  show (SendQ.tickAt none tick q i).bare = (SendQ.tickAt none tick q.bare i).bare
  unfold SendQ.tickAt
  rw [hflight, hrto]
  cases q.sentPacket[i]? with
  | none => rfl
  | some p =>
    simp only
    split_ifs <;> rfl

theorem Flags.turn {q : SendQ} (h : Flags q) (probe : Option ProbeFallback) (tick : ℤ) (i : ℕ) :
    Flags (SendQ.tickAt probe tick q i) := by
  rcases tickAt_cases probe tick q i with ⟨p, -, -, -, he⟩ | ⟨p, -, -, -, he⟩ | ⟨-, he⟩
  · rw [he]
    exact ⟨fun _ _ _ => rfl, fun hd => (nomatch hd), h.rto,
      fun p' hp' hsent => h.clock p' (mem_reissue hp' hsent) hsent⟩
  · rw [he]
    exact { h with }
  · rw [he]
    exact h

/-- The frames before the index `i` do not time out before `next_retry`. -/
def Scanned (i : ℕ) (q : SendQ) : Prop :=
  ∀ j p, j < i → q.sentPacket[j]? = some p → p.sent = true → q.nextRetry ≤ p.deadline q.rto

theorem Scanned.turn {q : SendQ} {i : ℕ} (h : Scanned i q) (hflags : Flags q)
    (probe : Option ProbeFallback) (tick : ℤ) : Scanned (i + 1) (SendQ.tickAt probe tick q i) := by
  intro j p' hj hp' hsent'
  have hji : j = i ∨ j < i := by omega
  rcases tickAt_cases probe tick q i with
    ⟨p, hp, -, -, he⟩ | ⟨p, hp, hsent, -, he⟩ | ⟨hnone, he⟩
  · rw [he] at hp' ⊢
    rcases hji with rfl | hji
    · have hmem := List.getElem?_eq_some_iff.mp hp
      simp [SendQ.reissue, hmem.1] at hp'
      simp [← hp', InFlight.renumber] at hsent'
    · have hne : i ≠ j := by omega
      simp only [SendQ.reissue, List.getElem?_set_ne hne] at hp'
      exact h j p' hji hp' hsent'
  · rw [he] at hp' ⊢
    rcases hji with rfl | hji
    · obtain rfl : p = p' := Option.some.inj (hp.symm.trans hp')
      have hpos := deadline_nonneg hflags (List.mem_of_getElem? hp) hsent hflags.rto
      exact le_trans (min_le_right _ _) (saturatingAdd_le hpos)
    · exact le_trans (min_le_left _ _) (h j p' hji hp' hsent')
  · rw [he] at hp' ⊢
    rcases hji with rfl | hji
    · exact absurd hsent' (by simp [hnone p' hp'])
    · exact h j p' hji hp' hsent'

theorem scan_caches {q : SendQ} (h : Flags q) (probe : Option ProbeFallback) (tick : ℤ) :
    Caches ((List.range q.sentPacket.length).foldl (SendQ.tickAt probe tick) q) := by
  have hlength : ∀ (x : SendQ) i,
      (SendQ.tickAt probe tick x i).sentPacket.length = x.sentPacket.length := fun x i => by
    rcases tickAt_cases probe tick x i with ⟨p, -, -, -, he⟩ | ⟨p, -, -, -, he⟩ | ⟨-, he⟩
    · rw [he]
      simp [SendQ.reissue]
    · rw [he]
    · rw [he]
  obtain ⟨hflags, hscanned, hall⟩ := Lib.Machine.foldl_range
    (I := fun i x => Flags x ∧ Scanned i x ∧ x.sentPacket.length = q.sentPacket.length)
    (f := SendQ.tickAt probe tick) ⟨h, fun j p hj => by omega, rfl⟩ q.sentPacket.length
    fun i x _ hx => ⟨hx.1.turn probe tick i, hx.2.1.turn hx.1 probe tick, (hlength x i).trans hx.2.2⟩
  refine ⟨hflags, fun p hp hsent => ?_⟩
  obtain ⟨j, hj, hget⟩ := List.getElem_of_mem hp
  exact hscanned j p (by omega) (List.getElem?_eq_some_iff.mpr ⟨hj, hget⟩) hsent

theorem scan_idle {q : SendQ} (h : ∀ p ∈ q.sentPacket, p.sent = true → tick < p.deadline q.rto) :
    ∀ l : List ℕ, (l.foldl (SendQ.tickAt none tick) q).bare = q.bare := by
  intro l
  induction l generalizing q with
  | nil => rfl
  | cons i l ih =>
    rw [List.foldl_cons]
    rcases tickAt_cases none tick q i with ⟨p, hp, hsent, hexpired, -⟩ | ⟨p, -, -, -, he⟩ | ⟨-, he⟩
    · have := h p (List.mem_of_getElem? hp) hsent
      have := hexpired rfl
      omega
    · rw [he]
      exact ih h
    · rw [he]
      exact ih h

end scan

/-! ### A flush -/

section flush

variable {B : Build} {tick : ℤ}

theorem expire_alike (hB : B.recoveryPolicy = false) {q : SendQ} (h : Caches q) (tick : ℤ) :
    Caches (q.expire B tick) ∧ (q.expire B tick).bare =
      ((List.range q.sentPacket.length).foldl (SendQ.tickAt none tick) q).bare := by
  have hexpire : q.expire B tick = if tick < min q.nextRetry i64Max then q
      else (List.range q.sentPacket.length).foldl (SendQ.tickAt none tick) q.clearRetry := by
    simp [SendQ.expire, hB]
  rw [hexpire]
  by_cases hskip : tick < min q.nextRetry i64Max
  · rw [if_pos hskip]
    have hidle : ∀ p ∈ q.sentPacket, p.sent = true → tick < p.deadline q.rto := fun p hp hsent =>
      lt_of_lt_of_le (lt_of_lt_of_le hskip (min_le_left _ _)) (h.retry p hp hsent)
    exact ⟨h, (scan_idle hidle _).symm⟩
  · rw [if_neg hskip]
    have hflags : Flags q.clearRetry := { h with }
    have hclear : q.clearRetry.bare = q.bare := rfl
    exact ⟨scan_caches hflags none tick, (Blind.foldl bare_bare (tickAt_blind tick) _).congr hclear⟩

theorem Alike.expire (hB : B.recoveryPolicy = false) {q q' : SendQ} (h : Alike q q') (tick : ℤ) :
    Alike (q.expire B tick) (q'.expire B tick) := by
  obtain ⟨hcaches, hbare⟩ := expire_alike hB h.left tick
  obtain ⟨hcaches', hbare'⟩ := expire_alike hB h.right tick
  refine ⟨?_, hcaches, hcaches'⟩
  rw [hbare, hbare', h.flight]
  exact (Blind.foldl bare_bare (tickAt_blind tick) _).congr h.bare

/-- A sort that leaves a sorted list alone. -/
def Build.SortsInPlace (B : Build) : Prop :=
  ∀ l : List InFlight, l.Pairwise (fun a b => a.sequence ≤ b.sequence) → B.sortByKey l = l

theorem sortFlight_alike (hsort : B.SortsInPlace) {q : SendQ} (h : Caches q) :
    Caches (q.sortFlight B) ∧ q.sortFlight B = { q with
      sentPacket := B.sortByKey q.sentPacket
      flightOrderDirty := false } := by
  have heq : q.sortFlight B = { q with
      sentPacket := B.sortByKey q.sentPacket
      flightOrderDirty := false } := by
    unfold SendQ.sortFlight
    cases hd : q.flightOrderDirty with
    | true => rfl
    | false => exact (if_neg Bool.false_ne_true).trans (by rw [hsort _ (h.sorted hd), ← hd])
  have hmem : ∀ p, p ∈ B.sortByKey q.sentPacket → p ∈ q.sentPacket :=
    fun p hp => (B.sort_perm _).mem_iff.mp hp
  rw [heq]
  exact ⟨⟨⟨fun p hp => h.pending p (hmem p hp), fun _ => B.sort_sorted _, h.rto,
    fun p hp => h.clock p (hmem p hp)⟩, fun p hp => h.retry p (hmem p hp)⟩, rfl⟩

theorem Alike.sortFlight (hsort : B.SortsInPlace) {q q' : SendQ} (h : Alike q q') :
    Alike (q.sortFlight B) (q'.sortFlight B) := by
  obtain ⟨hcaches, hsorted⟩ := sortFlight_alike hsort h.left
  obtain ⟨hcaches', hsorted'⟩ := sortFlight_alike hsort h.right
  refine ⟨?_, hcaches, hcaches'⟩
  rw [hsorted, hsorted']
  exact congrArg (fun x : SendQ => { x with sentPacket := B.sortByKey x.sentPacket }) h.bare

/-- The burst with the caches of its queue reset. -/
def Burst.bare (s : Burst) : Burst := { s with queue := s.queue.bare }

theorem burst_bare_bare (s : Burst) : s.bare.bare = s.bare := rfl

theorem resendAt_blind (probeSequence : Option ℕ) (i : ℕ) :
    Blind Burst.bare Burst.bare fun s => Burst.resendAt probeSequence tick s i := by
  intro s
  have hflight : s.bare.queue.sentPacket = s.queue.sentPacket := rfl
  show (Burst.resendAt probeSequence tick s i).bare =
    (Burst.resendAt probeSequence tick s.bare i).bare
  unfold Burst.resendAt
  rw [hflight]
  cases s.queue.sentPacket[i]? with
  | none => rfl
  | some p =>
    simp only
    split_ifs <;> rfl

theorem resendAt_cases (probeSequence : Option ℕ) (tick : ℤ) (s : Burst) (i : ℕ) :
    (∃ p, s.queue.sentPacket[i]? = some p ∧ p.sent = false ∧
      Burst.resendAt probeSequence tick s i = s.resend probeSequence tick i p) ∨
    ((∀ p, s.queue.sentPacket[i]? = some p → p.sent = true) ∧
      Burst.resendAt probeSequence tick s i = s) := by
  unfold Burst.resendAt
  cases hp : s.queue.sentPacket[i]? with
  | none => exact .inr ⟨fun p h => (nomatch h), rfl⟩
  | some p =>
    cases hsent : p.sent with
    | false => exact .inl ⟨p, rfl, hsent, by simp [hsent]⟩
    | true => exact .inr ⟨fun p' h => by cases h; exact hsent, by simp [hsent]⟩

theorem pairwise_set {flight : List InFlight} {i : ℕ} {p p' : InFlight} (hp : flight[i]? = some p)
    (hseq : p'.sequence = p.sequence)
    (h : flight.Pairwise fun a b => a.sequence ≤ b.sequence) :
    (flight.set i p').Pairwise fun a b => a.sequence ≤ b.sequence := by
  obtain ⟨l₁, l₂, hl, hset, -⟩ := Ledger.split_at hp
  rw [hl] at h
  rw [hset]
  rw [← List.pairwise_map (f := InFlight.sequence)] at h ⊢
  simpa [hseq] using h

/-- A frame that is sent again keeps its place. -/
theorem Caches.resend {s : Burst} (h : Caches s.queue) (htick : 0 ≤ tick)
    (probeSequence : Option ℕ) {i : ℕ} {p : InFlight} (hp : s.queue.sentPacket[i]? = some p) :
    Caches (s.resend probeSequence tick i p).queue := by
  unfold Burst.resend
  simp only
  generalize (if probeSequence = some p.sequence then p.retries
    else min (p.retries + 1) 4294967295) = retries
  have htimeout := retryTimeout_ge h.rto retries
  have hmem : ∀ p' ∈ s.queue.sentPacket.set i { p with sent := true, time := tick, retries },
      p' ∈ s.queue.sentPacket ∨ p' = { p with sent := true, time := tick, retries } :=
    fun p' hp' => List.mem_or_eq_of_mem_set hp'
  refine ⟨⟨fun p' hp' hsent => ?_, fun hd => pairwise_set hp rfl (h.sorted hd), h.rto,
    fun p' hp' hsent => ?_⟩, fun p' hp' hsent => ?_⟩
  · rcases hmem p' hp' with hin | rfl
    · exact h.pending p' hin hsent
    · exact absurd hsent (by simp)
  · rcases hmem p' hp' with hin | rfl
    · exact h.clock p' hin hsent
    · exact htick
  · rcases hmem p' hp' with hin | rfl
    · exact le_trans (min_le_left _ _) (h.retry p' hin hsent)
    · unfold rtoLbound at htimeout
      exact le_trans (min_le_right _ _) (saturatingAdd_le (by omega))

/-- The frames before the index `i` are sent. -/
def Resent (i : ℕ) (s : Burst) : Prop :=
  ∀ j p, j < i → s.queue.sentPacket[j]? = some p → p.sent = true

theorem Resent.resendAt {s : Burst} {i : ℕ} (h : Resent i s) (probeSequence : Option ℕ) :
    Resent (i + 1) (Burst.resendAt probeSequence tick s i) := by
  intro j p' hj hp'
  have hji : j = i ∨ j < i := by omega
  rcases resendAt_cases probeSequence tick s i with ⟨p, hp, -, he⟩ | ⟨hall, he⟩
  · rw [he] at hp'
    rcases hji with rfl | hji
    · have hlt := (List.getElem?_eq_some_iff.mp hp).1
      simp only [Burst.resend, List.getElem?_set_self hlt, Option.some.injEq] at hp'
      rw [← hp']
    · have hne : i ≠ j := by omega
      simp only [Burst.resend, List.getElem?_set_ne hne] at hp'
      exact h j p' hji hp'
  · rw [he] at hp'
    rcases hji with rfl | hji
    · exact hall p' hp'
    · exact h j p' hji hp'

theorem resendAt_length (probeSequence : Option ℕ) (s : Burst) (i : ℕ) :
    (Burst.resendAt probeSequence tick s i).queue.sentPacket.length =
      s.queue.sentPacket.length := by
  rcases resendAt_cases probeSequence tick s i with ⟨p, -, -, he⟩ | ⟨-, he⟩
  · rw [he]
    simp [Burst.resend]
  · rw [he]

/-- After the loop every frame of the flight is sent. -/
theorem resend_loop {s : Burst} (h : Caches s.queue) (htick : 0 ≤ tick)
    (probeSequence : Option ℕ) {n : ℕ} (hn : s.queue.sentPacket.length = n)
    {s' : Burst} (hs' : (List.range n).foldl (Burst.resendAt probeSequence tick) s = s') :
    Caches s'.queue ∧ ∀ p ∈ s'.queue.sentPacket, p.sent = true := by
  obtain ⟨hcaches, hresent, hlength⟩ := Lib.Machine.foldl_range
    (I := fun i x => Caches x.queue ∧ Resent i x ∧ x.queue.sentPacket.length = n)
    (f := Burst.resendAt probeSequence tick) ⟨h, fun j p hj => by omega, hn⟩ n
    fun i x _ hx => by
      refine ⟨?_, hx.2.1.resendAt probeSequence,
        (resendAt_length probeSequence x i).trans hx.2.2⟩
      rcases resendAt_cases probeSequence tick x i with ⟨p, hp, -, he⟩ | ⟨-, he⟩
      · rw [he]
        exact hx.1.resend htick probeSequence hp
      · rw [he]
        exact hx.1
  rw [hs'] at hcaches hresent hlength
  refine ⟨hcaches, fun p hp => ?_⟩
  obtain ⟨j, hj, hget⟩ := List.getElem_of_mem hp
  exact hresent j p (by omega) (List.getElem?_eq_some_iff.mpr ⟨hj, hget⟩)

theorem resend_idle (probeSequence : Option ℕ) {s : Burst}
    (h : ∀ p ∈ s.queue.sentPacket, p.sent = true) :
    ∀ l : List ℕ, l.foldl (Burst.resendAt probeSequence tick) s = s := by
  intro l
  induction l with
  | nil => rfl
  | cons i l ih =>
    rw [List.foldl_cons]
    rcases resendAt_cases probeSequence tick s i with ⟨p, hp, hsent, -⟩ | ⟨-, he⟩
    · exact absurd (h p (List.mem_of_getElem? hp)) (by simp [hsent])
    · rw [he, ih]

/-- Whether or not it is skipped, the loop over the flight has the same effect. -/
theorem resendAll_alike {q : SendQ} (h : Caches q) (htick : 0 ≤ tick) :
    Caches (q.resendAll tick).queue ∧ (q.resendAll tick).bare =
      ((List.range q.sentPacket.length).foldl (Burst.resendAt q.probeReplay tick)
        q.burst).bare := by
  have hbegin : Caches q.burst.queue := h.of_steady ⟨.refl _, rfl, rfl, rfl, rfl⟩
  unfold SendQ.resendAll
  cases hpending : q.retriesPending with
  | true =>
    obtain ⟨hcaches, hsent⟩ := resend_loop hbegin htick q.probeReplay rfl rfl
    refine ⟨{ hcaches with pending := fun p hp hunsent => ?_ }, rfl⟩
    exact absurd (hsent p hp) (by simp [hunsent])
  | false =>
    have hsent : ∀ p ∈ q.burst.queue.sentPacket, p.sent = true := fun p hp =>
      Bool.of_not_eq_false fun hunsent =>
        absurd (h.pending p hp hunsent) (by simp [hpending])
    rw [resend_idle q.probeReplay hsent]
    exact ⟨hbegin, rfl⟩

theorem assign_bare (s : Burst) (packable : Bool) (f : QueuedFrame) :
    s.bare.assign packable f = ((s.assign packable f).1, (s.assign packable f).2.bare) := by
  have hgroup : s.bare.group = s.group := rfl
  have hmtu : s.bare.queue.mtu = s.queue.mtu := rfl
  unfold Burst.assign
  rw [hgroup, hmtu]
  cases s.group.sequence with
  | none => rfl
  | some sequence =>
    simp only
    split_ifs <;> rfl

theorem assign_steady (s : Burst) (packable : Bool) (f : QueuedFrame) :
    Steady s.queue (s.assign packable f).2.queue := by
  unfold Burst.assign
  split
  · split_ifs
    · exact ⟨.refl _, rfl, rfl, rfl, rfl⟩
    · exact ⟨.refl _, rfl, rfl, rfl, rfl⟩
  · exact ⟨.refl _, rfl, rfl, rfl, rfl⟩

/-- A new frame goes to the end of the flight. -/
theorem Caches.launch {s : Burst} (h : Caches s.queue) (htick : 0 ≤ tick) (f : QueuedFrame) :
    Caches (s.launch tick f).queue := by
  have hmem : ∀ p ∈ (s.launch tick f).queue.sentPacket, p ∈ s.queue.sentPacket ∨
      p = ⟨f, true, tick, 0, [], []⟩ := fun p hp => by
    simpa [Burst.launch] using hp
  refine ⟨⟨fun p hp hsent => ?_, fun hd => ?_, h.rto, fun p hp hsent => ?_⟩,
    fun p hp hsent => ?_⟩
  · rcases hmem p hp with hin | rfl
    · exact h.pending p hin hsent
    · exact absurd hsent (by simp)
  · simp only [Burst.launch, Bool.or_eq_false_iff] at hd
    -- the last frame is the greatest of a sorted flight
    refine Lib.pairwise_snoc_of_last le_trans (h.sorted hd.1) fun last hlast => ?_
    have hle := hd.2
    rw [hlast] at hle
    simpa using hle
  · rcases hmem p hp with hin | rfl
    · exact h.clock p hin hsent
    · exact htick
  · rcases hmem p hp with hin | rfl
    · exact le_trans (min_le_left _ _) (h.retry p hin hsent)
    · have hrto := h.rto
      unfold rtoLbound at hrto
      exact le_trans (min_le_right _ _) (saturatingAdd_le (by omega))

/-- The frame and the burst of one turn of the loop over the queue, once the frame has a number. -/
theorem sendOne_alike {s : Burst} (h : Caches s.queue) (htick : 0 ≤ tick) :
    (s.bare.sendOne tick).map Burst.bare = (s.sendOne tick).map Burst.bare ∧
      ∀ s', s.sendOne tick = some s' → Caches s'.queue := by
  have hflight : s.bare.queue.sentPacket = s.queue.sentPacket := rfl
  have hqueued : s.bare.queue.queuedUnreliable = s.queue.queuedUnreliable := rfl
  have hpackets : s.bare.queue.packets = s.queue.packets := rfl
  have hcoalesce : s.bare.queue.coalesce = s.queue.coalesce := rfl
  have hpop : ∀ rest, s.bare.pop rest = (s.pop rest).bare := fun _ => rfl
  unfold Burst.sendOne
  rw [hflight, hqueued, hpackets, hcoalesce]
  by_cases hstop : maxInFlightPackets ≤ s.queue.sentPacket.length ∧ s.queue.queuedUnreliable = 0
  · simp only [if_pos hstop]
    exact ⟨trivial, fun s' hs' => (nomatch hs')⟩
  simp only [if_neg hstop]
  cases s.queue.packets with
  | nil => exact ⟨rfl, fun s' hs' => (nomatch hs')⟩
  | cons f rest =>
    have hrest : ∀ rest, Caches (s.pop rest).queue :=
      fun rest => h.of_steady ⟨.refl _, rfl, rfl, rfl, rfl⟩
    simp only
    by_cases hfull :
        (f.isReliable && decide (maxInFlightPackets ≤ s.queue.sentPacket.length)) = true
    · simp only [if_pos hfull]
      exact ⟨rfl, fun s' hs' => Option.some.inj hs' ▸ hrest _⟩
    simp only [if_neg hfull]
    have hsend : ∀ g : QueuedFrame × Burst, Caches g.2.queue →
        Caches (if f.isReliable then g.2.launch tick g.1 else g.2.emit g.1).queue := by
      intro g hg
      cases f.isReliable with
      | true => exact hg.launch htick g.1
      | false => exact hg.of_steady ⟨.refl _, rfl, rfl, rfl, rfl⟩
    have hbare : ∀ g : QueuedFrame × Burst,
        (if f.isReliable then g.2.bare.launch tick g.1 else g.2.bare.emit g.1).bare =
          (if f.isReliable then g.2.launch tick g.1 else g.2.emit g.1).bare := by
      intro g
      cases f.isReliable with
      | true => rfl
      | false => rfl
    cases s.queue.coalesce with
    | true =>
      simp only [if_true, hpop, assign_bare]
      exact ⟨congrArg some (hbare _),
        fun s' hs' => Option.some.inj hs' ▸ hsend _ ((hrest rest).of_steady (assign_steady _ _ _))⟩
    | false =>
      refine ⟨congrArg some (hbare ((s.pop rest).fresh f)), fun s' hs' => ?_⟩
      exact Option.some.inj hs' ▸ hsend _ ((hrest rest).of_steady ⟨.refl _, rfl, rfl, rfl, rfl⟩)

theorem sendLoop_alike (htick : 0 ≤ tick) : ∀ (n : ℕ) {s s' : Burst}, Caches s.queue →
    Caches s'.queue → s.bare = s'.bare →
    (Burst.sendLoop tick n s).bare = (Burst.sendLoop tick n s').bare ∧
      Alike (Burst.sendLoop tick n s).queue (Burst.sendLoop tick n s').queue
  | 0, _, _, hs, hs', he => ⟨he, congrArg Burst.queue he, hs, hs'⟩
  | n + 1, s, s', hs, hs', he => by
    obtain ⟨hone, hcaches⟩ := sendOne_alike hs htick
    obtain ⟨hone', hcaches'⟩ := sendOne_alike hs' htick
    rw [he, hone'] at hone
    unfold Burst.sendLoop
    cases h : s.sendOne tick with
    | none =>
      cases h' : s'.sendOne tick with
      | none => exact ⟨he, congrArg Burst.queue he, hs, hs'⟩
      | some t' => rw [h, h'] at hone; simp at hone
    | some t =>
      cases h' : s'.sendOne tick with
      | none => rw [h, h'] at hone; simp at hone
      | some t' =>
        rw [h, h'] at hone
        exact sendLoop_alike htick n (hcaches t h) (hcaches' t' h') (Option.some.inj hone).symm

/-- **A flush sees the caches only as far as they are right**: from two queues that differ in their
caches, it makes the same burst and leaves queues that differ in their caches. -/
theorem Alike.flushLegacy (hB : B.recoveryPolicy = false) (hsort : B.SortsInPlace)
    (htick : 0 ≤ tick) {q q' : SendQ} (h : Alike q q') :
    (q.flushLegacy B tick).1 = (q'.flushLegacy B tick).1 ∧
      Alike (q.flushLegacy B tick).2 (q'.flushLegacy B tick).2 := by
  have htimeouts : ∀ x : SendQ, x.tick B tick = x.expire B tick := fun x => by
    simp [SendQ.tick, hB]
  unfold SendQ.flushLegacy
  rw [htimeouts, htimeouts]
  have hsorted := (h.expire hB tick).sortFlight hsort
  generalize (q.expire B tick).sortFlight B = x at hsorted
  generalize (q'.expire B tick).sortFlight B = x' at hsorted
  obtain ⟨hcaches, hresend⟩ := resendAll_alike hsorted.left htick
  obtain ⟨hcaches', hresend'⟩ := resendAll_alike hsorted.right htick
  have hbegin : x.burst.bare = x'.burst.bare :=
    hsorted.read (a := fun y => y.burst.bare) fun _ => rfl
  have hreplay : x.probeReplay = x'.probeReplay :=
    hsorted.read (a := SendQ.probeReplay) fun _ => rfl
  have he : (x.resendAll tick).bare = (x'.resendAll tick).bare := by
    rw [hresend, hresend', hsorted.flight, hreplay]
    exact (Blind.foldl burst_bare_bare (resendAt_blind _) _).congr hbegin
  have hpackets : (x.resendAll tick).queue.packets = (x'.resendAll tick).queue.packets :=
    (congrArg (fun s : Burst => s.queue.packets) he :)
  simp only
  rw [hpackets]
  obtain ⟨hburst, halike⟩ :=
    sendLoop_alike htick (x'.resendAll tick).queue.packets.length hcaches hcaches' he
  exact ⟨(congrArg Burst.output hburst :), halike⟩

end flush

/-! ### Runs -/

/-- One operation of a queue whose caches are reset before every flush. -/
def Run.stepForced (B : Build) (r : Run) : Op → Run
  | .flush tick => Run.step B { r with queue := r.queue.force } (.flush tick)
  | op => r.step B op

/-- The run of a list of operations with the caches reset before every flush. -/
def runForced (B : Build) (mtu : Fin 65536) (ops : List Op) : Run :=
  ops.foldl (Run.stepForced B) (Run.new mtu)

/-- Two runs that differ in the caches of their queues only. -/
structure Twins (r r' : Run) : Prop where
  queue : Alike r.queue r'.queue
  output : r.output = r'.output

theorem flush_default {B : Build} (hB : B.recoveryPolicy = false) {q : SendQ}
    (hs : q.scheduler = none) (tick : ℤ) : q.flush B tick = q.flushLegacy B tick := by
  simp [SendQ.flush, hB, hs]

theorem Twins.step {B : Build} (hpolicy : B.sendPolicy = false) (hB : B.recoveryPolicy = false)
    (hsort : B.SortsInPlace) {r r' : Run} (hw : Wf B r.queue) (h : Twins r r') {op : Op}
    (htick : ∀ tick, op = .flush tick → 0 ≤ tick) : Twins (r.step B op) (r'.stepForced B op) := by
  cases op with
  | insert m =>
    refine ⟨h.queue.insert m, ?_⟩
    have houtput : ∀ x : Run, (x.step B (.insert m)).output = x.output := fun x =>
      Run.insert_cases (fun _ _ => rfl) rfl
    exact (houtput r).trans (h.output.trans (houtput r').symm)
  | flush tick =>
    have hs : r.queue.scheduler = none := by
      cases hs : r.queue.scheduler with
      | none => rfl
      | some s => exact absurd (hw.scheduled s hs).1 (by simp [hpolicy])
    have hs' : r'.queue.force.scheduler = none :=
      (h.queue.read (a := SendQ.scheduler) fun _ => rfl).symm.trans hs
    have hforce : Alike r.queue r'.queue.force :=
      ⟨h.queue.bare.trans (force_bare _).symm, h.queue.left, h.queue.right.force⟩
    obtain ⟨houtput, hqueue⟩ := hforce.flushLegacy hB hsort (htick tick rfl)
    rw [← flush_default hB hs, ← flush_default hB hs'] at houtput hqueue
    exact ⟨hqueue, houtput⟩
  | ack sequence tick =>
    have hqueue : Alike (r.queue.ack B sequence tick).2 (r'.queue.ack B sequence tick).2 :=
      h.queue.map (ack_quiet hB sequence tick) (ack_caches sequence tick)
    exact ⟨hqueue, h.output⟩
  | ackRanges ranges tick =>
    have hqueue : Alike (r.queue.ackRanges B ranges tick).2 (r'.queue.ackRanges B ranges tick).2 :=
      h.queue.map (ackRanges_quiet hB ranges tick) (ackRangesInner_caches _ ranges tick)
    exact ⟨hqueue, h.output⟩
  | nack sequence tick =>
    exact ⟨h.queue.map (nack_quiet sequence tick) ((ackRule_caches (B := B)).nack _ sequence),
      h.output⟩
  | nackRanges ranges tick =>
    exact ⟨h.queue.map (nackRanges_quiet ranges tick)
      ((ackRule_caches (B := B)).nackRanges _ ranges), h.output⟩
  | enableCoalescing =>
    have hquiet : Quiet SendQ.enableCoalescing := fun _ => rfl
    exact ⟨h.queue.map hquiet fun hq => hq.of_steady ⟨.refl _, rfl, rfl, rfl, rfl⟩, h.output⟩
  | setSendOptions options =>
    have hstep : ∀ x : Run, x.step B (.setSendOptions options) = x := fun x =>
      if_neg (by simp [hpolicy])
    show Twins (r.step B (.setSendOptions options)) (r'.step B (.setSendOptions options))
    rw [hstep, hstep]
    exact h
  | setRecoveryOptions options now =>
    have hstep : ∀ x : Run, x.step B (.setRecoveryOptions options now) = x := fun x =>
      if_neg (by simp [hB])
    show Twins (r.step B (.setRecoveryOptions options now))
      (r'.step B (.setRecoveryOptions options now))
    rw [hstep, hstep]
    exact h

/-- **The caches of a retransmission cannot be observed.** In the default build, with a sort that
leaves sorted lists alone and flushes at times from 0 on, a queue has the same bursts and the same
flight as one whose caches are reset before every flush: the caches are right after every run. -/
theorem caches_unobservable (B : Build) (hpolicy : B.sendPolicy = false)
    (hB : B.recoveryPolicy = false) (hsort : B.SortsInPlace) (mtu : Fin 65536) (ops : List Op)
    (hticks : ∀ tick, Op.flush tick ∈ ops → 0 ≤ tick) :
    (run B mtu ops).output = (runForced B mtu ops).output ∧
    (run B mtu ops).queue.sentPacket = (runForced B mtu ops).queue.sentPacket ∧
    Caches (run B mtu ops).queue := by
  have htwins : Twins (run B mtu ops) (runForced B mtu ops) := by
    induction ops using List.reverseRecOn with
    | nil => exact ⟨⟨rfl, caches_new mtu, caches_new mtu⟩, rfl⟩
    | append_singleton ops op ih =>
      have hforced : runForced B mtu (ops ++ [op]) =
          (runForced B mtu ops).stepForced B op := by
        simp [runForced]
      rw [run_append, hforced]
      refine (ih fun tick h => hticks tick (by simp [h])).step hpolicy hB hsort
        (run_steps B mtu ops).1 fun tick h => hticks tick (by simp [h])
  exact ⟨htwins.output, htwins.queue.flight, htwins.queue.left⟩

theorem insertion_sortsInPlace (sendPolicy recoveryPolicy : Bool) :
    (Build.insertion sendPolicy recoveryPolicy).SortsInPlace :=
  fun _ h => h.insertionSort_eq

/-- A message that is lost, reported and timed out. -/
def lossyOps : List Op :=
  [.insert ⟨.reliable, primaryChannel, [0xfe], false⟩, .flush 0, .nack 0 5, .flush 20, .flush 200]

theorem caches_unobservable_lossy :
    (run (Build.insertion false false) 1400 lossyOps).output =
      (runForced (Build.insertion false false) 1400 lossyOps).output ∧
    (run (Build.insertion false false) 1400 lossyOps).queue.sentPacket =
      (runForced (Build.insertion false false) 1400 lossyOps).queue.sentPacket ∧
    Caches (run (Build.insertion false false) 1400 lossyOps).queue :=
  caches_unobservable _ rfl rfl (insertion_sortsInPlace false false) _ _ (by simp [lossyOps])

/-- A message that is sent before time 0 and times out before time 0. -/
def earlyOps : List Op :=
  [.insert ⟨.reliable, primaryChannel, [0xfe], false⟩, .flush (-1000), .flush (-500)]

/-- Before time 0, a `next_retry` of 0 does not stand for "at once": the frame is sent again at time
-500 by a queue that remembers its deadline, and not by one whose caches were reset. -/
theorem caches_observable_early :
    ((run (Build.insertion false false) 1400 earlyOps).output.frames.map
      fun f => f.frame.sequenceNumber) = [1] ∧
    (runForced (Build.insertion false false) 1400 earlyOps).output.frames = [] := by
  decide +kernel

end RustRaknet.Send
