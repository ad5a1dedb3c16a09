import RustRaknet.Server.Dispatch

/-! # The dispatch cache never misroutes

What holds of a listener after any actions of its worker, its collector and its sessions. The map
and the cache change only by the moves below (`Core.forget`, `Core.erase`, `Core.insert`,
`Core.remember`, `Core.close`, `Core.create`), and each keeps the `Core`: an entry of the cache
whose session is open is in the map, and the map holds the newest session of each address. What the
worker and the collector rely on while they wait is kept apart (`WorkerInv`, `CollectorInv`). -/

namespace RustRaknet.Server

open RustRaknet.Packet RustRaknet.Lib.Machine

variable {l : Listener} {cache cache' : SessionDispatchCache} {sessions : Sessions}
  {closed : List ℕ} {created n : ℕ} {trace : List Event} {address a : SocketAddr}
  {session : SessionSender}

/-! ### The map, the cache and the trace -/

/-- What holds of the map, the cache, the closed signals and the trace between any two steps. -/
structure Core (created : ℕ) (cache : SessionDispatchCache) (sessions : Sessions)
    (closed : List ℕ) (trace : List Event) : Prop where
  fresh : ∀ a n, .created a n ∈ trace → n < created
  slots : ∀ i e, cache.entries i = some e → slot e.address = i
  cached : ∀ i e, cache.entries i = some e → e.close ∈ closed ∨
    ∃ s, sessions.lookup e.address = some s ∧ s.sender = e.sender ∧ s.close = e.close
  latest : ∀ a s, sessions.lookup a = some s → newest trace a = some s.sender
  signals : ∀ n, n ∈ closed ↔ .closed n ∈ trace
  sound : Sound trace

theorem Core.new : Core 0 .empty ∅ [] [] where
  fresh _ _ h := absurd h (by simp)
  slots _ _ h := absurd h (by simp [SessionDispatchCache.empty])
  cached _ _ h := absurd h (by simp [SessionDispatchCache.empty])
  latest _ _ h := absurd h (by simp)
  signals _ := by simp
  sound before e after h := absurd h (by simp)

theorem Core.sub (h : Core created cache sessions closed trace)
    (hsub : ∀ i e, cache'.entries i = some e → cache.entries i = some e) :
    Core created cache' sessions closed trace :=
  { h with
    slots := fun i e he => h.slots i e (hsub i e he)
    cached := fun i e he => h.cached i e (hsub i e he) }

theorem Core.forget (h : Core created cache sessions closed trace) (a : SocketAddr) :
    Core created (cache.forget a) sessions closed trace :=
  h.sub fun _ _ he => SessionDispatchCache.forget_entries he

theorem Core.erase (h : Core created cache sessions closed trace)
    (ha : ∀ e, cache.entries (slot a) = some e → e.address = a → e.close ∈ closed) :
    Core created cache (sessions.erase a) closed trace := by
  refine { h with cached := ?_, latest := ?_ }
  · intro i e he
    rcases eq_or_ne e.address a with hea | hea
    · have hslot := h.slots i e he
      rw [hea] at hslot
      exact .inl (ha e (hslot ▸ he) hea)
    · rw [AList.lookup_erase_ne hea]
      exact h.cached i e he
  · intro b s hs
    rcases eq_or_ne b a with rfl | hb
    · simp at hs
    · rw [AList.lookup_erase_ne hb] at hs
      exact h.latest b s hs

/-- The newest session of an address enters the map when the cache has no entry for the address. -/
theorem Core.insert (h : Core created cache sessions closed trace) (hcache : cache.Forgotten a)
    (hnew : newest trace a = some session.sender) :
    Core created cache (sessions.insert a session) closed trace := by
  refine { h with cached := ?_, latest := ?_ }
  · intro i e he
    have hea : e.address ≠ a := by
      intro hea
      have hslot := h.slots i e he
      rw [hea] at hslot
      exact hcache e (hslot ▸ he) hea
    rw [AList.lookup_insert_ne hea]
    exact h.cached i e he
  · intro b s hs
    rcases eq_or_ne b a with rfl | hb
    · rw [AList.lookup_insert] at hs
      exact Option.some.inj hs ▸ hnew
    · rw [AList.lookup_insert_ne hb] at hs
      exact h.latest b s hs

theorem Core.remember (h : Core created cache sessions closed trace)
    (hs : sessions.lookup a = some session) :
    Core created (cache.remember a session) sessions closed trace := by
  have hentry : ∀ i e, (cache.remember a session).entries i = some e →
      (i = slot a ∧ e = ⟨a, session.sender, session.close⟩) ∨ cache.entries i = some e := by
    intro i e he
    by_cases hi : i = slot a
    · subst hi
      simp only [SessionDispatchCache.remember, Function.update_self, Option.some.injEq] at he
      exact .inl ⟨rfl, he.symm⟩
    · simp only [SessionDispatchCache.remember, Function.update_of_ne hi] at he
      exact .inr he
  refine { h with slots := ?_, cached := ?_ }
  · intro i e he
    rcases hentry i e he with ⟨rfl, rfl⟩ | he
    · rfl
    · exact h.slots i e he
  · intro i e he
    rcases hentry i e he with ⟨rfl, rfl⟩ | he
    · exact .inr ⟨session, hs, rfl, rfl⟩
    · exact h.cached i e he

/-- An event that creates nothing and closes nothing. -/
theorem Core.emit (h : Core created cache sessions closed trace) {e : Event}
    (hcreated : ∀ a n, e ≠ .created a n) (hclosed : ∀ n, e ≠ .closed n) (he : e.Follows trace) :
    Core created cache sessions closed (trace ++ [e]) where
  fresh a n hmem := by
    rcases List.mem_append.mp hmem with hmem | hmem
    · exact h.fresh a n hmem
    · exact absurd (List.mem_singleton.mp hmem).symm (hcreated a n)
  slots := h.slots
  cached := h.cached
  latest a s hs := by
    have hnone : e.createdAt a = none := by
      cases e with
      | created b n => exact absurd rfl (hcreated b n)
      | closed n | handed b n d | disconnected b n | collected b n => rfl
    rw [newest_snoc_of_none hnone]
    exact h.latest a s hs
  signals n := by
    rw [h.signals n, List.mem_append, List.mem_singleton]
    exact ⟨.inl, fun hmem => hmem.resolve_right fun he => hclosed n he.symm⟩
  sound := h.sound.snoc he

theorem Core.close (h : Core created cache sessions closed trace) (n : ℕ) :
    Core created cache sessions (n :: closed) (trace ++ [.closed n]) where
  fresh a m hmem := h.fresh a m (by simpa using hmem)
  slots := h.slots
  cached i e he := (h.cached i e he).imp (List.mem_cons_of_mem n) id
  latest a s hs := by
    rw [newest_snoc_of_none rfl]
    exact h.latest a s hs
  signals m := by
    rw [List.mem_cons, h.signals m, List.mem_append, List.mem_singleton, Event.closed.injEq]
    exact Or.comm
  sound := h.sound.snoc trivial

theorem Core.create (h : Core created cache sessions closed trace)
    (hnone : sessions.lookup a = none) :
    Core (created + 1) cache sessions closed (trace ++ [.created a created]) where
  fresh b n hmem := by
    rcases List.mem_append.mp hmem with hmem | hmem
    · exact (h.fresh b n hmem).trans (Nat.lt_succ_self _)
    · obtain ⟨-, rfl⟩ := Event.created.inj (List.mem_singleton.mp hmem)
      exact Nat.lt_succ_self _
  slots := h.slots
  cached := h.cached
  latest b s hs := by
    have hb : a ≠ b := fun hab => by simp [hab ▸ hnone] at hs
    rw [newest_snoc_of_none (by simp [Event.createdAt, hb])]
    exact h.latest b s hs
  signals n := by simp [h.signals n]
  sound := h.sound.snoc fun b hmem => absurd (h.fresh b created hmem) (Nat.lt_irrefl _)

/-! ### The worker and the collector -/

/-- What the worker relies on between two of its steps. -/
def WorkerInv (cache : SessionDispatchCache) (sessions : Sessions) (trace : List Event) :
    Worker → Prop
  | .ready | .close _ | .stopped => True
  | .lookup a _ | .disconnect a | .miss a _ | .remove a => cache.Forgotten a
  | .reply a _ => cache.Forgotten a ∧ sessions.lookup a = none
  | .insert a s =>
    cache.Forgotten a ∧ sessions.lookup a = none ∧ newest trace a = some s.sender
  | .hand a n _ => newest trace a = some n

/-- What the collector relies on while it holds the lock of the map. -/
def CollectorInv (sessions : Sessions) (closed : List ℕ) : Collector → Prop
  | .waiting | .locking _ | .finished => True
  | .sending a | .removing a => ∀ s, sessions.lookup a = some s → s.close ∈ closed
  | .closing rest => ∀ a s, sessions.lookup a = some s → a ∈ rest ∨ s.close ∈ closed
  | .draining => ∀ a s, sessions.lookup a = some s → s.close ∈ closed

/-- What holds of a listener between any two steps. -/
structure Inv (l : Listener) : Prop where
  core : Core l.created l.cache l.sessions l.signals.closed l.trace
  worker : WorkerInv l.cache l.sessions l.trace l.worker
  collector : CollectorInv l.sessions l.signals.closed l.collector

/-- The worker's condition outlives what the others do: sessions may leave the map, and events other
than a creation may happen. -/
theorem WorkerInv.mono {w : Worker} {sessions' : Sessions} {trace' : List Event}
    (h : WorkerInv cache sessions trace w)
    (hsessions : ∀ a, sessions.lookup a = none → sessions'.lookup a = none)
    (htrace : ∀ a, newest trace' a = newest trace a) : WorkerInv cache sessions' trace' w := by
  cases w with
  | ready | close s | stopped => trivial
  | lookup a req | disconnect a | miss a d | remove a => exact h
  | reply a req => exact ⟨h.1, hsessions a h.2⟩
  | insert a s => exact ⟨h.1, hsessions a h.2.1, (htrace a).trans h.2.2⟩
  | hand a n d => exact (htrace a).trans h

theorem CollectorInv.mono {c : Collector} {sessions' : Sessions} {closed' : List ℕ}
    (h : CollectorInv sessions closed c)
    (hsessions : ∀ a s, sessions'.lookup a = some s → sessions.lookup a = some s)
    (hclosed : closed ⊆ closed') : CollectorInv sessions' closed' c := by
  cases c with
  | waiting | locking a | finished => trivial
  | sending a | removing a => exact fun s hs => hclosed (h s (hsessions a s hs))
  | closing rest => exact fun a s hs => (h a s (hsessions a s hs)).imp_right (@hclosed _)
  | draining => exact fun a s hs => hclosed (h a s (hsessions a s hs))

theorem collectorInv_of_unlocked {c : Collector} (h : ¬ c.holdsLock = true) :
    CollectorInv sessions closed c := by
  cases c with
  | waiting | locking a | finished => trivial
  | sending a | removing a | closing rest | draining => simp [Collector.holdsLock] at h

theorem lookup_of_lookup_erase {s : SessionSender}
    (h : (sessions.erase address).lookup a = some s) : sessions.lookup a = some s := by
  rcases eq_or_ne a address with rfl | ha
  · simp at h
  · rwa [AList.lookup_erase_ne ha] at h

theorem lookup_erase_eq_none (h : sessions.lookup a = none) :
    (sessions.erase address).lookup a = none := by
  rcases eq_or_ne a address with rfl | ha
  · simp
  · rwa [AList.lookup_erase_ne ha]

theorem Inv.closeSignal (h : Inv l) (n : ℕ) : Inv (l.closeSignal n) where
  core := h.core.close n
  worker := h.worker.mono (fun _ => id) fun _ => newest_snoc_of_none rfl
  collector := h.collector.mono (fun _ _ => id) (List.subset_cons_self n _)

theorem Inv.forget (h : Inv l) (a : SocketAddr) {w : Worker}
    (hw : (l.cache.forget a).Forgotten a → WorkerInv (l.cache.forget a) l.sessions l.trace w) :
    Inv { l with cache := l.cache.forget a, worker := w } where
  core := h.core.forget a
  worker := hw (SessionDispatchCache.forget_forgotten l.cache a)
  collector := h.collector

theorem Inv.goto (h : Inv l) {w : Worker} (hw : WorkerInv l.cache l.sessions l.trace w) :
    Inv { l with worker := w } :=
  { h with worker := hw }

theorem Inv.trySend (h : Inv l) (hnew : newest l.trace a = some n) (d : Bytes) (o : Outcome) :
    Inv (l.trySend a n d o) := by
  unfold Listener.trySend
  split_ifs
  · exact h.forget a id
  · refine ⟨h.core.emit (by simp) (by simp) hnew, trivial, h.collector⟩
  · exact h.goto trivial

/-! ### The steps of the worker -/

theorem Inv.request2 (h : Inv l) (hready : l.worker = .ready) (a : SocketAddr) (d : Bytes) :
    Inv (l.request2 a d) := by
  have hstay : Inv { l with cache := l.cache.forget a } := by
    have hkeep := h.forget a (w := l.worker) fun _ => by rw [hready]; trivial
    exact hkeep
  unfold Listener.request2
  cases OpenConnectionRequest2.read d with
  | error e => exact hstay
  | ok req =>
    simp only
    split_ifs
    · exact h.forget a id
    · exact hstay

theorem Inv.dispatch (h : Inv l) (a : SocketAddr) (d : Bytes) : Inv (l.dispatch a d) := by
  unfold Listener.dispatch
  cases hsender : l.cache.sender l.signals a with
  | none => exact h.forget a id
  | some n =>
    obtain ⟨e, hentry, rfl, hopen, -, rfl⟩ := SessionDispatchCache.sender_eq_some.mp hsender
    obtain ⟨s, hs, hsame, -⟩ := (h.core.cached _ e hentry).resolve_left hopen
    exact h.goto (hsame ▸ h.core.latest _ s hs)

theorem Inv.receive (h : Inv l) (hready : l.worker = .ready) (a : SocketAddr) (d : Bytes) :
    Inv (l.receive a d) := by
  unfold Listener.receive
  split
  · exact h
  · split
    · exact h
    · exact h
    · exact h
    · exact h
    · exact h.request2 hready a _
    · exact h.forget a id
    · exact h.dispatch a _

theorem Inv.create (h : Inv l) {req : OpenConnectionRequest2} (hcache : l.cache.Forgotten a)
    (hnone : l.sessions.lookup a = none) : Inv (l.create a req) where
  core := h.core.create hnone
  worker := ⟨hcache, hnone, newest_snoc_created l.trace a l.created⟩
  collector := h.collector

theorem Inv.remove (h : Inv l) (hcache : l.cache.Forgotten a) (hlock : ¬ l.collector.holdsLock)
    {w : Worker} (hw : WorkerInv l.cache (l.sessions.erase a) l.trace w) :
    Inv { l with sessions := l.sessions.erase a, worker := w } where
  core := h.core.erase fun e he ha => absurd ha (hcache e he)
  worker := hw
  collector := collectorInv_of_unlocked hlock

theorem Inv.advance (h : Inv l) (o : Outcome) : Inv (l.advance o) := by
  have hw := h.worker
  unfold Listener.advance
  cases hworker : l.worker with
  | ready => exact h
  | stopped => exact h
  | lookup a req =>
    rw [hworker] at hw
    simp only
    split_ifs
    · exact h
    · cases hs : l.sessions.lookup a with
      | some s => exact h.goto trivial
      | none =>
        cases o with
        | done => exact h.goto ⟨hw, hs⟩
        | full | closed => exact h.goto trivial
  | reply a req =>
    rw [hworker] at hw
    simp only
    split_ifs
    · exact h.create hw.1 hw.2
    · exact h.goto trivial
  | insert a s =>
    rw [hworker] at hw
    simp only
    split_ifs with hlock
    · exact h
    · exact ⟨h.core.insert hw.1 hw.2.2, trivial, collectorInv_of_unlocked hlock⟩
  | disconnect a =>
    rw [hworker] at hw
    simp only
    split_ifs with hlock
    · exact h
    · cases l.sessions.lookup a with
      | some s => exact h.remove hw hlock trivial
      | none => exact h.goto trivial
  | close s => exact (h.closeSignal s.close).goto trivial
  | hand a n d =>
    rw [hworker] at hw
    exact h.trySend hw d o
  | miss a d =>
    simp only
    split_ifs with hlock
    · exact h
    · cases hs : l.sessions.lookup a with
      | none => exact h.goto trivial
      | some s =>
        -- what becomes of the worker does not depend on where it was
        have hremember : Inv { l with cache := l.cache.remember a s, worker := .ready } :=
          ⟨h.core.remember hs, trivial, h.collector⟩
        exact hremember.trySend (h.core.latest a s hs) d o
  | remove a =>
    rw [hworker] at hw
    simp only
    split_ifs with hlock
    · exact h
    · exact h.remove hw hlock trivial

/-! ### The steps of the collector -/

theorem Inv.sendDisconnect (h : Inv l)
    (hclosed : ∀ s, l.sessions.lookup a = some s → s.close ∈ l.signals.closed) :
    Inv (l.sendDisconnect a) := by
  unfold Listener.sendDisconnect
  cases hs : l.sessions.lookup a with
  | none => exact h
  | some s =>
    refine ⟨h.core.emit (by simp) (by simp) ((h.core.signals _).mp (hclosed s hs)), ?_,
      h.collector⟩
    exact h.worker.mono (fun _ => id) fun _ => newest_snoc_of_none rfl

theorem Inv.endSession (h : Inv l)
    (hclosed : ∀ s, l.sessions.lookup a = some s → s.close ∈ l.signals.closed) :
    Inv (l.endSession a) := by
  unfold Listener.endSession
  cases hs : l.sessions.lookup a with
  | none => exact h
  | some s =>
    have hcore : Core l.created l.cache l.sessions l.signals.closed
        (l.trace ++ [.collected a s.close]) :=
      h.core.emit (by simp) (by simp) ((h.core.signals _).mp (hclosed s hs))
    refine ⟨hcore.erase ?_, ?_, ?_⟩
    · intro e he hea
      rcases h.core.cached _ e he with hopen | ⟨s', hs', -, hclose⟩
      · exact hopen
      · rw [hea] at hs'
        exact hclose ▸ hclosed s' hs'
    · exact h.worker.mono (fun _ => lookup_erase_eq_none) fun _ => newest_snoc_of_none rfl
    · exact h.collector.mono (fun _ _ => lookup_of_lookup_erase) (List.Subset.refl _)

theorem sendDisconnect_sessions (l : Listener) (a : SocketAddr) :
    (l.sendDisconnect a).sessions = l.sessions ∧
      (l.sendDisconnect a).signals = l.signals ∧
      (l.sendDisconnect a).collector = l.collector := by
  unfold Listener.sendDisconnect
  cases l.sessions.lookup a <;> exact ⟨rfl, rfl, rfl⟩

theorem Inv.closeSession (h : Inv l) (a : SocketAddr) : Inv (l.closeSession a) := by
  unfold Listener.closeSession
  cases l.sessions.lookup a with
  | none => exact h
  | some s => exact h.closeSignal s.close

theorem closeSession_closed (l : Listener) (a : SocketAddr) :
    (l.closeSession a).sessions = l.sessions ∧
      l.signals.closed ⊆ (l.closeSession a).signals.closed ∧
      ∀ s, l.sessions.lookup a = some s → s.close ∈ (l.closeSession a).signals.closed := by
  unfold Listener.closeSession
  cases hs : l.sessions.lookup a with
  | none => exact ⟨rfl, List.Subset.refl _, fun s h => absurd h (by simp)⟩
  | some s =>
    refine ⟨rfl, List.subset_cons_self _ _, fun s' h => ?_⟩
    rw [← Option.some.inj h]
    exact List.mem_cons_self

theorem Inv.collector_goto (h : Inv l) {c : Collector}
    (hc : CollectorInv l.sessions l.signals.closed c) : Inv { l with collector := c } :=
  { h with collector := hc }

/-- The end of the collector, when every session of the map is closed. -/
theorem Inv.finish (h : Inv l)
    (hclosed : ∀ a s, l.sessions.lookup a = some s → s.close ∈ l.signals.closed) :
    Inv l.finish := by
  have hnone : ∀ l' : List Event, (∀ e ∈ l', ∃ a s, l.sessions.lookup a = some s ∧
      e = .collected a s.close) → Core l.created l.cache l.sessions l.signals.closed
        (l.trace ++ l') ∧ ∀ a, newest (l.trace ++ l') a = newest l.trace a := by
    -- the events are added one after the other
    intro l' hl'
    induction l' using List.reverseRecOn with
    | nil => simpa using h.core
    | append_singleton l' e ih =>
      obtain ⟨hcore, hnew⟩ := ih fun e he => hl' e (by simp [he])
      obtain ⟨a, s, hs, rfl⟩ := hl' e (by simp)
      rw [← List.append_assoc]
      refine ⟨hcore.emit (by simp) (by simp) ((hcore.signals _).mp (hclosed a s hs)), fun b => ?_⟩
      rw [newest_snoc_of_none rfl, hnew b]
  obtain ⟨hcore, hnew⟩ := hnone (l.sessions.entries.map fun s => .collected s.1 s.2.close) (by
    intro e he
    obtain ⟨s, hs, rfl⟩ := List.mem_map.mp he
    exact ⟨s.1, s.2, AList.mem_lookup_iff.mpr hs, rfl⟩)
  refine ⟨{ hcore with cached := ?_, latest := ?_ }, ?_, trivial⟩
  · intro i e he
    refine .inl ?_
    rcases h.core.cached i e he with hopen | ⟨s, hs, -, hclose⟩
    · exact hopen
    · exact hclose ▸ hclosed _ s hs
  · exact fun a s hs => absurd hs (by simp [Listener.finish])
  · exact h.worker.mono (fun a _ => by simp [Listener.finish]) hnew

theorem Inv.collect (h : Inv l) : Inv l.collect := by
  have hc := h.collector
  unfold Listener.collect
  cases hcollector : l.collector with
  | waiting | finished => exact h
  | locking a =>
    simp only
    cases hs : l.sessions.lookup a with
    | none => exact h.collector_goto trivial
    | some s =>
      simp only
      split_ifs with hclosed
      · refine h.collector_goto fun s' hs' => ?_
        rw [hs] at hs'
        exact Option.some.inj hs' ▸ hclosed
      · exact h.collector_goto trivial
  | sending a =>
    rw [hcollector] at hc
    obtain ⟨hsessions, hsignals, -⟩ := sendDisconnect_sessions l a
    refine (h.sendDisconnect hc).collector_goto fun s hs => ?_
    rw [hsessions] at hs
    rw [hsignals]
    exact hc s hs
  | removing a =>
    rw [hcollector] at hc
    exact (h.endSession hc).collector_goto trivial
  | closing rest =>
    rw [hcollector] at hc
    cases rest with
    | nil => exact h.collector_goto fun a s hs => (hc a s hs).resolve_left (by simp)
    | cons a rest =>
      obtain ⟨hsessions, hgrow, hclosed⟩ := closeSession_closed l a
      obtain ⟨hsessions', hsignals', -⟩ := sendDisconnect_sessions (l.closeSession a) a
      have hclose := h.closeSession a
      refine (hclose.sendDisconnect (fun s hs => hclosed s (hsessions ▸ hs))).collector_goto ?_
      intro b s hs
      rw [hsessions', hsessions] at hs
      rw [hsignals']
      rcases hc b s hs with hmem | hmem
      · rcases List.mem_cons.mp hmem with rfl | hmem
        · exact .inr (hclosed s hs)
        · exact .inl hmem
      · exact .inr (hgrow hmem)
  | draining =>
    rw [hcollector] at hc
    simp only
    split_ifs
    · exact h.finish hc
    · exact h

/-! ### Every run -/

theorem Inv.step (h : Inv l) (action : ListenerAction) : Inv (l.step action) := by
  have hc := h.collector
  cases action with
  | receive a d =>
    simp only [Listener.step]
    split_ifs with hready
    · exact h.receive hready a d
    · exact h
  | prune =>
    simp only [Listener.step]
    split_ifs with hready
    · refine ⟨h.core.sub fun _ _ he => SessionDispatchCache.prune_entries he, ?_, h.collector⟩
      show WorkerInv _ _ _ l.worker
      rw [hready]
      trivial
    · exact h
  | advance o => exact h.advance o
  | stop =>
    simp only [Listener.step]
    split_ifs
    · exact h.goto trivial
    · exact h
  | notified a =>
    simp only [Listener.step]
    cases hcollector : l.collector with
    | waiting => exact h.collector_goto trivial
    | draining =>
      rw [hcollector] at hc
      obtain ⟨hsessions, hsignals, -⟩ := sendDisconnect_sessions l a
      refine (h.sendDisconnect (hc a)).endSession fun s hs => ?_
      rw [hsessions] at hs
      rw [hsignals]
      exact hc a s hs
    | locking b | sending b | removing b | closing rest | finished => exact h
  | collect => exact h.collect
  | shutdown order =>
    simp only [Listener.step]
    split_ifs with hcond
    · refine h.collector_goto fun a s hs => .inl ?_
      have hmem : a ∈ l.sessions.keys := AList.mem_keys.mpr (AList.lookup_isSome.mp (by simp [hs]))
      exact hcond.2.mem_iff.mpr hmem
    · exact h
  | giveUp =>
    simp only [Listener.step]
    split_ifs with hcond
    · rw [hcond] at hc
      exact h.finish hc
    · exact h
  | close n =>
    simp only [Listener.step]
    split_ifs
    · exact h.closeSignal n
    · exact h
  | drop n =>
    simp only [Listener.step]
    split_ifs
    · exact { h with }
    · exact h

/-- **Every reachable listener** is as described. -/
theorem inv_run (maximumMtu : U16) (actions : List ListenerAction) :
    Inv (runListener maximumMtu actions) :=
  run_invariant ⟨Core.new, trivial, trivial⟩ (fun _ action h => h.step action) actions

/-- **The cache never misroutes.** In every run, what the cache returns is in the map, under exactly
that address and with the same channel; an entry for another address in the slot makes a miss and is
left alone; a datagram is handed only to the newest session of its address, and no two sessions are
the same; the collector sends `Disconnect` for, and removes, only sessions that were closed
before. -/
theorem dispatch_never_misroutes (maximumMtu : U16) (actions : List ListenerAction) :
    let l := runListener maximumMtu actions
    (∀ address n, l.cache.sender l.signals address = some n →
      ∃ session, l.sessions.lookup address = some session ∧ session.sender = n) ∧
    (∀ address entry, l.cache.entries (slot address) = some entry → entry.address ≠ address →
      l.cache.sender l.signals address = none ∧ l.cache.forget address = l.cache) ∧
    (∀ before address n datagram after, l.trace = before ++ .handed address n datagram :: after →
      newest before address = some n) ∧
    (∀ before address n after, l.trace = before ++ .created address n :: after →
      ∀ a, .created a n ∉ before) ∧
    (∀ before address n after, l.trace = before ++ .disconnected address n :: after ∨
      l.trace = before ++ .collected address n :: after → .closed n ∈ before) := by
  intro l
  have h : Inv l := inv_run maximumMtu actions
  refine ⟨?_, ?_, ?_, ?_, ?_⟩
  · intro address n hsender
    obtain ⟨e, hentry, rfl, hopen, -, rfl⟩ := SessionDispatchCache.sender_eq_some.mp hsender
    obtain ⟨s, hs, hsame, -⟩ := (h.core.cached _ e hentry).resolve_left hopen
    exact ⟨s, hs, hsame⟩
  · intro address entry hentry hne
    exact SessionDispatchCache.sender_collision l.signals hentry hne
  · intro before address n datagram after hsplit
    exact h.core.sound _ _ _ hsplit
  · intro before address n after hsplit
    exact h.core.sound _ _ _ hsplit
  · rintro before address n after (hsplit | hsplit)
    · exact h.core.sound _ _ _ hsplit
    · exact h.core.sound _ _ _ hsplit

/-- A peer asks for a session and sends two datagrams: the first goes through the map, the second
through the cache. The session closes, and the third finds only the closed one in the map. -/
example :
    let peer : SocketAddr := .v4 0x7f000001#32 19132#16
    let request : Bytes := (OpenConnectionRequest2.mk peer ⟨1400, by decide⟩ ⟨7, by decide⟩).write
    let l := runListener ⟨1400, by decide⟩ [.receive peer request, .advance .done, .advance .done,
      .advance .done, .receive peer [0x84], .advance .done, .receive peer [0x84, 1], .close 0,
      .advance .done, .receive peer [0x84, 2]]
    l.trace = [.created peer 0, .handed peer 0 [0x84], .closed 0, .handed peer 0 [0x84, 1]] ∧
      l.worker = .miss peer [0x84, 2] := by
  decide +kernel

end RustRaknet.Server
