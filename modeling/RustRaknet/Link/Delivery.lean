import RustRaknet.Link.Invariant

/-! # Ordered delivery over a lossy network

The payloads delivered on a channel are the longest beginning of the messages sent on it of which
every frame has arrived: in order, byte for byte, whatever the network drops, duplicates and
reorders and whatever is acknowledged. The condition is that no frame arrives half a turn of the
24-bit reliable index or more from the first one missing, before or after it (`TimelyRun`). A
connection of at most 2^23 reliable frames satisfies it (`timely_of_few`). -/

namespace RustRaknet.Link

open RustRaknet.Send RustRaknet.Frame RustRaknet.Recv RustRaknet.Lib.Serial

/-! ### Complete messages have arrived -/

/-- Every frame of the message with the number `p.2` has arrived. -/
def AllArrived (limit : ℕ) (arrived : List QueuedFrame) (p : Message × ℕ) : Prop :=
  ∀ i < p.1.count limit, ∃ f ∈ arrived, f.message = p.2 ∧ f.frame.fragmentIndex = i

instance (limit : ℕ) (arrived : List QueuedFrame) (p : Message × ℕ) :
    Decidable (AllArrived limit arrived p) := by unfold AllArrived; infer_instance

section arrived

variable {B : Build} {mtu : Fin 65536} {l : Peers}

/-- A position has been taken when its frame has arrived. -/
theorem Linked.mem_taken (h : Linked B mtu l) {k : ℕ} {m : Message} (hk : l.log[k]? = some m)
    (hr : m.reliability.isReliable = true) {i : ℕ} (hi : i < m.count ((mtu : ℕ) - 60)) :
    (before ((mtu : ℕ) - 60) l.log k).reliable + i ∈ l.taken ((mtu : ℕ) - 60) ↔
      ∃ f ∈ l.arrived, f.message = k ∧ f.frame.fragmentIndex = i := by
  have hpos := (h.admissible m (List.mem_of_getElem? hk)).pos
  have hcarries : ∀ f ∈ l.arrived, ∃ m', l.log[f.message]? = some m' ∧
      f.frame.fragmentIndex < m'.count ((mtu : ℕ) - 60) ∧
      f.isReliable = m'.reliability.isReliable := fun f hf => by
    obtain ⟨m', hk', -, hc, hr'⟩ :=
      (boxed_asDecoded (h.arrived f hf)).carries h.admissible
    exact ⟨m', hk', hc.lt, hr'⟩
  simp only [Peers.taken, List.mem_toFinset, List.mem_map, List.mem_filter]
  constructor
  · rintro ⟨f, ⟨hf, hrel⟩, he⟩
    obtain ⟨m', hk', hi', hr'⟩ := hcarries f hf
    obtain ⟨hmessage, hindex⟩ := position_inj hpos hk' (hr'.symm.trans hrel) hk hr hi' hi he
    exact ⟨f, hf, hmessage, hindex⟩
  · rintro ⟨f, hf, rfl, rfl⟩
    obtain ⟨m', hk', -, hr'⟩ := hcarries f hf
    obtain rfl := Option.some.inj (hk'.symm.trans hk)
    exact ⟨f, ⟨hf, hr'.trans hr⟩, rfl⟩

theorem Linked.complete_iff (h : Linked B mtu l) {c k : ℕ} {m : Message}
    (hk : l.log[k]? = some m) (hm : On c m) :
    Complete ((mtu : ℕ) - 60) l.log (l.taken ((mtu : ℕ) - 60)) k m ↔
      AllArrived ((mtu : ℕ) - 60) l.arrived (m, k) :=
  forall_congr' fun _ => forall_congr' fun hi => h.mem_taken hk hm.isReliable hi

end arrived

/-! ### Beginnings -/

theorem take_eq_takeWhile {α : Type*} {p : α → Bool} :
    ∀ {l : List α} {n : ℕ}, (∀ j < n, ∀ x, l[j]? = some x → p x = true) →
      (∀ x, l[n]? = some x → p x = false) → l.take n = l.takeWhile p
  | [], n, _, _ => by simp
  | x :: l, 0, _, hn => by
    have := hn x rfl
    simp [this]
  | x :: l, n + 1, hlt, hn => by
    have hx := hlt 0 (Nat.succ_pos n) x rfl
    rw [List.take_succ_cons, List.takeWhile_cons, hx, if_pos rfl,
      take_eq_takeWhile (fun j hj y hy => hlt (j + 1) (by omega) y hy) fun y hy => hn y hy]

theorem orderedOn_getElem? (limit : ℕ) {c j : ℕ} {log : List Message} {p : Message × ℕ}
    (h : (orderedOn c log)[j]? = some p) :
    log[p.2]? = some p.1 ∧ On c p.1 ∧ (before limit log p.2).ordered c = j := by
  have hlt := (List.getElem?_eq_some_iff.mp h).1
  rw [orderedOn_length limit, ← before_length] at hlt
  obtain ⟨k, -, m, hk, hm, hrank⟩ := exists_rank hlt
  have hp := orderedOn_rank limit hk hm
  rw [hrank, h] at hp
  obtain rfl := Option.some.inj hp
  exact ⟨hk, hm, hrank⟩

/-! ### Delivery -/

/-- **Ordered delivery.** In every run of the two peers in which no insertion has failed and no
reliable frame has arrived half a turn or more from the first one missing, the payloads delivered on
a channel are those of the messages sent on it, up to the first of which some frame has not
arrived. -/
theorem ordered_delivery (B : Build) (mtu : Fin 65536) (actions : List Action)
    (htimely : TimelyRun B mtu actions) (hok : (runPeers B mtu actions).failed = false) (c : ℕ) :
    payloads c (runPeers B mtu actions).released =
      ((orderedOn c (runPeers B mtu actions).log).takeWhile fun p =>
        AllArrived ((mtu : ℕ) - 60) (runPeers B mtu actions).arrived p).map
          fun p => p.1.payload := by
  have h := linked_run B mtu actions htimely
  generalize runPeers B mtu actions = l at *
  have hreceives := h.receives hok
  rw [hreceives.delivered c, messages, ← List.map_take]
  congr 1
  refine take_eq_takeWhile (fun j hj p hp => ?_) fun p hp => ?_
  all_goals
    obtain ⟨hk, hm, hrank⟩ := orderedOn_getElem? ((mtu : ℕ) - 60) hp
    have hpos := (h.admissible p.1 (List.mem_of_getElem? hk)).pos
    have hdone := rank_mem_done (A := l.taken ((mtu : ℕ) - 60)) hpos hk hm
    rw [hrank, h.complete_iff hk hm] at hdone
  · exact decide_eq_true (hdone.mp (mem_of_lt_mex hj))
  · exact decide_eq_false fun harrived => mex_notMem _ (hdone.mpr harrived)

/-! ### Short connections -/

theorem counters_append_le (limit : ℕ) (log more : List Message) :
    (counters limit log).reliable ≤ (counters limit (log ++ more)).reliable := by
  induction more using List.reverseRecOn with
  | nil => simp
  | append_singleton more m ih =>
    rw [← List.append_assoc, counters_append]
    exact ih.trans (Nat.le_add_right _ _)

/-- In a log of at most 2^23 reliable frames no two positions are further apart. -/
theorem Linked.timely {B : Build} {mtu : Fin 65536} {l : Peers} (h : Linked B mtu l)
    (hfew : (counters ((mtu : ℕ) - 60) l.log).reliable ≤ 8388608) :
    l.Timely ((mtu : ℕ) - 60) := by
  have hlt : ∀ f : QueuedFrame, f.body ∈ accepted ((mtu : ℕ) - 60) l.log → f.isReliable = true →
      f.position ((mtu : ℕ) - 60) l.log < (counters ((mtu : ℕ) - 60) l.log).reliable := by
    intro f hf hrel
    obtain ⟨m, hk, hadm, hc, hr⟩ := (boxed_asDecoded hf).carries h.admissible
    exact position_lt hadm.pos hk (hr.symm.trans hrel) hc.lt
  have hmex : mex (l.taken ((mtu : ℕ) - 60)) ≤ (counters ((mtu : ℕ) - 60) l.log).reliable := by
    refine mex_le fun hmem => ?_
    simp only [Peers.taken, List.mem_toFinset, List.mem_map, List.mem_filter] at hmem
    obtain ⟨f, ⟨hf, hrel⟩, he⟩ := hmem
    have := hlt f (h.arrived f hf) hrel
    omega
  intro x hx hrel
  have := hlt x.2 (h.inbox x (List.mem_of_mem_head? hx)).frame hrel
  omega

/-- **A connection of at most 2^23 reliable frames** receives every frame in time. -/
theorem timely_of_few (B : Build) (mtu : Fin 65536) (actions : List Action)
    (hfew : (counters ((mtu : ℕ) - 60) (runPeers B mtu actions).log).reliable ≤ 8388608) :
    TimelyRun B mtu actions := by
  induction actions using List.reverseRecOn with
  | nil => exact Lib.Machine.always_nil
  | append_singleton actions a ih =>
    obtain ⟨more, hmore⟩ := runPeers_log B mtu actions a
    rw [hmore] at hfew
    have hfew' := (counters_append_le _ _ more).trans hfew
    have htimely := ih hfew'
    exact htimely.concat fun _ => (linked_run B mtu actions htimely).timely hfew'

/-- Three messages, the second cut in two: its parts arrive before the first message and out of
order, one of them twice, and the third message is lost. -/
def shuffled : List Action :=
  [.send (.insert ⟨.reliableOrdered, primaryChannel, [0xfe, 1], false⟩),
    .send (.insert ⟨.reliableOrdered, primaryChannel, 0xfe :: List.replicate 1400 2, false⟩),
    .send (.insert ⟨.reliableOrdered, primaryChannel, [0xfe, 3], false⟩), .send (.flush 0),
    .arrive 2, .receive, .arrive 2, .receive, .arrive 1, .receive, .arrive 0, .receive]

/-- The first two are delivered. -/
theorem ordered_delivery_shuffled :
    payloads 0 (runPeers (.insertion false false) 1400 shuffled).released =
      [[0xfe, 1], 0xfe :: List.replicate 1400 2] :=
  (ordered_delivery (.insertion false false) 1400 shuffled
    (timely_of_few _ _ _ (by decide +kernel)) (by decide +kernel) 0).trans (by decide +kernel)

end RustRaknet.Link
