import RustRaknet.Send.Held

/-! # The budget of the send queue

The counters of the queue are exact in every run. A frame costs `FRAME_BUDGET`, an unfragmented one
its payload on top, and a fragmented message its whole payload once, as long as one of its fragments
is held; the shared counter of the message counts those fragments. -/

namespace RustRaknet.Send

open RustRaknet.Frame Ledger

/-! ### What frames cost -/

/-- The length of the message `k`. -/
def lengthOf (log : List Message) (k : ℕ) : ℕ := (log[k]?.map fun m => m.payload.length).getD 0

/-- The payload of an unfragmented frame. -/
def QueuedFrame.own (f : QueuedFrame) : ℕ := if f.frame.isFragment then 0 else f.frame.data.len

/-- How many fragments of the message `k` there are. -/
def fragments (s : Multiset QueuedFrame) (k : ℕ) : ℕ :=
  s.countP fun f => f.frame.isFragment = true ∧ f.message = k

/-- The messages that have a fragment. -/
def fragmented (s : Multiset QueuedFrame) : Finset ℕ :=
  ((s.filter fun f => f.frame.isFragment = true).map QueuedFrame.message).toFinset

/-- What frames cost: the overhead of each, the payloads of the unfragmented ones, and every
fragmented message once. -/
def budget (log : List Message) (s : Multiset QueuedFrame) : ℕ :=
  128 * s.card + (s.map QueuedFrame.own).sum + ∑ k ∈ fragmented s, lengthOf log k

section cost

variable {log : List Message} {s t : Multiset QueuedFrame} {f : QueuedFrame} {k : ℕ}

theorem mem_fragmented : k ∈ fragmented s ↔ 0 < fragments s k := by
  simp only [fragmented, fragments, Multiset.mem_toFinset, Multiset.mem_map, Multiset.mem_filter,
    Multiset.countP_pos, and_assoc]

theorem fragments_add : fragments (s + t) k = fragments s k + fragments t k :=
  Multiset.countP_add _ _ _

theorem fragments_singleton :
    fragments {f} k = if f.frame.isFragment = true ∧ f.message = k then 1 else 0 := by
  unfold fragments
  rw [← Multiset.cons_zero, Multiset.countP_cons, Multiset.countP_zero, Nat.zero_add]

theorem fragmented_add : fragmented (s + t) = fragmented s ∪ fragmented t := by
  simp [fragmented, Multiset.filter_add, Multiset.map_add, Multiset.toFinset_add]

theorem budget_add (h : Disjoint (fragmented s) (fragmented t)) :
    budget log (s + t) = budget log s + budget log t := by
  unfold budget
  rw [fragmented_add, Finset.sum_union h, Multiset.card_add, Multiset.map_add, Multiset.sum_add]
  ring

theorem budget_congr {log' : List Message} (h : ∀ k ∈ fragmented s, lengthOf log' k = lengthOf log k) :
    budget log' s = budget log s := by
  unfold budget
  rw [Finset.sum_congr rfl h]

theorem budget_unfragmented (h : f.frame.isFragment = false) :
    fragmented {f} = ∅ ∧ budget log {f} = f.frame.data.len + 128 := by
  have hf : fragmented {f} = ∅ := by
    ext k
    simp [mem_fragmented, fragments_singleton, h]
  refine ⟨hf, ?_⟩
  simp [budget, hf, QueuedFrame.own, h, Nat.add_comm]

theorem budget_fragment (h : f.frame.isFragment = true) (hk : f.message ∈ fragmented s) :
    budget log ({f} + s) = 128 + budget log s := by
  have hf : fragmented ({f} + s) = fragmented s := by
    rw [fragmented_add]
    refine Finset.union_eq_right.mpr fun k hk' => ?_
    rw [mem_fragmented, fragments_singleton] at hk'
    split_ifs at hk' with hc
    · exact hc.2 ▸ hk
    · exact absurd hk' (lt_irrefl 0)
  simp only [budget, hf, Multiset.card_add, Multiset.card_singleton, Multiset.map_add,
    Multiset.map_singleton, Multiset.sum_add, Multiset.sum_singleton, QueuedFrame.own, h, if_true]
  ring

theorem budget_charge : ∀ {l : List QueuedFrame}, (∀ f ∈ l, f.frame.isFragment = false) →
    fragmented (l : Multiset QueuedFrame) = ∅ ∧ budget log l = (l.map charge).sum
  | [], _ => ⟨rfl, rfl⟩
  | f :: l, h => by
    obtain ⟨hnone, hbudget⟩ := budget_unfragmented (h f (by simp))
    obtain ⟨hnone', hbudget'⟩ := budget_charge (l := l) fun g hg => h g (by simp [hg])
    rw [← Multiset.cons_coe, ← Multiset.singleton_add, fragmented_add, hnone, hnone',
      budget_add (by simp [hnone]), hbudget, hbudget', List.map_cons, List.sum_cons, charge,
      frameBudget_eq]
    exact ⟨rfl, rfl⟩

theorem budget_bodies (l : List QueuedFrame) : budget log (bodies l) = budget log l := by
  have hbodies : bodies l = (l : Multiset QueuedFrame).map QueuedFrame.body := rfl
  unfold budget fragmented
  rw [hbodies, Multiset.card_map, Multiset.map_map, Multiset.filter_map, Multiset.map_map]
  rfl

theorem budget_message (h : ∀ f ∈ s, f.frame.isFragment = true ∧ f.message = k) (hs : 0 < s.card) :
    fragmented s = {k} ∧ budget log s = 128 * s.card + lengthOf log k := by
  have hfrag : fragmented s = {k} := by
    ext k'
    rw [mem_fragmented, fragments, Multiset.countP_pos, Finset.mem_singleton]
    refine ⟨?_, fun he => ?_⟩
    · rintro ⟨f, hf, -, he⟩
      exact he ▸ (h f hf).2
    obtain ⟨f, hf⟩ := Multiset.card_pos_iff_exists_mem.mp hs
    exact ⟨f, hf, (h f hf).1, he ▸ (h f hf).2⟩
  have hown : (s.map QueuedFrame.own).sum = 0 := by
    refine Multiset.sum_eq_zero fun x hx => ?_
    obtain ⟨f, hf, rfl⟩ := Multiset.mem_map.mp hx
    simp [QueuedFrame.own, (h f hf).1]
  refine ⟨hfrag, ?_⟩
  simp [budget, hfrag, hown]

end cost

/-! ### The frames of a message -/

theorem lengthOf_append {log : List Message} {m : Message} {k : ℕ} (h : k < log.length) :
    lengthOf (log ++ [m]) k = lengthOf log k := by
  unfold lengthOf
  rw [List.getElem?_append_left h]

theorem lengthOf_last (log : List Message) (m : Message) :
    lengthOf (log ++ [m]) log.length = m.payload.length := by
  simp [lengthOf]

/-- What the queue knows of a frame it holds: an unfragmented frame has its own payload, a fragment
the number and the length of its message. -/
def Shares (log : List Message) (f : QueuedFrame) : Prop :=
  (f.frame.isFragment = false ∧ f.frame.sharedPayload = none) ∨
  (f.frame.isFragment = true ∧ f.isReliable = true ∧ f.message < log.length ∧
    f.frame.sharedPayload = some ⟨f.message, lengthOf log f.message⟩)

theorem Shares.mono {log : List Message} {f : QueuedFrame} (h : Shares log f) (m : Message) :
    Shares (log ++ [m]) f := by
  refine h.imp_right fun ⟨h1, h2, h3, h4⟩ => ⟨h1, h2, ?_, ?_⟩
  · rw [List.length_append]
    omega
  · rw [h4, lengthOf_append h3]

section framesOf

variable {L : Ledger} {m : Message}

theorem framesOf_shares {f : QueuedFrame} (hf : f ∈ bodies (L.framesOf m)) :
    Shares (L.log ++ [m]) f := by
  rw [bodies_framesOf, Multiset.mem_coe] at hf
  unfold framesOf Message.frames at hf
  split_ifs at hf with hfrag
  · obtain ⟨i, -, rfl⟩ := List.mem_map.mp hf
    refine .inr ⟨fragment_isFragment _ _ _ _ _, ?_, by simp, ?_⟩
    · rw [fromPayload_isReliable _ _ _ (fragment_reliability _ _ _ _ _)]
      rfl
    · simp [Message.fragment, lengthOf_last]
  · rw [List.mem_singleton.mp hf]
    exact .inl ⟨single_isFragment _ _, rfl⟩

theorem framesOf_fragmented (h : m.Fragmented L.limit) :
    (∀ f ∈ bodies (L.framesOf m), f.frame.isFragment = true ∧ f.message = L.log.length) ∧
      (bodies (L.framesOf m)).card = m.count L.limit := by
  rw [bodies_framesOf]
  unfold framesOf Message.frames
  rw [if_pos h]
  refine ⟨fun f hf => ?_, by simp⟩
  obtain ⟨i, -, rfl⟩ := List.mem_map.mp (Multiset.mem_coe.mp hf)
  exact ⟨fragment_isFragment _ _ _ _ _, rfl⟩

theorem framesOf_unfragmented (h : ¬ m.Fragmented L.limit) :
    bodies (L.framesOf m) = {⟨m.single (counters L.limit L.log), L.log.length, 0⟩} := by
  rw [bodies_framesOf, framesOf_single h]
  rfl

theorem framesOf_fragments (k : ℕ) : fragments (bodies (L.framesOf m)) k =
    if m.Fragmented L.limit ∧ k = L.log.length then m.count L.limit else 0 := by
  by_cases hf : m.Fragmented L.limit
  · obtain ⟨hall, hcard⟩ := framesOf_fragmented hf
    simp only [hf, true_and]
    split_ifs with hk
    · rw [← hcard]
      exact Multiset.countP_eq_card.mpr fun f hf => hk ▸ hall f hf
    · exact Multiset.countP_eq_zero.mpr fun f hf hc => hk (hc.2.symm.trans (hall f hf).2)
  · rw [framesOf_unfragmented hf, fragments_singleton, if_neg (by simp [single_isFragment]),
      if_neg fun h => hf h.1]

/-- The frames of a message cost what it is charged. -/
theorem framesOf_budget (h : L.Admits m) (hlimit : L.limit < 65536) :
    budget (L.log ++ [m]) (bodies (L.framesOf m)) = m.cost L.limit := by
  have hlen := lengthOf_last L.log m
  unfold Message.cost
  rw [frameBudget_eq]
  by_cases hf : m.Fragmented L.limit
  · obtain ⟨hall, hcard⟩ := framesOf_fragmented hf
    have hcount := count_pos m h.limit_pos
    rw [(budget_message hall (by omega)).2, hcard, hlen]
    ring
  · have hshort : m.payload.length < 65536 := by
      have := h.fits.resolve_left hf
      omega
    have hdata : (m.single (counters L.limit L.log)).data.len = m.payload.length := by
      rw [FramePayload.len, single_deref hshort]
    rw [framesOf_unfragmented hf, (budget_unfragmented (single_isFragment _ _)).2, hdata,
      count_single hf]
    ring

end framesOf

/-! ### The ledger -/

namespace Ledger

/-- The budget and the shared counters are exact. -/
structure Charged (L : Ledger) : Prop where
  limit : L.limit < 65536
  shares : ∀ f ∈ L.held, Shares L.log f
  remaining : ∀ k, L.remaining k = fragments L.held k
  bytes : L.bufferedBytes = budget L.log L.held
  max : L.bufferedBytes ≤ maxBufferedBytes

theorem Charged.fragmented_lt {L : Ledger} (h : L.Charged) :
    ∀ k ∈ fragmented L.held, k < L.log.length := by
  intro k hk
  rw [mem_fragmented, fragments, Multiset.countP_pos] at hk
  obtain ⟨f, hf, hfrag, rfl⟩ := hk
  rcases h.shares f hf with ⟨hn, -⟩ | ⟨-, -, hlt, -⟩
  · rw [hfrag] at hn
    cases hn
  · exact hlt

theorem Charged.accept {L L' : Ledger} {m : Message} (h : L.Charged) (hadm : L.Admits m)
    (hlimit : L'.limit = L.limit) (hheld : L'.held = L.held + bodies (L.framesOf m))
    (hlog : L'.log = L.log ++ [m]) (hbytes : L'.bufferedBytes = L.bufferedBytes + m.cost L.limit)
    (hremaining : L'.remaining = if m.Fragmented L.limit then
      Function.update L.remaining L.log.length (m.count L.limit) else L.remaining) :
    L'.Charged := by
  have hnone : fragments L.held L.log.length = 0 := by
    by_contra hc
    exact lt_irrefl _ (h.fragmented_lt _ (mem_fragmented.mpr (Nat.pos_of_ne_zero hc)))
  have hdisj : Disjoint (fragmented L.held) (fragmented (bodies (L.framesOf m))) := by
    refine Finset.disjoint_left.mpr fun k hk hk' => ?_
    rw [mem_fragmented, framesOf_fragments] at hk'
    split_ifs at hk' with hc
    · exact absurd (hc.2 ▸ h.fragmented_lt k hk) (lt_irrefl _)
    · exact absurd hk' (lt_irrefl 0)
  refine ⟨hlimit ▸ h.limit, ?_, ?_, ?_, ?_⟩
  · intro f hf
    rw [hlog]
    rcases Multiset.mem_add.mp (hheld ▸ hf) with hf | hf
    · exact (h.shares f hf).mono m
    · exact framesOf_shares hf
  · intro k
    rw [hheld, fragments_add, framesOf_fragments, hremaining, ← h.remaining]
    by_cases hf : m.Fragmented L.limit
    · by_cases hk : k = L.log.length
      · subst hk
        simp [hf, h.remaining, hnone]
      · simp [hf, hk]
    · simp [hf]
  · rw [hheld, hlog, budget_add hdisj, framesOf_budget hadm h.limit, hbytes, h.bytes,
      budget_congr fun k hk => lengthOf_append (h.fragmented_lt k hk)]
  · rw [hbytes]
    exact hadm.budget

theorem Charged.leave {L L' : Ledger} {f : QueuedFrame} {bytes : ℕ} (h : L.Charged)
    (hlimit : L'.limit = L.limit) (hheld : L.held = {f.body} + L'.held) (hlog : L'.log = L.log)
    (hbytes : L'.bufferedBytes = L.bufferedBytes - bytes)
    (hremaining : ∀ k, L'.remaining k = fragments L'.held k)
    (hcost : budget L.log L.held = bytes + budget L.log L'.held) : L'.Charged := by
  have hb : L'.bufferedBytes = budget L.log L'.held := by
    rw [hbytes, h.bytes, hcost, Nat.add_sub_cancel_left]
  refine ⟨hlimit ▸ h.limit, fun g hg => ?_, hremaining, hlog ▸ hb, ?_⟩
  · rw [hlog]
    exact h.shares g (hheld ▸ Multiset.mem_add.mpr (.inr hg))
  · exact (hbytes.trans_le (Nat.sub_le _ _)).trans h.max

/-- An emitted frame. Unreliable frames are not cut. -/
theorem Charged.emit {L L' : Ledger} {f : QueuedFrame} (h : L.Charged)
    (hf : f.isReliable = false) (hlimit : L'.limit = L.limit) (hheld : L.held = {f.body} + L'.held)
    (hlog : L'.log = L.log) (hbytes : L'.bufferedBytes = L.bufferedBytes - charge f)
    (hremaining : L'.remaining = L.remaining) :
    charge f ≤ L.bufferedBytes ∧ L'.Charged := by
  have hfrag : f.body.frame.isFragment = false := by
    rcases h.shares f.body (by simp [hheld]) with h | ⟨-, hrel, -⟩
    · exact h.1
    · exact absurd (hf.symm.trans hrel) Bool.false_ne_true
  obtain ⟨hnone, hbudget⟩ := budget_unfragmented hfrag
  have hcost : budget L.log L.held = charge f + budget L.log L'.held := by
    rw [hheld, budget_add (by simp [hnone]), hbudget, charge, frameBudget_eq]
    rfl
  refine ⟨h.bytes ▸ hcost ▸ Nat.le_add_right _ _, h.leave hlimit hheld hlog hbytes ?_ hcost⟩
  intro k
  rw [hremaining, h.remaining, hheld, fragments_add, fragments_singleton,
    if_neg (by simp [hfrag]), Nat.zero_add]

/-- A retired frame. The last fragment of a message gives the whole message back. -/
theorem Charged.retire {L L' : Ledger} {f : QueuedFrame} (h : L.Charged)
    (hlimit : L'.limit = L.limit) (hheld : L.held = {f.body} + L'.held) (hlog : L'.log = L.log)
    (hbytes : L'.bufferedBytes =
      L.bufferedBytes - (SendQ.releasedPayload L.remaining f + frameBudget))
    (hremaining : L'.remaining = SendQ.countDown L.remaining f) :
    SendQ.releasedPayload L.remaining f + frameBudget ≤ L.bufferedBytes ∧
      SendQ.exhausted L.remaining f = false ∧ L'.Charged := by
  have hcount : ∀ k, L.remaining k = (if f.body.frame.isFragment = true ∧ f.body.message = k
      then 1 else 0) + fragments L'.held k := by
    intro k
    rw [h.remaining, hheld, fragments_add, fragments_singleton]
  suffices hs : budget L.log L.held =
      SendQ.releasedPayload L.remaining f + frameBudget + budget L.log L'.held ∧
      SendQ.exhausted L.remaining f = false ∧
      ∀ k, SendQ.countDown L.remaining f k = fragments L'.held k by
    obtain ⟨hcost, hex, hdown⟩ := hs
    refine ⟨h.bytes ▸ hcost ▸ Nat.le_add_right _ _, hex, h.leave hlimit hheld hlog hbytes ?_ hcost⟩
    intro k
    rw [hremaining, hdown]
  rw [frameBudget_eq]
  rcases h.shares f.body (by simp [hheld]) with ⟨hfrag, hshared⟩ | ⟨hfrag, -, -, hshared⟩
  · -- an unfragmented frame gives its own payload back
    have hshared' : f.frame.sharedPayload = none := hshared
    obtain ⟨hnone, hbudget⟩ := budget_unfragmented hfrag
    refine ⟨?_, ?_, fun k => ?_⟩
    · rw [hheld, budget_add (by simp [hnone]), hbudget, SendQ.releasedPayload, hshared']
      rfl
    · rw [SendQ.exhausted, hshared']
    · rw [SendQ.countDown, hshared']
      simp only
      rw [hcount k, if_neg (by simp [hfrag]), Nat.zero_add]
  · have hshared' : f.frame.sharedPayload = some ⟨f.message, lengthOf L.log f.message⟩ := hshared
    have hone : L.remaining f.message = 1 + fragments L'.held f.message := by
      rw [hcount, if_pos ⟨hfrag, rfl⟩]
    refine ⟨?_, ?_, fun k => ?_⟩
    · rw [SendQ.releasedPayload, hshared', hheld]
      simp only [hone]
      by_cases hk : f.message ∈ fragmented L'.held
      · have := mem_fragmented.mp hk
        rw [budget_fragment hfrag hk, if_neg (by omega), Nat.zero_add]
      · -- the last fragment of the message
        have hzero : fragments L'.held f.message = 0 := by
          by_contra hc
          exact hk (mem_fragmented.mpr (Nat.pos_of_ne_zero hc))
        have hmessage : fragmented {f.body} = {f.message} ∧ budget L.log {f.body} = _ := budget_message
          (fun g hg => by
            rw [Multiset.mem_singleton.mp hg]
            exact ⟨hfrag, rfl⟩) (by simp)
        rw [budget_add (by simpa [hmessage.1] using hk), hmessage.2, if_pos (by omega)]
        simp only [Multiset.card_singleton]
        omega
    · rw [SendQ.exhausted, hshared']
      simp only [hone, decide_eq_false_iff_not]
      omega
    · rw [SendQ.countDown, hshared']
      simp only
      by_cases hk : k = f.message
      · subst hk
        rw [Function.update_self, hone, Nat.add_sub_cancel_left]
      · rw [Function.update_of_ne hk, hcount k, if_neg, Nat.zero_add]
        rintro ⟨-, he⟩
        exact hk he.symm

/-- The counters of the unreliable frames are exact. -/
structure Counted (L : Ledger) : Prop where
  queued : L.queuedUnreliable = L.packets.countP fun f => !f.isReliable
  unreliable : L.unreliableBytes = (L.unreliable.map charge).sum

theorem Counted.not_miscounted {L : Ledger} (h : L.Counted) : ¬ L.Miscounted := by
  rintro (⟨hq, f, hf, hr⟩ | ⟨f, hf, hlt⟩)
  · rw [h.queued, List.countP_eq_zero] at hq
    exact hq f hf (by simp [hr])
  · have := List.single_le_sum (fun x _ => Nat.zero_le x) _ (List.mem_map_of_mem (f := charge) hf)
    rw [h.unreliable] at hlt
    omega

theorem framesOf_countP (L : Ledger) (m : Message) :
    (L.framesOf m).countP (fun f => !f.isReliable) =
      if m.reliability.isReliable then 0 else 1 := by
  split_ifs with hr
  · exact List.countP_eq_zero.mpr fun f hf => by simp [frames_isReliable hf, hr]
  · have hr' : m.reliability.isReliable = false := by simpa using hr
    rw [framesOf_single (not_fragmented hr'), List.countP_singleton,
      fromPayload_isReliable _ _ _ (single_reliability _ m), hr']
    rfl

theorem Counted.step {L L' : Ledger} (hstep : Step L L') (h : L.Counted) : L'.Counted := by
  obtain ⟨hq, hu⟩ := h
  cases hstep with
  | acceptReliable hadm hr =>
    refine ⟨?_, hu⟩
    simp only [book, List.countP_append, hq, framesOf_countP, hr, if_true, Nat.add_zero]
  | acceptUnreliable hadm hr hs =>
    refine ⟨?_, hu⟩
    simp [List.countP_append, hq, framesOf_countP, hr]
  | acceptNumbered hadm hr hs =>
    refine ⟨?_, hu⟩
    have hcomp : (fun f => !QueuedFrame.isReliable f) ∘ L.fresh = fun f => !f.isReliable := rfl
    simp [List.countP_append, List.countP_map, hcomp, hq, framesOf_countP, hr]
  | acceptScheduled hadm hr hs => exact ⟨hq, by simp [hu]⟩
  | migrate hs =>
    refine ⟨?_, rfl⟩
    simp [List.countP_filter]
  | launch hp hf | join hp hf | emit hp hf =>
    refine ⟨?_, hu⟩
    simp [hq, hp, hf]
  | emitScheduled hp =>
    refine ⟨hq, ?_⟩
    simp [hu, hp]
  | rotate hp =>
    refine ⟨?_, hu⟩
    simp [hq, hp, List.countP_cons, Nat.add_comm]
  | _ => exact ⟨hq, hu⟩

/-- What every run keeps of the budget. -/
structure Balanced (L : Ledger) : Prop where
  lanes : L.Lanes
  charged : L.Charged
  counted : L.Counted
  fault : L.fault = false

/-- One move keeps the budget exact, and no counter goes below zero. -/
theorem Balanced.step {L L' : Ledger} (hstep : Step L L') (h : L.Balanced) : L'.Balanced := by
  have hlimit := hstep.limit_eq
  suffices hs : L'.Charged ∧ L'.fault = false from
    ⟨h.lanes.step hstep, hs.1, h.counted.step hstep, hs.2⟩
  cases hstep.effect h.lanes with
  | stay hheld hgone hlog hbytes hremaining hfault =>
    refine ⟨⟨hlimit ▸ h.charged.limit, ?_, ?_, ?_, hbytes ▸ h.charged.max⟩, hfault ▸ h.fault⟩
    · rw [hheld, hlog]
      exact h.charged.shares
    · rw [hheld, hremaining]
      exact h.charged.remaining
    · rw [hheld, hlog, hbytes]
      exact h.charged.bytes
  | accept m hadm hheld hgone hlog hbytes hremaining hfault =>
    exact ⟨h.charged.accept hadm hlimit hheld hlog hbytes hremaining, hfault ▸ h.fault⟩
  | emit f hf hheld hgone hlog hbytes hremaining hfault =>
    obtain ⟨hle, hcharged⟩ := h.charged.emit hf hlimit hheld hlog hbytes hremaining
    refine ⟨hcharged, ?_⟩
    by_contra hc
    rcases hfault (by simpa using hc) with h1 | h1 | h1
    · exact absurd (h.fault.symm.trans h1) Bool.false_ne_true
    · omega
    · exact h.counted.not_miscounted h1
  | retire f hheld hgone hlog hbytes hremaining hfault =>
    obtain ⟨hle, hex, hcharged⟩ := h.charged.retire hlimit hheld hlog hbytes hremaining
    refine ⟨hcharged, ?_⟩
    rw [hfault, h.fault, hex, Bool.false_or, Bool.false_or]
    simpa using hle

end Ledger

/-! ### Runs -/

theorem balanced_run (B : Build) (mtu : Fin 65536) (ops : List Op) :
    (run B mtu ops).ledger.Balanced := by
  refine run_preserves (fun hstep h => h.step hstep) B mtu
    ⟨⟨fun f hf => ?_, fun _ => rfl⟩, ⟨?_, fun f hf => ?_, fun k => rfl, rfl, Nat.zero_le _⟩,
      ⟨rfl, rfl⟩, rfl⟩ ops
  · cases hf
  · have := mtu.isLt
    show (mtu : ℕ) - 60 < 65536
    omega
  · exact absurd hf (Multiset.notMem_zero f)

/-- The frames that a queue holds. -/
def SendQ.held (q : SendQ) : List QueuedFrame :=
  q.packets ++ q.sentPacket.map InFlight.packet ++ q.scheduler.elim [] SendScheduler.unreliable

theorem isEmpty_held {q : SendQ} (h : q.isEmpty = true) : q.held = [] := by
  simp only [SendQ.isEmpty, Bool.and_eq_true, List.isEmpty_iff] at h
  obtain ⟨⟨hpackets, hflight⟩, hunreliable⟩ := h
  cases hs : q.scheduler with
  | none => simp [SendQ.held, hpackets, hflight, hs]
  | some s => simpa [SendQ.held, hpackets, hflight, hs] using hunreliable

theorem held_bodies (r : Run) : r.ledger.held = bodies r.queue.held := by
  simp only [Ledger.held, SendQ.held, bodies_append, Run.ledger, List.map_map]
  rfl

theorem bytes_held (B : Build) (mtu : Fin 65536) (ops : List Op) :
    (run B mtu ops).queue.bufferedBytes =
      budget (run B mtu ops).queue.log (run B mtu ops).queue.held := by
  rw [← budget_bodies, ← held_bodies]
  exact (balanced_run B mtu ops).charged.bytes

/-- The budget of a queue with a scheduler: what its reliable frames cost, and the scheduler's
counter, which is what the unreliable frames cost. -/
theorem bytes_split (B : Build) (mtu : Fin 65536) (ops : List Op) {s : SendScheduler}
    (hs : (run B mtu ops).queue.scheduler = some s) :
    s.unreliableBytes = budget (run B mtu ops).queue.log s.unreliable ∧
    (run B mtu ops).queue.bufferedBytes =
      budget (run B mtu ops).queue.log ((run B mtu ops).queue.packets ++
        (run B mtu ops).queue.sentPacket.map InFlight.packet : List QueuedFrame) +
      s.unreliableBytes := by
  have hbytes := bytes_held B mtu ops
  obtain ⟨hlanes, hcharged, hcounted, -⟩ := balanced_run B mtu ops
  generalize run B mtu ops = r at *
  have hunreliable : r.ledger.unreliable = s.unreliable := by simp [Run.ledger, hs]
  have hcount := hcounted.unreliable
  rw [hunreliable] at hcount
  have hfrag : ∀ f ∈ s.unreliable, f.frame.isFragment = false := by
    intro f hf
    have hrel := hlanes.unreliable f (hunreliable ▸ hf)
    have hmem : f.body ∈ r.ledger.held := by
      refine Multiset.mem_add.mpr (.inr (mem_bodies.mpr ⟨f, ?_, rfl⟩))
      rwa [hunreliable]
    rcases hcharged.shares _ hmem with h | ⟨-, h, -⟩
    · exact h.1
    · exact absurd (hrel.symm.trans h) Bool.false_ne_true
  obtain ⟨hnone, hcost⟩ := budget_charge hfrag
  have hexact : s.unreliableBytes = budget r.queue.log s.unreliable := by
    rw [hcost, ← hcount]
    simp [Run.ledger, hs]
  have hsplit : (r.queue.held : Multiset QueuedFrame) =
      (r.queue.packets ++ r.queue.sentPacket.map InFlight.packet : List _) + s.unreliable := by
    simp [SendQ.held, hs]
  refine ⟨hexact, ?_⟩
  rw [hbytes, hsplit, budget_add (by simp [hnone]), hexact]

/-- **The budget is exact.** In every reachable state `bufferedBytes` is what the frames held in
`packets`, `sentPacket` and the scheduler cost, the scheduler's counter is what its frames cost, and
`queuedUnreliable` counts the unreliable frames of `packets`. So the budget stays below its limit,
no counter was taken below zero, and an empty queue has nothing left of it. -/
theorem budget_exact (B : Build) (mtu : Fin 65536) (ops : List Op) :
    (run B mtu ops).queue.bufferedBytes =
      budget (run B mtu ops).queue.log (run B mtu ops).queue.held ∧
    (∀ s, (run B mtu ops).queue.scheduler = some s →
      s.unreliableBytes = budget (run B mtu ops).queue.log s.unreliable ∧
      s.unreliableBytes ≤ (run B mtu ops).queue.bufferedBytes) ∧
    (run B mtu ops).queue.queuedUnreliable =
      (run B mtu ops).queue.packets.countP (fun f => !f.isReliable) ∧
    (run B mtu ops).queue.bufferedBytes ≤ 64 * 1024 * 1024 ∧
    (run B mtu ops).queue.fault = false ∧
    ((run B mtu ops).queue.isEmpty = true → (run B mtu ops).queue.bufferedBytes = 0) := by
  obtain ⟨-, hcharged, hcounted, hfault⟩ := balanced_run B mtu ops
  refine ⟨bytes_held B mtu ops, fun s hs => ?_, hcounted.queued, hcharged.max, hfault,
    fun hempty => ?_⟩
  · obtain ⟨hexact, hsplit⟩ := bytes_split B mtu ops hs
    exact ⟨hexact, by omega⟩
  · rw [bytes_held, isEmpty_held hempty]
    rfl

end RustRaknet.Send
