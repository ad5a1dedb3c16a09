import RustRaknet.Link.Delivery
import RustRaknet.Send.Budget

/-! # Honest feedback

Nothing in the send queue looks at how far a new frame is ahead of one that is still missing. What
bounds it is the budget: a reliable frame stays in the queue until it is acknowledged, and 64 MiB are
at most 2^19 frames. So where the sender retires only frames that have arrived (`Peers.Honest`) and
the receiver has rejected nothing, no frame is half a turn ahead of the first one missing
(`Linked.ahead`). That frames arrive in time is then only that none is half a turn behind
(`timely_of_current`). -/

namespace RustRaknet.Link

open RustRaknet.Send RustRaknet.Frame RustRaknet.Recv RustRaknet.Lib.Serial

/-- Every frame that the sender has retired has arrived. -/
def Peers.Honest (l : Peers) : Prop :=
  ∀ t ∈ l.sender.retired, ∃ f ∈ l.arrived, f.body = t.packet.body

instance (l : Peers) : Decidable l.Honest := by unfold Peers.Honest; infer_instance

/-- The next frame of the inbox, if it is reliable, is at most 2^23 positions behind the first
reliable frame that has not arrived. -/
def Peers.Current (l : Peers) (limit : ℕ) : Prop :=
  ∀ x ∈ l.inbox.head?, x.2.isReliable = true →
    mex (l.taken limit) ≤ x.2.position limit l.log + 8388608

/-- No acknowledgement is made up, and no frame is received that is half a turn behind. -/
abbrev CurrentRun (B : Build) (mtu : Fin 65536) (actions : List Action) : Prop :=
  Always B mtu (fun l a => a = .receive → l.Honest ∧ l.Current ((mtu : ℕ) - 60)) actions

section ahead

variable {B : Build} {mtu : Fin 65536} {l : Peers}

theorem held_card_le (B : Build) (mtu : Fin 65536) (ops : List Op) :
    Multiset.card (run B mtu ops).ledger.held ≤ 524288 := by
  have hcharged := (balanced_run B mtu ops).charged
  have hbytes := hcharged.bytes
  have hmax := hcharged.max
  unfold budget at hbytes
  unfold maxBufferedBytes at hmax
  omega

/-- A reliable frame that has not arrived is held, when only frames that arrived were retired. -/
theorem Linked.held_of_missing (h : Linked B mtu l) (hhonest : l.Honest) {g : QueuedFrame}
    (hg : g ∈ accepted ((mtu : ℕ) - 60) l.log) (hr : g.isReliable = true)
    (hmissing : g.position ((mtu : ℕ) - 60) l.log ∉ l.taken ((mtu : ℕ) - 60)) :
    g ∈ l.sender.ledger.held := by
  obtain ⟨ops, hops⟩ := h.sender
  have hconserved := (conserved_run B mtu ops).2.1
  have hsorted := (conserved_run B mtu ops).2.2
  unfold Ledger.Conserved at hconserved
  rw [run_mtu, ← hops] at hconserved
  rw [← hops] at hsorted
  have hmem : g ∈ l.sender.ledger.held + l.sender.ledger.gone := by
    rw [hconserved]
    exact hg
  refine (Multiset.mem_add.mp hmem).resolve_right fun hgone => ?_
  rcases Multiset.mem_add.mp hgone with hgone | hgone
  · obtain ⟨f, hf, rfl⟩ := mem_bodies.mp hgone
    obtain ⟨t, ht, rfl⟩ := List.mem_map.mp hf
    obtain ⟨f, harrived, he⟩ := hhonest t ht
    refine hmissing ?_
    simp only [Peers.taken, List.mem_toFinset, List.mem_map, List.mem_filter]
    rw [← he] at hr ⊢
    exact ⟨f, ⟨harrived, hr⟩, rfl⟩
  · obtain ⟨f, hf, rfl⟩ := mem_bodies.mp hgone
    have hunreliable : f.isReliable = false := hsorted.emitted f hf
    exact absurd (hr.symm.trans hunreliable) (by simp)

/-- The log ends less than 2^16 + 2^19 positions after the first one missing. -/
theorem Linked.log_le (h : Linked B mtu l) (hok : l.failed = false) (hhonest : l.Honest) :
    (counters ((mtu : ℕ) - 60) l.log).reliable ≤ mex (l.taken ((mtu : ℕ) - 60)) + 589824 := by
  have hnear := (h.receives hok).window.near
  set limit := (mtu : ℕ) - 60
  -- the positions beyond the receive window are all held
  have hsub : Finset.Ico (mex (l.taken limit) + 65536) (counters limit l.log).reliable ⊆
      (l.sender.ledger.held.map (QueuedFrame.position limit l.log)).toFinset := by
    intro p hp
    obtain ⟨hge, hlt⟩ := Finset.mem_Ico.mp hp
    have hmem : p ∈ List.range (counters limit l.log).reliable := List.mem_range.mpr hlt
    rw [← accepted_position, List.mem_map] at hmem
    obtain ⟨g, hg, rfl⟩ := hmem
    obtain ⟨hg, hr⟩ := List.mem_filter.mp hg
    have hmissing : g.position limit l.log ∉ l.taken limit := fun hp => by
      have := hnear _ hp
      omega
    exact Multiset.mem_toFinset.mpr
      (Multiset.mem_map_of_mem _ (h.held_of_missing hhonest hg hr hmissing))
  -- and there is room for 2^19 frames
  have hcard := (Finset.card_le_card hsub).trans (Multiset.toFinset_card_le _)
  obtain ⟨ops, hops⟩ := h.sender
  have hheld := held_card_le B mtu ops
  rw [← hops] at hheld
  rw [Nat.card_Ico, Multiset.card_map] at hcard
  omega

/-- **No frame is half a turn ahead of the first one missing.** -/
theorem Linked.ahead (h : Linked B mtu l) (hok : l.failed = false) (hhonest : l.Honest)
    {f : QueuedFrame} (hf : f.body ∈ accepted ((mtu : ℕ) - 60) l.log) (hr : f.isReliable = true) :
    f.position ((mtu : ℕ) - 60) l.log < mex (l.taken ((mtu : ℕ) - 60)) + 8388608 := by
  obtain ⟨m, hk, hadm, hcarries, hm⟩ := (boxed_asDecoded hf).carries h.admissible
  have hlt := position_lt hadm.pos hk (hm.symm.trans hr) hcarries.lt
  have hle := h.log_le hok hhonest
  have hposition : f.position ((mtu : ℕ) - 60) l.log =
    (before ((mtu : ℕ) - 60) l.log f.message).reliable + f.frame.fragmentIndex := rfl
  omega

end ahead

/-- A connection that was closed stays so. -/
theorem failed_step {B : Build} {l : Peers} (a : Action) (h : (l.step B a).failed = false) :
    l.failed = false := by
  have hsend : ∀ op, (l.send B op).failed = l.failed := fun op => by
    unfold Peers.send
    split <;> rfl
  unfold Peers.step at h
  cases a with
  | send op => exact (hsend op).symm.trans h
  | arrive i =>
    simp only at h
    split at h
    · unfold Peers.arrive at h
      split at h <;> exact h
    · exact h
  | receive =>
    simp only at h
    split at h
    · exact h
    · split_ifs at h with hfailed
      · exact h
      · simpa using hfailed
  | takeAck | takeNack => exact h
  | feedback i tick =>
    simp only at h
    split at h
    · exact (hsend _).symm.trans h
    · exact h

/-- **Honest feedback keeps frames in time**, as long as none is half a turn behind. -/
theorem timely_of_current (B : Build) (mtu : Fin 65536) (actions : List Action)
    (h : CurrentRun B mtu actions) (hok : (runPeers B mtu actions).failed = false) :
    TimelyRun B mtu actions := by
  induction actions using List.reverseRecOn with
  | nil => exact Lib.Machine.always_nil
  | append_singleton actions a ih =>
    obtain ⟨hinit, hlast⟩ := h.init
    rw [runPeers_append] at hok
    have hok' := failed_step a hok
    have htimely := ih hinit hok'
    have hlinked := linked_run B mtu actions htimely
    refine htimely.concat fun ha x hx hr => ?_
    obtain ⟨hhonest, hcurrent⟩ := hlast ha
    exact ⟨hcurrent x hx hr,
      hlinked.ahead hok' hhonest (hlinked.inbox x (List.mem_of_mem_head? hx)).frame hr⟩

theorem current_of_few (B : Build) (mtu : Fin 65536) (actions : List Action)
    (hfew : (counters ((mtu : ℕ) - 60) (runPeers B mtu actions).log).reliable ≤ 8388608)
    (hhonest : ∀ n ≤ actions.length, (runPeers B mtu (actions.take n)).Honest) :
    CurrentRun B mtu actions := by
  intro before a after he ha
  refine ⟨?_, fun x hx hr => (timely_of_few B mtu actions hfew before a after he ha x hx hr).1⟩
  have htake : actions.take before.length = before := by rw [he, List.take_left]
  have := hhonest before.length (by rw [he, List.length_append]; omega)
  rwa [htake] at this

end RustRaknet.Link
