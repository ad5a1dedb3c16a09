import RustRaknet.Link.Honest

/-! # No reassembly residue

The receiver keeps a group for a message exactly while some but not all of its fragments have
arrived, and never one group for two messages (`groups_exact`). A late fragment of a message that is
complete therefore does not open a group again, although a group leaves nothing behind when it is
closed and the 16-bit identifiers are used again and again: the reliable window lets every fragment
in once, and spans fewer messages than there are identifiers. -/

namespace RustRaknet.Link

open RustRaknet.Send RustRaknet.Frame RustRaknet.Recv RustRaknet.Lib.Serial
open RustRaknet.Reassembly (Fragment)

/-- The fragment `i` of the message `k` has arrived. -/
def Peers.Arrived (l : Peers) (k i : ℕ) : Prop :=
  ∃ f ∈ l.arrived, f.message = k ∧ f.frame.fragmentIndex = i

instance (l : Peers) (k i : ℕ) : Decidable (l.Arrived k i) := by
  unfold Peers.Arrived; infer_instance

/-- The fragments of the message `k` that have arrived. -/
def Peers.arrivedParts (l : Peers) (limit k : ℕ) (m : Message) : Finset ℕ :=
  (Finset.range (m.count limit)).filter fun i => l.Arrived k i

/-- The group `g` under `id` is that of the message `k`: it has its identifier, its channel, its
ordered index and its number of fragments, and holds the fragments that have arrived. -/
structure Peers.GroupOf (l : Peers) (limit k : ℕ) (m : Message) (id : ℕ) (g : Fragment) : Prop where
  message : l.log[k]? = some m
  fragmented : m.Fragmented limit
  identifier : (compoundOf limit l.log k m).id = id
  lookup : l.receiver.fragmentQueue.fragments.lookup id = some g
  group : (compoundOf limit l.log k m).Group (l.arrivedParts limit k m) g

section residue

variable {B : Build} {mtu : Fin 65536} {l : Peers} {k k' : ℕ} {m m' : Message}

theorem Linked.parts_eq (h : Linked B mtu l) (hk : l.log[k]? = some m)
    (hf : m.Fragmented ((mtu : ℕ) - 60)) :
    parts ((mtu : ℕ) - 60) l.log (l.taken ((mtu : ℕ) - 60)) k m =
      l.arrivedParts ((mtu : ℕ) - 60) k m := by
  have hr : m.reliability.isReliable = true := by rw [hf.1]; rfl
  unfold parts Peers.arrivedParts
  refine Finset.filter_congr fun i hi => ?_
  exact h.mem_taken hk hr (Finset.mem_range.mp hi)

theorem Linked.open_iff (h : Linked B mtu l) (hk : l.log[k]? = some m)
    (hf : m.Fragmented ((mtu : ℕ) - 60)) :
    Open ((mtu : ℕ) - 60) l.log (l.taken ((mtu : ℕ) - 60)) k m ↔
      (∃ i < m.count ((mtu : ℕ) - 60), l.Arrived k i) ∧
        ∃ i < m.count ((mtu : ℕ) - 60), ¬ l.Arrived k i := by
  have hr : m.reliability.isReliable = true := by rw [hf.1]; rfl
  constructor
  · rintro ⟨-, -, ⟨i, hi⟩, hmissing⟩
    obtain ⟨hlt, hi⟩ := mem_parts.mp hi
    obtain ⟨j, hj, hnot, -⟩ := exists_missing hmissing
    exact ⟨⟨i, hlt, (h.mem_taken hk hr hlt).mp hi⟩, j, hj, fun hj' =>
      hnot ((h.mem_taken hk hr hj).mpr hj')⟩
  · rintro ⟨⟨i, hi, harrived⟩, j, hj, hnot⟩
    exact ⟨hk, hf, ⟨i, mem_parts.mpr ⟨hi, (h.mem_taken hk hr hi).mpr harrived⟩⟩, fun hall =>
      hnot ((h.mem_taken hk hr hj).mp (hall j hj))⟩

theorem Linked.open_of_group (h : Linked B mtu l) (hok : l.failed = false) {id : ℕ} {g : Fragment}
    (hg : l.GroupOf ((mtu : ℕ) - 60) k m id g) :
    Open ((mtu : ℕ) - 60) l.log (l.taken ((mtu : ℕ) - 60)) k m := by
  have hreceives := h.receives hok
  have hgroup := hg.group
  rw [← h.parts_eq hg.message hg.fragmented] at hgroup
  -- a group in the queue holds a fragment and is not full
  obtain ⟨k', m', hopen, -, hgroup'⟩ := hreceives.holds.groups.group id g hg.lookup
  obtain ⟨i, hi⟩ := hopen.some
  have hne : (parts ((mtu : ℕ) - 60) l.log (l.taken ((mtu : ℕ) - 60)) k m).Nonempty :=
    ⟨i, (hgroup.mem i).mpr ((hgroup'.mem i).mp hi)⟩
  refine ⟨hg.message, hg.fragmented, hne, fun hcomplete => ?_⟩
  have hfull := (hgroup.full_iff hne).mpr (complete_iff_parts.mp hcomplete)
  have hnot := (hreceives.limits.fragments.group id g hg.lookup).2
  exact absurd (hfull.symm.trans hnot) (by simp)

theorem Linked.open_unique (h : Linked B mtu l) (hok : l.failed = false)
    (hopen : Open ((mtu : ℕ) - 60) l.log (l.taken ((mtu : ℕ) - 60)) k m)
    (hopen' : Open ((mtu : ℕ) - 60) l.log (l.taken ((mtu : ℕ) - 60)) k' m')
    (hid : (compoundOf ((mtu : ℕ) - 60) l.log k' m').id =
      (compoundOf ((mtu : ℕ) - 60) l.log k m).id) : k' = k := by
  have hnear := (h.receives hok).window.near
  have hpos := (h.admissible m (List.mem_of_getElem? hopen.message)).pos
  obtain ⟨i, hi⟩ := hopen.some
  obtain ⟨j, hj⟩ := hopen'.some
  exact compound_inj hpos hopen'.message hopen'.fragmented hopen.message hopen.fragmented
    (hnear _ (mem_parts.mp hj).2) (hnear _ (mem_parts.mp hi).2) hopen'.missing hopen.missing hid

end residue

/-- **No reassembly residue.** In every run in which no insertion has failed, no acknowledgement is
made up and no frame is received half a turn behind, the receiver has a group for a message exactly
when some but not all of its fragments have arrived, and every group is that of one message. -/
theorem groups_exact (B : Build) (mtu : Fin 65536) (actions : List Action)
    (hcurrent : CurrentRun B mtu actions) (hok : (runPeers B mtu actions).failed = false) :
    (∀ k m, (runPeers B mtu actions).log[k]? = some m →
      ((∃ id g, (runPeers B mtu actions).GroupOf ((mtu : ℕ) - 60) k m id g) ↔
        (∃ i < m.count ((mtu : ℕ) - 60), (runPeers B mtu actions).Arrived k i) ∧
          ∃ i < m.count ((mtu : ℕ) - 60), ¬ (runPeers B mtu actions).Arrived k i)) ∧
    ∀ id g, (runPeers B mtu actions).receiver.fragmentQueue.fragments.lookup id = some g →
      ∃ k m, (runPeers B mtu actions).GroupOf ((mtu : ℕ) - 60) k m id g ∧
        ∀ k' m' g', (runPeers B mtu actions).GroupOf ((mtu : ℕ) - 60) k' m' id g' → k' = k := by
  have h := linked_run B mtu actions (timely_of_current B mtu actions hcurrent hok)
  generalize runPeers B mtu actions = l at *
  have hgroups := (h.receives hok).holds.groups
  have hgroup : ∀ id g, l.receiver.fragmentQueue.fragments.lookup id = some g →
      ∃ k m, l.GroupOf ((mtu : ℕ) - 60) k m id g := by
    intro id g hg
    obtain ⟨k, m, hopen, hid, hgroup⟩ := hgroups.group id g hg
    rw [h.parts_eq hopen.message hopen.fragmented] at hgroup
    exact ⟨k, m, hopen.message, hopen.fragmented, hid, hg, hgroup⟩
  refine ⟨fun k m hk => ⟨?_, fun harrived => ?_⟩, fun id g hg => ?_⟩
  · rintro ⟨id, g, hg⟩
    exact (h.open_iff hk hg.fragmented).mp (h.open_of_group hok hg)
  · have hf : m.Fragmented ((mtu : ℕ) - 60) := by
      by_contra hf
      obtain ⟨⟨i, hi, hyes⟩, j, hj, hno⟩ := harrived
      rw [count_single hf] at hi hj
      exact hno ((show i = j by omega) ▸ hyes)
    have hopen := (h.open_iff hk hf).mpr harrived
    obtain ⟨g, hg⟩ := hgroups.opened k m hopen
    obtain ⟨k', m', hg'⟩ := hgroup _ g hg
    obtain rfl := h.open_unique hok hopen (h.open_of_group hok hg') hg'.identifier
    obtain rfl := Option.some.inj (hg'.message.symm.trans hk)
    exact ⟨_, g, hg'⟩
  · obtain ⟨k, m, hg'⟩ := hgroup id g hg
    refine ⟨k, m, hg', fun k' m' g' hg'' => ?_⟩
    exact h.open_unique hok (h.open_of_group hok hg') (h.open_of_group hok hg'')
      (hg''.identifier.trans hg'.identifier.symm)

/-- A message in two fragments of which the first arrives, is acknowledged, and arrives again. -/
def halved : List Action :=
  [.send (.insert ⟨.reliableOrdered, primaryChannel, 0xfe :: List.replicate 1400 2, false⟩),
    .send (.flush 0), .arrive 0, .receive, .takeAck, .feedback 0 10, .arrive 0, .receive]

/-- The message has a group. -/
theorem groups_exact_halved :
    ∃ id g, (runPeers (.insertion false false) 1400 halved).GroupOf 1340 0
      ⟨.reliableOrdered, primaryChannel, 0xfe :: List.replicate 1400 2, false⟩ id g :=
  ((groups_exact (.insertion false false) 1400 halved
    (current_of_few _ _ _ (by decide +kernel) (by decide +kernel)) (by decide +kernel)).1 0 _
      (by decide +kernel)).mpr ⟨⟨0, by decide +kernel⟩, 1, by decide +kernel⟩

end RustRaknet.Link
