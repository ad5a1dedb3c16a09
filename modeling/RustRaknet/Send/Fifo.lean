import RustRaknet.Send.Budget
import RustRaknet.Send.FlushBudget

/-! # The order of the original loop

`arq.rs`: the loop of `flush` over the queue. With a full window it turns reliable frames to the
back of the queue to reach the unreliable ones, and it stops as soon as none of those is left, also
half way round. Then the reliable frames that it turned stand behind those that it did not reach:
a later frame is sent before an earlier one (`reliable_overtaken`), and the earlier one can wait for
ever. The order is kept exactly when reliable frames that do not fit the window do not stand on both
sides of the last unreliable frame (`reliable_fifo`). -/

namespace RustRaknet.Send

open RustRaknet.Frame Ledger

/-- The last unreliable frame stands between reliable ones, and those before it are more than a
window with `flight` frames has room for. -/
structure Straddles (packets : List QueuedFrame) (flight : ℕ) (before : List QueuedFrame)
    (last : QueuedFrame) (after : List QueuedFrame) : Prop where
  split : packets = before ++ last :: after
  unreliable : last.isReliable = false
  more : after ≠ []
  reliable : ∀ f ∈ after, f.isReliable = true
  count : maxInFlightPackets - flight < before.countP QueuedFrame.isReliable

/-- Reliable frames stand on both sides of the last unreliable one, and do not fit the window. -/
def Straddled (packets : List QueuedFrame) (flight : ℕ) : Prop :=
  ∃ before last after, Straddles packets flight before last after

/-- The reliable frames of a list, as they were inserted. -/
def reliables (l : List QueuedFrame) : List QueuedFrame :=
  (l.filter QueuedFrame.isReliable).map QueuedFrame.body

section reliables

variable {l l' : List QueuedFrame} {f : QueuedFrame}

theorem reliables_append : reliables (l ++ l') = reliables l ++ reliables l' := by
  simp [reliables]

theorem reliables_cons : reliables (f :: l) = reliables [f] ++ reliables l :=
  reliables_append (l := [f])

theorem reliables_of_reliable (h : f.isReliable = true) : reliables [f] = [f.body] := by
  simp [reliables, h]

theorem reliables_of_unreliable (h : f.isReliable = false) : reliables [f] = [] := by
  simp [reliables, h]

theorem length_reliables (l : List QueuedFrame) :
    (reliables l).length = l.countP QueuedFrame.isReliable := by
  rw [reliables, List.length_map, List.countP_eq_length_filter]

end reliables

/-! ### The turning queue -/

/-- The loop over a queue of `packets` that finds `flight` frames in flight: it has `seen` the first
of them and not yet the frames `todo`; of those seen it has sent the frames `fresh` and turned the
frames `back`. -/
structure Turning (packets : List QueuedFrame) (flight : ℕ) (resent seen todo back fresh :
    List QueuedFrame) (s : Burst) : Prop where
  split : packets = seen ++ todo
  queue : s.queue.packets = todo ++ back
  output : s.output.frames = resent ++ fresh
  order : reliables fresh ++ reliables back = reliables seen
  turned : ∀ f ∈ back, f.isReliable = true
  length : s.queue.sentPacket.length = flight + (reliables fresh).length
  counted : s.queue.queuedUnreliable = s.queue.packets.countP fun f => !f.isReliable
  full : back ≠ [] → maxInFlightPackets ≤ s.queue.sentPacket.length
  room : (reliables fresh).length ≤ maxInFlightPackets - flight
  /-- With a full window the loop stops behind the last unreliable frame. -/
  short : ∀ {before last after}, Straddles packets flight before last after →
    seen.length ≤ before.length + 1
  /-- When frames were turned there are unreliable frames to come, or the last of them has just been
  sent and stood behind one more reliable frame than the window had room for. -/
  behind : back ≠ [] → (∃ f ∈ todo, f.isReliable = false) ∨
    ∃ before last, seen = before ++ [last] ∧ last.isReliable = false ∧
      maxInFlightPackets - flight < before.countP QueuedFrame.isReliable

section turning

variable {packets resent seen todo back fresh : List QueuedFrame} {flight : ℕ} {s s' : Burst}
  {tick : ℤ}

theorem assign_frame (s : Burst) (packable : Bool) (f : QueuedFrame) :
    (∃ sequence datagram, (s.assign packable f).1 = f.numbered sequence datagram) ∧
      (s.assign packable f).2.queue.queuedUnreliable = s.queue.queuedUnreliable := by
  unfold Burst.assign
  split
  · split_ifs
    · exact ⟨⟨_, _, rfl⟩, rfl⟩
    · exact ⟨⟨_, _, rfl⟩, rfl⟩
  · exact ⟨⟨_, _, rfl⟩, rfl⟩

theorem number_frame (s : Burst) (f : QueuedFrame) (rest : List QueuedFrame) :
    (∃ sequence datagram, (s.number f rest).1 = f.numbered sequence datagram) ∧
      (s.number f rest).2.queue.queuedUnreliable = s.queue.queuedUnreliable := by
  unfold Burst.number
  split_ifs
  · exact assign_frame (s.pop rest) f.packable f
  · exact ⟨⟨_, _, rfl⟩, rfl⟩

theorem reliables_numbered (f : QueuedFrame) (sequence datagram : ℕ) :
    reliables [f.numbered sequence datagram] = reliables [f] := by
  cases hf : f.isReliable with
  | true =>
    exact (reliables_of_reliable (f := f.numbered sequence datagram) hf).trans
      (reliables_of_reliable hf).symm
  | false =>
    exact (reliables_of_unreliable (f := f.numbered sequence datagram) hf).trans
      (reliables_of_unreliable hf).symm

/-- Behind the last unreliable frame there are frames to turn back to, and the window is full. -/
theorem Turning.last_seen (h : Turning packets flight resent seen todo back fresh s)
    {before after : List QueuedFrame} {last : QueuedFrame}
    (hlast : Straddles packets flight before last after)
    (hseen : before.length + 1 ≤ seen.length) : todo = after ∧ back ≠ [] := by
  have hsplit : before ++ [last] ++ after = seen ++ todo := by
    rw [← h.split, hlast.split]
    simp
  obtain ⟨hbefore, hafter⟩ := List.append_inj hsplit (by
    have := h.short hlast
    simp only [List.length_append, List.length_singleton]
    omega)
  refine ⟨hafter.symm, fun hback => ?_⟩
  have horder := congrArg List.length h.order
  have hcount := hlast.count
  have hroom := h.room
  rw [hback, ← hbefore, reliables_append, reliables_of_unreliable hlast.unreliable, List.append_nil,
    length_reliables before] at horder
  simp only [reliables, List.filter_nil, List.map_nil, List.append_nil] at horder hroom
  omega

/-- **One turn** sees the next frame: it is sent or turned. -/
theorem Turning.turn (h : Turning packets flight resent seen todo back fresh s)
    (hturn : Turn tick s s') (hmore : todo ≠ []) :
    ∃ f todo' back' fresh', todo = f :: todo' ∧
      Turning packets flight resent (seen ++ [f]) todo' back' fresh' s' := by
  obtain ⟨f, todo, rfl⟩ := List.exists_cons_of_ne_nil hmore
  have hsplit : packets = seen ++ [f] ++ todo := by rw [h.split]; simp
  have hhead : ∀ {g rest}, s.queue.packets = g :: rest → f = g ∧ todo ++ back = rest :=
    fun hg => List.cons.inj (h.queue.symm.trans hg)
  have hshort : ∀ {before last after}, Straddles packets flight before last after →
      (seen ++ [f]).length ≤ before.length + 1 := by
    intro before last after hlast
    by_contra hlong
    rw [List.length_append, List.length_singleton] at hlong
    obtain ⟨rfl, hback⟩ := h.last_seen hlast (by omega)
    have hall : ∀ g ∈ s.queue.packets, g.isReliable = true := by
      rw [h.queue]
      exact fun g hg => (List.mem_append.mp hg).elim (hlast.reliable g) (h.turned g)
    cases hturn with
    | rotate hpackets hfull hreliable hwaiting =>
      rw [h.counted, ← Nat.pos_iff_ne_zero, List.countP_pos_iff] at hwaiting
      obtain ⟨g, hg, hunreliable⟩ := hwaiting
      simp [hall g hg] at hunreliable
    | launch hpackets hreliable hroom => exact absurd (h.full hback) (not_le.mpr hroom)
    | emit hpackets hunreliable =>
      rw [hall _ (hpackets ▸ List.mem_cons_self)] at hunreliable
      cases hunreliable
  cases hturn with
  | rotate hpackets hfull hreliable hwaiting =>
    obtain ⟨rfl, rfl⟩ := hhead hpackets
    refine ⟨f, todo, back ++ [f], fresh, rfl, hsplit, (List.append_assoc _ _ _), h.output, ?_, ?_,
      h.length, ?_, fun _ => hfull, h.room, hshort, fun _ => .inl ?_⟩
    · rw [reliables_append, reliables_append, ← h.order, List.append_assoc]
    · intro g hg
      obtain hg | rfl := Lib.mem_snoc.mp hg
      · exact h.turned g hg
      · exact hreliable
    · show s.queue.queuedUnreliable = List.countP _ (todo ++ back ++ [f])
      rw [h.counted, hpackets]
      simp [hreliable]
    · -- an unreliable frame is in the queue, and it is neither this one nor a turned one
      rw [h.counted, ← Nat.pos_iff_ne_zero, List.countP_pos_iff, hpackets] at hwaiting
      obtain ⟨g, hg, hunreliable⟩ := hwaiting
      have hunreliable : g.isReliable = false := by simpa using hunreliable
      rcases List.mem_cons.mp hg with rfl | hg
      · exact absurd (hunreliable.symm.trans hreliable) Bool.false_ne_true
      · rcases List.mem_append.mp hg with hg | hg
        · exact ⟨g, hg, hunreliable⟩
        · exact absurd (hunreliable.symm.trans (h.turned g hg)) Bool.false_ne_true
  | launch hpackets hreliable hroom =>
    obtain ⟨rfl, rfl⟩ := hhead hpackets
    have hnumber := number_numbering s f (todo ++ back)
    obtain ⟨⟨sequence, datagram, hframe⟩, hqueued⟩ := number_frame s f (todo ++ back)
    have hback : back = [] := by
      by_contra hback
      exact absurd (h.full hback) (not_le.mpr hroom)
    have hnew : reliables (fresh ++ [(s.number f (todo ++ back)).1]) =
        reliables fresh ++ [f.body] := by
      rw [reliables_append, hframe, reliables_numbered, reliables_of_reliable hreliable]
    subst hback
    refine ⟨f, todo, [], fresh ++ [(s.number f (todo ++ [])).1], rfl, hsplit, hnumber.packets,
      ?_, ?_, by simp, ?_, ?_, fun hb => absurd rfl hb, ?_, hshort, fun hb => absurd rfl hb⟩
    · show _ ++ [_] = _
      rw [hnumber.output, h.output, List.append_assoc]
    · rw [hnew, reliables_append, reliables_of_reliable hreliable, ← h.order]
      simp [reliables]
    · show (_ ++ [_]).length = _
      rw [hnew, hnumber.flight, List.length_append, List.length_append, h.length]
      simp only [List.length_singleton]
      omega
    · show (s.number f (todo ++ [])).2.queue.queuedUnreliable =
        List.countP _ (s.number f (todo ++ [])).2.queue.packets
      rw [hqueued, h.counted, hpackets, hnumber.packets]
      simp [hreliable]
    · rw [hnew, List.length_append, List.length_singleton]
      have := h.length
      omega
  | emit hpackets hunreliable =>
    obtain ⟨rfl, rfl⟩ := hhead hpackets
    have hnumber := number_numbering s f (todo ++ back)
    obtain ⟨⟨sequence, datagram, hframe⟩, hqueued⟩ := number_frame s f (todo ++ back)
    have hnew : reliables (fresh ++ [(s.number f (todo ++ back)).1]) = reliables fresh := by
      rw [reliables_append, hframe, reliables_numbered, reliables_of_unreliable hunreliable,
        List.append_nil]
    have hseen : reliables (seen ++ [f]) = reliables seen := by
      rw [reliables_append, reliables_of_unreliable hunreliable, List.append_nil]
    have hflight : ((s.number f (todo ++ back)).2.emit
        (s.number f (todo ++ back)).1).queue.sentPacket = s.queue.sentPacket := hnumber.flight
    refine ⟨f, todo, back, fresh ++ [(s.number f (todo ++ back)).1], rfl, hsplit, hnumber.packets,
      ?_, ?_, h.turned, ?_, ?_, fun hb => ?_, hnew ▸ h.room, hshort, fun hb => ?_⟩
    · show _ ++ [_] = _
      rw [hnumber.output, h.output, List.append_assoc]
    · rw [hnew, hseen, h.order]
    · rw [hflight, hnew, h.length]
    · show (s.number f (todo ++ back)).2.queue.queuedUnreliable - 1 =
        List.countP _ (s.number f (todo ++ back)).2.queue.packets
      rw [hqueued, h.counted, hpackets, hnumber.packets]
      simp [hunreliable]
    · rw [hflight]
      exact h.full hb
    · by_cases hlater : ∃ g ∈ todo, g.isReliable = false
      · exact .inl hlater
      · -- this was the last one: all that was sent or turned stood before it
        refine .inr ⟨seen, f, rfl, hunreliable, ?_⟩
        have hfull := h.full hb
        have hback : 0 < (reliables back).length := by
          obtain ⟨g, back, rfl⟩ := List.exists_cons_of_ne_nil hb
          rw [reliables_cons, reliables_of_reliable (h.turned g List.mem_cons_self)]
          simp
        rw [h.length] at hfull
        rw [← length_reliables, ← h.order, List.length_append]
        omega

theorem sendOne_none (h : s.sendOne tick = none) :
    s.queue.queuedUnreliable = 0 ∨ s.queue.packets = [] := by
  by_cases hstop : maxInFlightPackets ≤ s.queue.sentPacket.length ∧ s.queue.queuedUnreliable = 0
  · exact .inl hstop.2
  · unfold Burst.sendOne at h
    rw [if_neg hstop] at h
    cases hpackets : s.queue.packets with
    | nil => exact .inr rfl
    | cons f rest =>
      rw [hpackets] at h
      simp only at h
      split_ifs at h

/-- When the loop stops half way, frames were turned exactly if the queue was straddled. -/
theorem Turning.stop (h : Turning packets flight resent seen todo back fresh s)
    (hnone : s.queue.queuedUnreliable = 0) (hmore : todo ≠ []) :
    (∀ f ∈ todo, f.isReliable = true) ∧ (Straddled packets flight ↔ back ≠ []) := by
  have hreliable : ∀ f ∈ todo, f.isReliable = true := by
    intro f hf
    rw [h.counted, List.countP_eq_zero] at hnone
    simpa using hnone f (by rw [h.queue]; exact List.mem_append_left _ hf)
  refine ⟨hreliable, ?_, fun hback => ?_⟩
  · rintro ⟨before, last, after, hat⟩
    refine (h.last_seen hat ?_).2
    by_contra hlong
    -- the last unreliable frame would be among those to come
    have hget : packets[before.length]? = some last := by simp [hat.split]
    rw [h.split, List.getElem?_append_right (by omega)] at hget
    have hmem := hreliable last (List.mem_of_getElem? hget)
    rw [hat.unreliable] at hmem
    cases hmem
  · rcases h.behind hback with ⟨f, hf, hunreliable⟩ | ⟨before, last, hseen, hlast, hcount⟩
    · exact absurd (hunreliable.symm.trans (hreliable f hf)) Bool.false_ne_true
    · exact ⟨before, last, todo, by rw [h.split, hseen]; simp, hlast, hmore, hreliable, hcount⟩

/-- **The loop** sends some of the reliable frames, and leaves the others, with some of them turned
behind the `rest` if the queue was straddled. -/
theorem Turning.sendLoop : ∀ {n : ℕ} {s : Burst} {seen todo back fresh : List QueuedFrame},
    n = todo.length → Turning packets flight resent seen todo back fresh s →
      ∃ fresh' turned rest, (Burst.sendLoop tick n s).output.frames = resent ++ fresh' ∧
        reliables packets = reliables fresh' ++ (turned ++ rest) ∧
        reliables (Burst.sendLoop tick n s).queue.packets = rest ++ turned ∧
        (Straddled packets flight ↔ turned ≠ [] ∧ rest ≠ []) := by
  intro n
  induction n with
  | zero =>
    intro s seen todo back fresh hn h
    obtain rfl := List.length_eq_zero_iff.mp hn.symm
    refine ⟨fresh, reliables back, [], h.output, ?_, ?_, ?_⟩
    · rw [h.split, List.append_nil, List.append_nil, h.order]
    · show reliables s.queue.packets = _
      rw [h.queue]
      rfl
    · refine ⟨?_, fun hrest => absurd rfl hrest.2⟩
      rintro ⟨before, last, after, hat⟩
      have hshort := h.short hat
      have hlength := congrArg List.length (h.split.symm.trans hat.split)
      have hpos := List.length_pos_of_ne_nil hat.more
      simp only [List.append_nil, List.length_append, List.length_cons] at hlength
      omega
  | succ n ih =>
    intro s seen todo back fresh hn h
    have hmore : todo ≠ [] := by
      rintro rfl
      cases hn
    unfold Burst.sendLoop
    cases hone : s.sendOne tick with
    | some s' =>
      obtain ⟨f, todo', back', fresh', rfl, h'⟩ := h.turn (sendOne_turn hone) hmore
      exact ih (by simpa using hn) h'
    | none =>
      rcases sendOne_none hone with hnone | hempty
      · have hnil : ∀ {l : List QueuedFrame}, (∀ f ∈ l, f.isReliable = true) →
            (l ≠ [] ↔ reliables l ≠ []) := by
          intro l hl
          rw [reliables, List.filter_eq_self.mpr hl, ne_eq, ne_eq, List.map_eq_nil_iff]
        obtain ⟨hreliable, hstraddled⟩ := h.stop hnone hmore
        refine ⟨fresh, reliables back, reliables todo, h.output, ?_, ?_, ?_⟩
        · rw [h.split, reliables_append, ← h.order, List.append_assoc]
        · simp only [h.queue, reliables_append]
        · rw [hstraddled, hnil h.turned]
          exact ⟨fun hb => ⟨hb, (hnil hreliable).mp hmore⟩, And.left⟩
      · rw [h.queue] at hempty
        exact absurd (List.append_eq_nil_iff.mp hempty).1 hmore

end turning

/-! ### The flush -/

theorem turning_start {q : SendQ} {s : Burst} (hsettled : s.queue.settled = q.settled)
    (hlength : s.queue.sentPacket.length = q.sentPacket.length)
    (hcounted : q.queuedUnreliable = q.packets.countP fun f => !f.isReliable) :
    Turning q.packets q.sentPacket.length s.output.frames [] q.packets [] [] s := by
  have hpackets : s.queue.packets = q.packets :=
    (congrArg SendQ.packets hsettled :)
  have hqueued : s.queue.queuedUnreliable = q.queuedUnreliable :=
    (congrArg SendQ.queuedUnreliable hsettled :)
  refine ⟨rfl, by simp [hpackets], by simp, rfl, by simp, by simpa [reliables] using hlength, ?_,
    fun hb => absurd rfl hb, Nat.zero_le _, fun _ => Nat.zero_le _, fun hb => absurd rfl hb⟩
  rw [hqueued, hcounted, hpackets]

/-- What a flush on the original path does to the order. -/
theorem flushLegacy_fifo {B : Build} {tick : ℤ} {q : SendQ}
    (hcounted : q.queuedUnreliable = q.packets.countP fun f => !f.isReliable) :
    ∃ resent fresh turned rest, (q.flushLegacy B tick).1.frames = resent ++ fresh ∧
      (∀ f ∈ resent, f.body ∈ q.bodies) ∧
      reliables q.packets = reliables fresh ++ (turned ++ rest) ∧
      reliables (q.flushLegacy B tick).2.packets = rest ++ turned ∧
      (Straddled q.packets q.sentPacket.length ↔ turned ≠ [] ∧ rest ≠ []) := by
  have hbegin : ((q.tick B tick).sortFlight B).bodies.Perm q.bodies := tick_sort_bodies q
  have hsettled : ((q.tick B tick).sortFlight B).settled = q.settled := tick_sort_settled q
  unfold SendQ.flushLegacy
  simp only
  generalize (q.tick B tick).sortFlight B = q' at hbegin hsettled
  obtain ⟨hsettled', hbodies, hresent⟩ := resendAll_keeps q'
  have hlength : (q'.resendAll tick).queue.sentPacket.length = q.sentPacket.length := by
    rw [← length_bodies, hbodies, hbegin.length_eq, length_bodies]
  have hstart := turning_start (hsettled'.trans hsettled) hlength hcounted
  have hpackets : (q'.resendAll tick).queue.packets = q.packets :=
    (congrArg SendQ.packets (hsettled'.trans hsettled) :)
  obtain ⟨fresh, turned, rest, hframes, hrest⟩ :=
    Turning.sendLoop (congrArg List.length hpackets) hstart
  exact ⟨_, fresh, turned, rest, hframes, fun f hf => hbegin.mem_iff.mp (hresent f hf), hrest⟩

theorem append_comm_iff {α : Type*} {l l' : List α} (h : (l ++ l').Nodup) :
    l' ++ l = l ++ l' ↔ ¬ (l ≠ [] ∧ l' ≠ []) := by
  constructor
  · rintro he ⟨hl, hl'⟩
    obtain ⟨a, l, rfl⟩ := List.exists_cons_of_ne_nil hl
    obtain ⟨b, l', rfl⟩ := List.exists_cons_of_ne_nil hl'
    obtain ⟨rfl, -⟩ := List.cons.inj he
    exact (List.nodup_append.mp h).2.2 _ List.mem_cons_self _ List.mem_cons_self rfl
  · intro hnil
    rcases eq_or_ne l [] with rfl | hl
    · simp
    · obtain rfl : l' = [] := by
        by_contra hl'
        exact hnil ⟨hl, hl'⟩
      simp

theorem packets_distinct (B : Build) (mtu : Fin 65536) (ops : List Op) :
    let q := (run B mtu ops).queue
    (reliables q.packets).Nodup ∧ ∀ f ∈ q.packets, f.body ∉ q.bodies := by
  intro q
  obtain ⟨-, hconserved, -⟩ := conserved_run B mtu ops
  have hnodup : ((run B mtu ops).ledger.held).Nodup := by
    have haccepted := accepted_nodup (run B mtu ops).ledger.limit (run B mtu ops).ledger.log
    rw [← Multiset.coe_nodup, ← hconserved] at haccepted
    exact (Multiset.nodup_add.mp haccepted).1
  obtain ⟨hpackets, -, hdisjoint⟩ := Multiset.nodup_add.mp (Multiset.nodup_add.mp hnodup).1
  refine ⟨(Multiset.coe_nodup.mp hpackets).sublist (List.filter_sublist.map _), fun f hf hbody => ?_⟩
  refine Multiset.disjoint_left.mp hdisjoint (mem_bodies.mpr ⟨f, hf, rfl⟩) (mem_bodies.mpr ?_)
  obtain ⟨p, hp, he⟩ := List.mem_map.mp hbody
  exact ⟨p.packet, List.mem_map.mpr ⟨p.timeless, List.mem_map_of_mem hp, rfl⟩, he⟩

theorem reliables_filter {p : QueuedFrame → Bool} {l : List QueuedFrame}
    (h : ∀ f ∈ l, f.isReliable = true → p f = true) : reliables (l.filter p) = reliables l := by
  unfold reliables
  rw [List.filter_filter]
  congr 1
  refine List.filter_congr fun f hf => ?_
  cases hreliable : f.isReliable with
  | true => simp [h f hf hreliable]
  | false => simp

/-- **The original loop keeps the order of the reliable frames** exactly if the queue is not
straddled: then the reliable frames sent for the first time, followed by those that still wait, are
those that waited before. -/
theorem reliable_fifo (B : Build) (mtu : Fin 65536) (ops : List Op) (tick : ℤ)
    (hpath : (run B mtu ops).queue.scheduler.all
      (fun s => s.useLegacy && s.unreliable.isEmpty) = true) :
    let q := (run B mtu ops).queue
    let result := q.flush B tick
    reliables (result.1.frames.filter fun f => decide (f.body ∉ q.bodies)) ++
      reliables result.2.packets = reliables q.packets ↔
        ¬ Straddled q.packets q.sentPacket.length := by
  intro q result
  have hcounted : q.queuedUnreliable = q.packets.countP fun f => !f.isReliable :=
    (balanced_run B mtu ops).counted.queued
  obtain ⟨hnodup, hwaits⟩ := packets_distinct B mtu ops
  obtain ⟨nextRetry, recovery, hentered⟩ := entered_eq B q tick
  have hresult : result = (q.entered B tick).flushLegacy B tick := flush_legacy hpath
  obtain ⟨resent, fresh, turned, rest, hframes, hresent, hbefore, hafter, hstraddled⟩ :=
    flushLegacy_fifo (B := B) (q := q.entered B tick) (by rw [hentered]; exact hcounted)
  rw [← hresult] at hframes hafter
  rw [hentered] at hbefore hstraddled hresent
  have hold : resent.filter (fun f => decide (f.body ∉ q.bodies)) = [] :=
    List.filter_eq_nil_iff.mpr fun f hf => by
      have hmem : f.body ∈ q.bodies := hresent f hf
      simp [hmem]
  have hnew : reliables (fresh.filter fun f => decide (f.body ∉ q.bodies)) = reliables fresh := by
    refine reliables_filter fun f hf hreliable => decide_eq_true ?_
    have hwaited : f.body ∈ reliables q.packets := by
      rw [hbefore]
      exact List.mem_append_left _ (List.mem_map_of_mem (List.mem_filter.mpr ⟨hf, hreliable⟩))
    obtain ⟨g, hg, hbody⟩ := List.mem_map.mp hwaited
    rw [← hbody]
    exact hwaits g (List.mem_of_mem_filter hg)
  have hrest : (turned ++ rest).Nodup := by
    rw [hbefore] at hnodup
    exact (List.nodup_append.mp hnodup).2.1
  rw [hframes, List.filter_append, hold, List.nil_append, hnew, hafter, hbefore,
    List.append_cancel_left_eq, append_comm_iff hrest, hstraddled]

/-- A queue with room for all its frames. -/
def mixedOps : List Op :=
  [.insert ⟨.reliable, primaryChannel, [0xfe, 1], false⟩,
    .insert ⟨.unreliable, primaryChannel, [0xfe, 2], false⟩,
    .insert ⟨.reliable, primaryChannel, [0xfe, 3], false⟩]

theorem reliable_fifo_mixed :
    let q := (run (Build.insertion false false) 1400 mixedOps).queue
    let result := q.flush (Build.insertion false false) 7
    reliables (result.1.frames.filter fun f => decide (f.body ∉ q.bodies)) ++
      reliables result.2.packets = reliables q.packets :=
  (reliable_fifo (Build.insertion false false) 1400 mixedOps 7 (by decide +kernel)).mpr (by
    rintro ⟨before, last, after, hpackets, -, -, -, hcount⟩
    have hlength : before.length < 3 := by
      have hthree : (run (Build.insertion false false) 1400 mixedOps).queue.packets.length = 3 := by
        decide +kernel
      rw [hpackets, List.length_append, List.length_cons] at hthree
      omega
    have hflight : (run (Build.insertion false false) 1400 mixedOps).queue.sentPacket.length = 0 := by
      decide +kernel
    have hle := List.countP_le_length (p := QueuedFrame.isReliable) (l := before)
    rw [hflight, maxInFlightPackets] at hcount
    omega)

/-- A full window, and then a reliable frame, an unreliable one and another reliable one. -/
def overtakenOps : List Op :=
  List.replicate 64 (.insert ⟨.reliable, primaryChannel, [0xfe], false⟩) ++
    [.flush 0, .insert ⟨.reliable, primaryChannel, [0xfe, 1], false⟩,
      .insert ⟨.unreliable, primaryChannel, [0xfe, 2], false⟩,
      .insert ⟨.reliable, primaryChannel, [0xfe, 3], false⟩]

/-- The second of two reliable frames that wait is put before the first: the flush of the unreliable
frame between them turns the first to the back and stops. -/
theorem reliable_overtaken :
    let q := (run (Build.insertion false false) 1400 overtakenOps).queue
    (reliables q.packets).map (fun f => f.frame.reliableFrameIndex) = [64, 65] ∧
      (reliables (q.flush (Build.insertion false false) 1).2.packets).map
        (fun f => f.frame.reliableFrameIndex) = [65, 64] := by
  decide +kernel

end RustRaknet.Send
