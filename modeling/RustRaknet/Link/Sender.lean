import RustRaknet.Codec
import RustRaknet.Link.Carry
import RustRaknet.Socket.Transmit

/-! # What the sender puts on the wire

Every frame of a burst is a frame of the log, and the messages of the log are admissible. So the
datagrams of a burst, encoded, decode to the frames they were made of. -/

namespace RustRaknet.Link

open RustRaknet.Send RustRaknet.Frame RustRaknet.Codec RustRaknet.Send.Ledger
open RustRaknet.Socket RustRaknet.Lib.Runs

/-! ### The frames of a burst -/

/-- The frames of the burst are frames of the log. -/
def Sent (L : Ledger) : Prop := ∀ f ∈ L.outbox, f.body ∈ accepted L.limit L.log

/-- The messages of the log fit. -/
def Fitting (L : Ledger) : Prop := L.limit < 65536 → ∀ m ∈ L.log, Admissible L.limit m

theorem Fitting.step {L L' : Ledger} (hstep : Step L L') (hlanes : L.Lanes) (h : Fitting L) :
    Fitting L' := by
  unfold Fitting at *
  rw [hstep.limit_eq]
  intro hlimit
  cases hstep.effect hlanes with
  | stay _ _ hlog | emit _ _ _ _ hlog | retire _ _ _ hlog => exact hlog ▸ h hlimit
  | accept m hadm _ _ hlog =>
    rw [hlog]
    intro m' hm'
    obtain hm' | rfl := Lib.mem_snoc.mp hm'
    · exact h hlimit m' hm'
    · exact ⟨hadm.limit_pos, hlimit, hadm.fits, hadm.count_le⟩

theorem held_accepted {L : Ledger} (h : L.Conserved) {b : QueuedFrame} (hb : b ∈ L.held) :
    b ∈ accepted L.limit L.log := by
  rw [← Multiset.mem_coe, ← h]
  exact Multiset.mem_add.mpr (.inl hb)

theorem flight_accepted {L : Ledger} (h : L.Conserved) {p : InFlight} (hp : p ∈ L.flight) :
    p.packet.body ∈ accepted L.limit L.log := by
  refine held_accepted h ?_
  simp only [held, Multiset.mem_add, mem_bodies, List.mem_map]
  exact .inl (.inr ⟨p.packet, ⟨p, hp, rfl⟩, rfl⟩)

theorem packets_accepted {L : Ledger} (h : L.Conserved) {f : QueuedFrame} (hf : f ∈ L.packets) :
    f.body ∈ accepted L.limit L.log := by
  refine held_accepted h ?_
  simp only [held, Multiset.mem_add, mem_bodies]
  exact .inl (.inl ⟨f, hf, rfl⟩)

theorem unreliable_accepted {L : Ledger} (h : L.Conserved) {f : QueuedFrame}
    (hf : f ∈ L.unreliable) : f.body ∈ accepted L.limit L.log := by
  refine held_accepted h ?_
  simp only [held, Multiset.mem_add, mem_bodies]
  exact .inr ⟨f, hf, rfl⟩

/-- A frame that is sent is one the queue holds. -/
theorem Sent.step {L L' : Ledger} (hstep : Step L L') (hc : L.Conserved) (h : Sent L) :
    Sent L' := by
  have hbook : ∀ m, ∀ f ∈ L.outbox, f.body ∈ accepted L.limit (L.log ++ [m]) := fun m f hf => by
    rw [accepted_append]
    exact List.mem_append_left _ (h f hf)
  have hpush : ∀ {f f' : QueuedFrame}, f.body ∈ accepted L.limit L.log → f'.body = f.body →
      ∀ g ∈ L.outbox ++ [f'], g.body ∈ accepted L.limit L.log := by
    intro f f' hf he g hg
    obtain hg | rfl := Lib.mem_snoc.mp hg
    · exact h g hg
    · rwa [he]
  cases hstep with
  | acceptReliable | acceptUnreliable | acceptNumbered | acceptScheduled => exact hbook _
  | migrate | renumber | rotate | retire | sort | ungroup => exact h
  | burst => exact fun f hf => (List.not_mem_nil hf).elim
  | resend hp hsent => exact hpush (flight_accepted hc (List.mem_of_getElem? hp)) rfl
  | @launch f _ hp | @join f _ _ hp | @emit f _ hp =>
    exact hpush (packets_accepted hc (f := f) (hp ▸ List.mem_cons_self)) rfl
  | @emitScheduled f _ hp =>
    exact hpush (unreliable_accepted hc (f := f) (hp ▸ List.mem_cons_self)) rfl
  | probe hout hall hperm =>
    intro f hf
    obtain ⟨p, hp, rfl⟩ := List.mem_map.mp hf
    obtain ⟨p', hp', rfl⟩ := List.mem_map.mp (hperm.mem_iff.mp hp)
    have : p'.packet.body ∈ accepted L.limit L.log := flight_accepted hc hp'
    exact this

theorem sent_run (B : Build) (mtu : Fin 65536) (ops : List Op) :
    Sent (run B mtu ops).ledger ∧ Fitting (run B mtu ops).ledger := by
  have h := run_preserves (I := fun L => L.Lanes ∧ L.Conserved ∧ Sent L ∧ Fitting L)
    (fun hstep h => ⟨h.1.step hstep, h.2.1.step hstep h.1, h.2.2.1.step hstep h.2.1,
      h.2.2.2.step hstep h.1⟩) B mtu
    ⟨(conserved_run B mtu []).1, (conserved_run B mtu []).2.1,
      fun f hf => (List.not_mem_nil hf).elim, fun _ m hm => (List.not_mem_nil hm).elim⟩ ops
  exact h.2.2

/-! ### Datagrams -/

theorem single_onWire (c : Counters) (m : Message) : OnWire (m.single c) m.reliability := by
  have hf := single_isFragment c m
  have hchannel : (m.channel : ℕ) < 256 := m.channel.isLt
  refine ⟨fits_of ?_ ?_, fits_of ?_ ?_, fits_of ?_ ?_, fits_of ?_ ?_, ?_, ?_, ?_⟩
  iterate 4
    · simp only [Message.single]
      split_ifs <;> omega
    · intro hr
      simp [Message.single, hr]
  all_goals
    rw [hf]
    rfl

theorem fragment_onWire {limit number : ℕ} {c : Counters} {m : Message} (h : Admissible limit m)
    {i : ℕ} (hi : i < m.count limit) :
    OnWire (m.fragment limit number c i) .reliableOrdered := by
  have hf := fragment_isFragment limit number c m i
  have hchannel : (m.channel : ℕ) < 256 := m.channel.isLt
  have hcount := h.count_le
  refine ⟨?_, ?_, ?_, ?_, ?_, ?_, ?_⟩
  all_goals first | rw [hf] | skip
  all_goals
    simp only [Fits, Reliability.isReliable, Reliability.isSequenced, Reliability.isOrdered,
      if_true, Bool.false_eq_true, if_false, Message.fragment, FrameSetPacket.fromPayload]
    try omega

/-- A frame of the log fits its place in a datagram. -/
theorem accepted_onWire {limit : ℕ} {log : List Message} (h : ∀ m ∈ log, Admissible limit m)
    {f : QueuedFrame} (hf : f.body ∈ accepted limit log) :
    f.frame.flags < 2 ^ 8 ∧ ∃ r, f.frame.reliability = .ok r ∧ OnWire f.frame r := by
  obtain ⟨k, m, hk, hmem⟩ := mem_accepted hf
  have hadm := h m (List.mem_of_getElem? hk)
  have hbody : f.body.frame.flags < 2 ^ 8 ∧
      ∃ r, f.body.frame.reliability = .ok r ∧ OnWire f.body.frame r := by
    unfold Message.frames at hmem
    split_ifs at hmem
    · obtain ⟨i, hi, he⟩ := List.mem_map.mp hmem
      rw [← he]
      refine ⟨by simp [Message.fragment, Reliability.toU8], .reliableOrdered, ?_,
        fragment_onWire hadm (List.mem_range.mp hi)⟩
      simp [Message.fragment, FrameSetPacket.reliability]
    · rw [List.mem_singleton.mp hmem]
      refine ⟨?_, m.reliability, ?_, single_onWire _ m⟩
      · simp only [Message.single, FrameSetPacket.fromPayload]
        cases m.reliability <;> decide
      · simp [Message.single, FrameSetPacket.reliability, FrameSetPacket.fromPayload]
  obtain ⟨hflags, r, hr, ⟨h1, h2, h3, h4, h5, h6, h7⟩⟩ := hbody
  exact ⟨hflags, r, hr, h1, h2, h3, h4, h5, h6, h7⟩

/-- A frame of the log is valid, when the MTU leaves at most 8,191 bytes for its body. -/
theorem accepted_valid {limit : ℕ} {log : List Message} (h : ∀ m ∈ log, Admissible limit m)
    (hlimit : limit ≤ 8191) {f : QueuedFrame} (hf : f.body ∈ accepted limit log) :
    f.frame.validate = .ok () := by
  obtain ⟨-, r, hr, -⟩ := accepted_onWire h hf
  obtain ⟨k, m, hk, hmem⟩ := mem_accepted hf
  have hadm := h m (List.mem_of_getElem? hk)
  have hbody : f.body.frame.lengthInBytes = f.body.frame.data.len % 65536 ∧
      f.body.frame.data.len ≤ 8191 ∧ (f.body.frame.isFragment = true →
        f.body.frame.compoundSize ≠ 0 ∧ f.body.frame.fragmentIndex < f.body.frame.compoundSize) := by
    unfold Message.frames at hmem
    split_ifs at hmem with hfrag
    · obtain ⟨i, hi, he⟩ := List.mem_map.mp hmem
      have hi := List.mem_range.mp hi
      rw [← he]
      refine ⟨rfl, ?_, fun _ => ⟨?_, hi⟩⟩
      · rw [FramePayload.len, fragment_deref hadm hi, List.length_take]
        omega
      · show m.count limit ≠ 0
        omega
    · have hfits := hadm.fits.resolve_left hfrag
      rw [List.mem_singleton.mp hmem]
      refine ⟨rfl, ?_, fun hfr => ?_⟩
      · rw [FramePayload.len, single_deref (by have := hadm.lt; omega)]
        omega
      · rw [single_isFragment] at hfr
        exact Bool.noConfusion hfr
  obtain ⟨hlength, hle, hfragment⟩ := hbody
  refine validate_ok.mpr ⟨?_, hle, hfragment, r, hr⟩
  show f.body.frame.data.len = f.body.frame.lengthInBytes
  omega

/-- **A datagram decodes to its frames.** -/
theorem group_decodes {limit : ℕ} {log : List Message} (h : ∀ m ∈ log, Admissible limit m)
    {g : List QueuedFrame}
    (hg : ∀ f ∈ g, f.body ∈ accepted limit log ∧ f.frame.sequenceNumber < 2 ^ 24) {b : Bytes}
    (hb : serializeGroupInto (g.map QueuedFrame.frame) = .ok b) :
    decodeInto b = .ok (g.map fun f => asDecoded f.frame) := by
  obtain ⟨hne, s, hvalid⟩ := serializeGroupInto_ok hb
  have hencodable : ∀ f ∈ g.map QueuedFrame.frame, Encodable s f := by
    intro f hf
    obtain ⟨hs, hv⟩ := hvalid f hf
    obtain ⟨f, hmem, rfl⟩ := List.mem_map.mp hf
    obtain ⟨hflags, hwire⟩ := accepted_onWire h (hg f hmem).1
    exact ⟨hs, hflags, hv, hwire⟩
  have hs : s < 2 ^ 24 := by
    obtain ⟨f, g', rfl⟩ := List.exists_cons_of_ne_nil (fun he => hne (List.map_eq_nil_iff.mpr he))
    rw [← (hvalid f.frame (by simp)).1]
    exact (hg f (by simp)).2
  obtain ⟨b', hb', hdecode⟩ := decode_serializeGroupInto hne hs hencodable
  obtain rfl := Except.ok.inj (hb.symm.trans hb')
  rw [hdecode, List.map_map]
  rfl

theorem mem_transmitFrames {o : OutgoingFrames} {g : List QueuedFrame} (hg : g ∈ transmitFrames o)
    {f : QueuedFrame} (hf : f ∈ g) : f ∈ o.frames := by
  have hflatten : (transmitFrames o).flatten = o.frames := by
    unfold transmitFrames
    split_ifs
    · exact singles_flatten _
    · exact runs_flatten _ _
    · exact singles_flatten _
  rw [← hflatten]
  exact List.mem_flatten.mpr ⟨g, hg, hf⟩

end RustRaknet.Link
