import RustRaknet.Link.Invariant
import RustRaknet.Send.Stowage

/-! # Every datagram of a burst encodes and fits

`transmit_frames` cuts a burst where the sequence number of its frames changes. As long as fewer than
2^24 numbers are given out while a frame is in flight, a sequence number of the burst is one datagram
number, whose frames fit a datagram (`Send.Stowage`); and a frame of a burst is a frame of the log,
which has an encoding of the size that the queue counted. -/

namespace RustRaknet.Link

open RustRaknet.Send RustRaknet.Frame RustRaknet.Codec RustRaknet.Datatype
open RustRaknet.Socket (transmitFrames transmitFrames_runs sequenced_of_placed placed_run)
open RustRaknet.Lib.Runs (runs runs_flatten runs_const runs_ne_nil)

/-! ### Sizes -/

theorem length_frameBytes {f : QueuedFrame} {r : Reliability} (hr : f.frame.reliability = .ok r) :
    (frameBytes f.frame).length = f.size - 4 := by
  have hsize : f.size = FrameSetPacket.sizeOf r f.frame.isFragment f.frame.data.len := by
    simp [QueuedFrame.size, FrameSetPacket.size, hr]
  have hbyte : (writeU8 f.frame.flags).length = 1 := by simp [writeU8]
  have hbits : (writeU16 (f.frame.lengthInBytes * 8) .big).length = 2 := by simp [writeU16]
  rw [frameBytes_eq hr, hsize]
  simp only [fieldBytes, FrameSetPacket.sizeOf, FramePayload.len, List.length_append, length_writeIf,
    hbyte, hbits]
  split_ifs <;> omega

/-- A datagram of frames of the log takes the bytes that the queue counted. -/
theorem serializeGroupInto_length {limit : ℕ} {log : List Message}
    (hlog : ∀ m ∈ log, Admissible limit m) (hlimit : limit ≤ 8191) {g : List QueuedFrame} {s : ℕ}
    (hne : g ≠ []) (hg : ∀ f ∈ g, f.body ∈ accepted limit log ∧ f.frame.sequenceNumber = s) :
    ∃ b, serializeGroupInto (g.map QueuedFrame.frame) = .ok b ∧ b.length = stowedBytes g := by
  obtain ⟨f, rest, rfl⟩ := List.exists_cons_of_ne_nil hne
  have hencodable : ∀ x ∈ f.frame :: rest.map QueuedFrame.frame, Encodable s x := by
    intro x hx
    obtain ⟨y, hy, rfl⟩ := List.mem_map.mp (show x ∈ (f :: rest).map QueuedFrame.frame from hx)
    obtain ⟨hbody, hsequence⟩ := hg y hy
    obtain ⟨hflags, hwire⟩ := accepted_onWire hlog hbody
    exact ⟨hsequence, hflags, accepted_valid hlog hlimit hbody, hwire⟩
  refine ⟨_, serializeGroupInto_eq hencodable, ?_⟩
  have hlengths : (f :: rest).map (fun x => (frameBytes x.frame).length) =
      (f :: rest).map fun x => x.size - 4 := by
    refine List.map_congr_left fun x hx => ?_
    obtain ⟨-, r, hr, -⟩ := accepted_onWire hlog (hg x hx).1
    exact length_frameBytes hr
  rw [List.length_append, length_datagramHeader, List.length_flatten, stowedBytes, ← hlengths]
  simp [Function.comp_def]

/-! ### The runs of a burst -/

/-- The frames are a datagram: they are valid, their encoding leaves room for the headers of IP and
UDP, and if there is more than one there are at most eight, all ordered and unfragmented. -/
structure Sendable (mtu : ℕ) (g : List QueuedFrame) : Prop where
  valid : ∀ f ∈ g, f.frame.validate = .ok ()
  encodes : ∃ b, serializeGroupInto (g.map QueuedFrame.frame) = .ok b ∧ b.length ≤ mtu - 28
  packed : 1 < g.length → g.length ≤ 8 ∧ ∀ f ∈ g,
    f.frame.reliability = .ok .reliableOrdered ∧ f.frame.isFragment = false

theorem sendable {limit mtu : ℕ} {log : List Message} (hlog : ∀ m ∈ log, Admissible limit m)
    (hlimit : limit ≤ 8191) {g : List QueuedFrame} {s : ℕ} (hne : g ≠ [])
    (hg : ∀ f ∈ g, f.body ∈ accepted limit log ∧ f.frame.sequenceNumber = s)
    (hfits : Stowable mtu g) : Sendable mtu g := by
  obtain ⟨b, hb, hlength⟩ := serializeGroupInto_length hlog hlimit hne hg
  refine ⟨fun f hf => accepted_valid hlog hlimit (hg f hf).1, ⟨b, hb, hlength ▸ hfits.bytes hne⟩,
    fun hlt => ⟨hfits.count, fun f hf => ?_⟩⟩
  exact packable_mode (hfits.packable hlt f hf)

/-- **Every datagram of a burst encodes and fits the MTU**, in every run in which fewer than 2^24
numbers are given out while a frame is in flight. The datagrams are the runs of equal sequence
numbers, and this is how `transmit_frames` cuts the burst. -/
theorem datagrams_fit (B : Build) (mtu : Fin 65536) (ops : List Op) (tick : ℤ)
    (hmtu : (mtu : ℕ) ≤ 1492)
    (hwindow : ∀ before, before <+: ops ++ [.flush tick] → (run B mtu before).queue.Windowed) :
    let o := ((run B mtu ops).queue.flush B tick).1
    transmitFrames o = runs (fun f : QueuedFrame => f.frame.sequenceNumber) o.frames ∧
    ∀ g ∈ runs (fun f : QueuedFrame => f.frame.sequenceNumber) o.frames, Sendable mtu g := by
  intro o
  have hnow := hwindow ops (List.prefix_append ops _)
  have hthen := hwindow (ops ++ [.flush tick]) List.prefix_rfl
  have hdeck := stowed_run B mtu ops fun before h =>
    hwindow before (h.trans (List.prefix_append ops _))
  obtain ⟨s, hs, hends⟩ := flush_stowed (B := B) tick (flight_numbered B mtu ops) hnow
    (congrArg Fin.val (legacy_room B mtu ops).1) hdeck (queued_fits B mtu ops)
  obtain ⟨hn, hplaced⟩ := placed_run B mtu (ops ++ [.flush tick])
  have hbodies := burst_frames B mtu (ops ++ [.flush tick])
  have hlog := run_admissible B mtu (ops ++ [.flush tick])
  rw [run_append] at hn hplaced hthen hbodies hlog
  have hbound := output_windowed hs hends hthen
  refine ⟨transmitFrames_runs (sequenced_of_placed hn hplaced hbound), fun g hg => ?_⟩
  have hne := runs_ne_nil _ _ g hg
  have hsub : g.Sublist o.frames := by
    have := List.sublist_flatten_of_mem hg
    rwa [runs_flatten] at this
  obtain ⟨f, hf⟩ := List.exists_mem_of_ne_nil g hne
  have hone : ∀ x ∈ g, x.frame.sequenceNumber = f.frame.sequenceNumber := fun x hx =>
    runs_const _ _ g hg x hx f hf
  -- one sequence number is one datagram number, and the frames of that number fit
  have hnumber : ofNumber f.datagram g = g := ofNumber_eq_self fun x hx => by
    have hx := hsub.subset hx
    have hf := hsub.subset hf
    have he := hone x ‹_›
    rw [(hn.outbox x hx).sequence, (hn.outbox f hf).sequence] at he
    exact eq_of_window (hn.outbox x hx).lt (hn.outbox f hf).lt (hbound x hx) (hbound f hf) he
  obtain ⟨retriesPending, scheduler, hresult, -⟩ := hends
  have hout : o = s.output := congrArg Prod.fst hresult
  have hfits : Stowable mtu g := by
    rw [← hnumber]
    exact (hs.fits f.datagram).subperm (hout ▸ hsub.filter _).subperm
  exact sendable hlog (by omega) hne (fun x hx => ⟨(hbodies x (hsub.subset hx)).1, hone x hx⟩) hfits

/-- Two messages that are packed into one datagram. -/
theorem datagrams_fit_packed :
    let o := ((run (.insertion false false) 1400 (packedOps.take 3)).queue.flush
      (.insertion false false) 0).1
    (∀ g ∈ runs (fun f : QueuedFrame => f.frame.sequenceNumber) o.frames, Sendable 1400 g) ∧
      (runs (fun f : QueuedFrame => f.frame.sequenceNumber) o.frames).map List.length = [2] := by
  refine ⟨(datagrams_fit (.insertion false false) 1400 (packedOps.take 3) 0 (by decide)
    fun before hbefore => ?_).2, ?_⟩
  · revert before
    simp only [← List.mem_inits]
    decide +kernel
  · decide +kernel

end RustRaknet.Link
