import RustRaknet.Lib.Machine
import RustRaknet.Lib.Result
import RustRaknet.Sequence

/-! # The reliable window over many calls

`sequence.rs`: a `ReliableWindow` that is given the low 24 bits of unbounded numbers answers as a
filter that remembers every number it has accepted (`window_exact`), as long as the numbers stay
within half a turn of the next expected one.

`acceptInPlace` is `accept` on a mutable window, statement by statement, so that what an `Err`
leaves behind is part of the model. `CatchesUp` is its loop without a bound on the turns. -/

namespace RustRaknet.Sequence

open RustRaknet.Lib.Serial RustRaknet.Lib.Machine RustRaknet.Lib.Result

/-! ### The loop ends -/

/-- The loop `while self.pending.remove(&self.next)`. -/
inductive CatchesUp : ℕ → Finset ℕ → ℕ → Finset ℕ → Prop
  | stop {n : ℕ} {p : Finset ℕ} (h : n ∉ p) : CatchesUp n p n p
  | turn {n n' : ℕ} {p p' : Finset ℕ} (h : n ∈ p)
      (hrest : CatchesUp (Sequence.next n) (p.erase n) n' p') : CatchesUp n p n' p'

theorem catchesUp : ∀ (k n : ℕ) (p : Finset ℕ), p.card = k →
    CatchesUp n p (catchUp k n p).1 (catchUp k n p).2
  | 0, n, p, hk => .stop (by simp [Finset.card_eq_zero.mp hk])
  | k + 1, n, p, hk => by
    unfold catchUp
    split_ifs with hn
    · exact .turn hn (catchesUp k _ _ (by rw [Finset.card_erase_of_mem hn]; omega))
    · exact .stop hn

/-! ### In place -/

/-- `ReliableWindow::accept`, on a mutable window. -/
def ReliableWindow.acceptInPlace (index : ℕ) : InPlace ReliableWindow RaknetError Bool := do
  let w ← get
  let delta := distance index w.next
  if half ≤ delta then pure false
  else if receiveWindow ≤ delta then throw .packetParseError
  else if delta ≠ 0 then
    if index ∈ w.pending then pure false
    else do
      modify fun w => { w with pending := insert index w.pending }
      pure true
  else do
    modify fun w => { w with next := Sequence.next w.next }
    modify fun w =>
      ⟨(catchUp w.pending.card w.next w.pending).1, (catchUp w.pending.card w.next w.pending).2⟩
    pure true

theorem acceptInPlace_exec (w : ReliableWindow) (index : ℕ) :
    InPlace.exec (ReliableWindow.acceptInPlace index) w =
      match w.accept index with
      | .ok (b, w') => (.ok b, w')
      | .error e => (.error e, w) := by
  unfold ReliableWindow.acceptInPlace ReliableWindow.accept
  rw [InPlace.exec_get]
  simp only
  split_ifs <;> rfl

/-! ### Many calls -/

/-- A window that is given unbounded numbers. Two components are history: how far `next` has come,
not reduced to 24 bits, and the numbers that were accepted. -/
structure Filtering where
  window : ReliableWindow
  trueNext : ℕ
  accepted : Finset ℕ

namespace Filtering

/-- A new window. -/
def new : Filtering := ⟨.empty, 0, ∅⟩

variable (s : Filtering) (i : ℕ)

/-- What `accept` answers to the low 24 bits of `i`, and the window it leaves. -/
def answer : Except RaknetError Bool × ReliableWindow :=
  InPlace.exec (ReliableWindow.acceptInPlace (i % 16777216)) s.window

/-- The state after a call. -/
def call : Filtering where
  window := (s.answer i).2
  trueNext := s.trueNext + distance (s.answer i).2.next s.window.next
  accepted := match (s.answer i).1 with
    | .ok true => insert i s.accepted
    | _ => s.accepted

/-- The number is within half a turn of the next expected one. -/
def Near : Prop := s.trueNext ≤ i + 8388608 ∧ i < s.trueNext + 8388608

instance : Decidable (s.Near i) := by unfold Near; infer_instance

/-- The window stands for the numbers that were accepted. -/
structure Exact : Prop where
  tracks : Tracks s.window s.accepted
  trueNext : s.trueNext = mex s.accepted

end Filtering

section calls

variable {s : Filtering} {i : ℕ}

theorem answer_seen (h : s.Exact) (hnear : s.Near i) (hi : i ∈ s.accepted) :
    s.answer i = (.ok false, s.window) := by
  have hback : mex s.accepted ≤ i + 8388608 := h.trueNext ▸ hnear.1
  unfold Filtering.answer
  rw [acceptInPlace_exec, accept_seen h.tracks hback hi]

theorem answer_far (h : s.Exact) (hnear : s.Near i) (hfar : s.trueNext + 65536 ≤ i) :
    s.answer i = (.error .packetParseError, s.window) := by
  have hahead := hnear.2
  rw [h.trueNext] at hahead hfar
  unfold Filtering.answer
  rw [acceptInPlace_exec, accept_far h.tracks hahead hfar]

theorem answer_new (h : s.Exact) (hi : i ∉ s.accepted) (hlt : i < s.trueNext + 65536) :
    ∃ w, s.answer i = (.ok true, w) ∧ Tracks w (insert i s.accepted) := by
  obtain ⟨w, hw, htracks⟩ := accept_new h.tracks hi (h.trueNext ▸ hlt)
  refine ⟨w, ?_, htracks⟩
  unfold Filtering.answer
  rw [acceptInPlace_exec, hw]

theorem lt_of_accepted (h : s.Exact) (hi : i ∈ s.accepted) : i < s.trueNext + 65536 := by
  rw [h.trueNext]
  exact h.tracks.near i hi

theorem call_of_answer {result : Except RaknetError Bool} (hresult : result ≠ .ok true)
    (h : s.answer i = (result, s.window)) : s.call i = s := by
  unfold Filtering.call
  rw [h]
  have hdistance := distance_self s.window.next
  rcases result with e | _ | _
  · simp [hdistance]
  · simp [hdistance]
  · exact absurd rfl hresult

/-- **Every call keeps the filter exact.** -/
theorem Filtering.Exact.call (h : s.Exact) (hnear : s.Near i) : (s.call i).Exact := by
  by_cases hi : i ∈ s.accepted
  · rw [call_of_answer (by simp) (answer_seen h hnear hi)]
    exact h
  by_cases hlt : i < s.trueNext + 65536
  · obtain ⟨w, hanswer, htracks⟩ := answer_new h hi hlt
    -- the next expected number moves less than a turn, so the distance counts its steps
    have hfirst : mex s.accepted ≤ mex (insert i s.accepted) :=
      mex_mono (Finset.subset_insert i s.accepted)
    have hlast : mex (insert i s.accepted) ≤ mex s.accepted + 65536 := by
      refine mex_le fun hmem => ?_
      rw [h.trueNext] at hlt
      rcases Finset.mem_insert.mp hmem with rfl | hmem
      · omega
      · have := h.tracks.near _ hmem
        omega
    refine ⟨?_, ?_⟩
    · unfold Filtering.call
      rw [hanswer]
      exact htracks
    · unfold Filtering.call
      rw [hanswer]
      simp only
      rw [htracks.next_eq, h.tracks.next_eq, distance_mod_of_le hfirst (by omega), h.trueNext]
      omega
  · rw [call_of_answer (by simp) (answer_far h hnear (not_lt.mp hlt))]
    exact h

theorem exact_run {calls : List ℕ}
    (h : Always Filtering.call Filtering.new Filtering.Near calls) :
    (run Filtering.call Filtering.new calls).Exact :=
  run_invariant_of ⟨tracks_empty, by simp [Filtering.new]⟩ (fun _ _ hs hnear => hs.call hnear) h

end calls

/-- **The window is an unbounded duplicate filter**: after any calls with numbers within half a turn
of the next expected one, that is the least number not yet accepted; a further such number is
accepted if it is new and less than 65,536 ahead, refused if it has been accepted, and an error that
changes nothing if it is further ahead. The loop that catches up ends. -/
theorem window_exact (calls : List ℕ)
    (h : Always Filtering.call Filtering.new Filtering.Near calls) :
    let s := run Filtering.call Filtering.new calls
    IsLeast {i | i ∉ s.accepted} s.trueNext ∧ s.window.next = s.trueNext % 16777216 ∧
    (∀ i, s.Near i →
      ((s.answer i).1 = .ok true ↔ i ∉ s.accepted ∧ i < s.trueNext + 65536) ∧
      ((s.answer i).1 = .ok false ↔ i ∈ s.accepted) ∧
      ((∃ e, (s.answer i).1 = .error e) ↔ s.trueNext + 65536 ≤ i) ∧
      (s.trueNext + 65536 ≤ i → (s.answer i).2 = s.window)) ∧
    CatchesUp (next s.window.next) s.window.pending
      (catchUp s.window.pending.card (next s.window.next) s.window.pending).1
      (catchUp s.window.pending.card (next s.window.next) s.window.pending).2 := by
  intro s
  have hs : s.Exact := exact_run h
  refine ⟨⟨?_, fun i hi => ?_⟩, ?_, fun i hnear => ?_, catchesUp _ _ _ rfl⟩
  · rw [hs.trueNext]
    exact mex_notMem s.accepted
  · rw [hs.trueNext]
    exact mex_le hi
  · rw [hs.trueNext]
    exact hs.tracks.next_eq
  by_cases hi : i ∈ s.accepted
  · have hlt := lt_of_accepted hs hi
    rw [answer_seen hs hnear hi]
    refine ⟨by simp [hi], by simp [hi], ?_, fun _ => rfl⟩
    simp only [reduceCtorEq, exists_false, false_iff]
    omega
  by_cases hlt : i < s.trueNext + 65536
  · obtain ⟨w, hanswer, -⟩ := answer_new hs hi hlt
    rw [hanswer]
    refine ⟨by simp [hi, hlt], by simp [hi], ?_, fun hle => by omega⟩
    simp only [reduceCtorEq, exists_false, false_iff]
    omega
  · rw [answer_far hs hnear (not_lt.mp hlt)]
    refine ⟨by simp [hlt], by simp [hi], ?_, fun _ => rfl⟩
    simp only [Except.error.injEq, exists_eq', true_iff]
    omega

/-- Three numbers out of order, one of them twice. -/
theorem window_exact_reordered :
    let s := run Filtering.call Filtering.new [1, 2, 1, 0]
    IsLeast {i | i ∉ s.accepted} 3 ∧ ((s.answer 2).1 = .ok false ↔ 2 ∈ s.accepted) := by
  have hexact := window_exact [1, 2, 1, 0] (by decide)
  have hnext : (run Filtering.call Filtering.new [1, 2, 1, 0]).trueNext = 3 := by decide
  have hnear : (run Filtering.call Filtering.new [1, 2, 1, 0]).Near 2 := by decide
  refine ⟨hnext ▸ hexact.1, (hexact.2.2.1 2 hnear).2.1⟩

end RustRaknet.Sequence
