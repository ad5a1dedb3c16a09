import RustRaknet.Send.Scheduled

/-! # The rotation of the classes

`flush_scheduled` serves three classes: unreliable frames, retransmissions and new reliable frames. A
call begins with the lane after the last one that sent a frame. So the distance of a class from the
next lane falls with every call that passes the class over, and at distance zero the class comes first.

It falls from two to one or zero in any case. But from one it need not fall: a class whose next frame
does not fit the rest of the budget is skipped, and when the lane behind it then sends a smaller frame,
the next call begins one lane before the class again. So a class can starve (`class_starves`). It does
not when the budget takes six datagrams, or when no other class has a smaller frame
(`no_class_bypassed`). -/

namespace RustRaknet.Send

open RustRaknet.Frame RustRaknet.Lib.Result

namespace Round

section passed

variable {probeSequence : Option ℕ} {tick : ℤ} {quantum : ℕ} {r r' : Round} {trace : List ℕ}

/-! ### A lane that is passed over -/

theorem head_cleared (lane : ℕ) (r : Round) : r.cleared.head lane = r.head lane := by
  match lane with
  | 0 => rw [head_zero, head_zero]; rfl
  | 1 => rw [head_one, head_one]; rfl
  | n + 2 => rw [head_new (by omega), head_new (by omega)]; rfl

theorem frames_cleared (lane : ℕ) (r : Round) : r.cleared.frames lane = r.frames lane := by
  match lane with
  | 0 => rfl
  | 1 => rfl
  | n + 2 => rfl

theorem Stuck.cleared {lane : ℕ} (h : r.Stuck lane) : r.cleared.Stuck lane :=
  fun charge hfits => h charge ⟨(head_cleared lane r).symm.trans hfits.head, hfits.room⟩

theorem LaneRun.mem_of_fits {lane charge : ℕ} {stop : Bool} (hquantum : 0 < quantum)
    (h : LaneRun probeSequence tick lane quantum 0 r trace r' stop) (hfits : r.Fits lane charge) :
    lane ∈ trace := by
  cases h with
  | spent h => omega
  | stuck h hstuck => exact absurd hfits (hstuck charge)
  | full h hfits hfull => exact List.mem_singleton_self lane
  | turn h hfits hmore hrest => exact List.mem_cons_self

theorem LaneRun.eq_of_mem {lane laneBytes : ℕ} {stop : Bool}
    (h : LaneRun probeSequence tick lane quantum laneBytes r trace r' stop) :
    ∀ l ∈ trace, l = lane := by
  induction h with
  | spent h | stuck h hstuck | full h hfits hfull => simp
  | turn h hfits hmore hrest ih =>
    intro l hl
    rcases List.mem_cons.mp hl with rfl | hl
    · rfl
    · exact ih l hl

/-- The next frame of a lane stays when the lane is passed over, and the budget only shrinks. -/
structure Passed (lane size flush : ℕ) (r : Round) : Prop where
  head : r.head lane = some size
  options : r.scheduler.options.flushBytes = flush

theorem Passed.advance {lane size flush : ℕ} (h : Passed lane size flush r) (other : ℕ) :
    Passed lane size flush (r.advance other) := by
  refine ⟨(head_advance lane other r).trans h.head, ?_⟩
  obtain ⟨retryCursor, hadvance⟩ := advance_eq other r
  rw [hadvance]
  exact h.options

theorem Passed.serves {lane size flush other charge : ℕ} (h : Passed lane size flush r)
    (hserves : Serves probeSequence tick r other charge r') (hlane : lane < 3) (hother : other < 3)
    (hne : lane ≠ other) : Passed lane size flush r' :=
  ⟨hserves.head_other hother hlane hne h.head,
    (congrArg SendOptions.flushBytes hserves.bytes.2.1).trans h.options⟩

theorem LaneRun.passed {lane size flush other laneBytes : ℕ} {stop : Bool} (hlane : lane < 3)
    (hother : other < 3) (hne : lane ≠ other)
    (h : LaneRun probeSequence tick other quantum laneBytes r trace r' stop)
    (hr : Passed lane size flush r) : Passed lane size flush r' :=
  h.preserves (I := fun _ r => Passed lane size flush r) (fun other h => h.advance other)
    (fun h _ hserves => h.serves hserves hlane hother hne) [] hr

theorem LanesRun.nothing {start : ℕ} {offsets : List ℕ} {stop : Bool}
    (h : LanesRun probeSequence tick quantum start offsets r trace r' stop)
    (hstuck : ∀ lane < 3, r.Stuck lane) : trace = [] ∧ ∀ lane < 3, r'.Stuck lane :=
  h.preserves (I := fun t r => t = [] ∧ ∀ lane < 3, r.Stuck lane)
    (fun other h => ⟨h.1, fun lane hlane => (h.2 lane hlane).advance other⟩)
    (fun hlane h hfits _ => absurd hfits (h.2 _ hlane _)) [] ⟨rfl, hstuck⟩

theorem RoundsRun.nothing (h : RoundsRun probeSequence tick quantum r trace r')
    (hstuck : ∀ lane < 3, r.Stuck lane) : trace = [] :=
  (h.preserves (I := fun t r => t = [] ∧ ∀ lane < 3, r.Stuck lane)
    (fun h => ⟨h.1, fun lane hlane => (h.2 lane hlane).cleared⟩)
    (fun other h => ⟨h.1, fun lane hlane => (h.2 lane hlane).advance other⟩)
    (fun hlane h hfits _ => absurd hfits (h.2 _ hlane _)) [] ⟨rfl, hstuck⟩).1

theorem RoundsRun.nextLane (h : RoundsRun probeSequence tick quantum r trace r') :
    r'.scheduler.nextLane =
      (trace.getLast?.map fun lane => (lane + 1) % 3).getD r.scheduler.nextLane := by
  refine h.preserves (I := fun t r' => r'.scheduler.nextLane =
    (t.getLast?.map fun lane => (lane + 1) % 3).getD r.scheduler.nextLane)
    (fun h => h) (fun {t r'} other h => ?_) (fun _ _ _ hserves => ?_) [] rfl
  · obtain ⟨retryCursor, hadvance⟩ := advance_eq other r'
    rw [hadvance]
    exact h
  · rw [hserves.nextLane, List.getLast?_concat]
    rfl

theorem RoundsRun.lane_lt (h : RoundsRun probeSequence tick quantum r trace r') :
    ∀ lane ∈ trace, lane < 3 := by
  refine h.preserves (I := fun t _ => ∀ lane ∈ t, lane < 3) (fun h => h) (fun _ h => h)
    (fun hlane h _ _ => ?_) [] (fun _ hmem => absurd hmem List.not_mem_nil)
  intro l hl
  obtain hl | rfl := Lib.mem_snoc.mp hl
  · exact h l hl
  · exact hlane

theorem LanesRun.bytes_of_nil {start : ℕ} {offsets : List ℕ} {stop : Bool}
    (h : LanesRun probeSequence tick quantum start offsets r [] r' stop) : r'.bytes = r.bytes := by
  refine h.preserves (I := fun t r' => t = [] → r'.bytes = r.bytes) (fun {t r'} other h ht => ?_)
    (fun _ _ _ _ ht => ?_) [] (fun _ => rfl) rfl
  · obtain ⟨retryCursor, hadvance⟩ := advance_eq other r'
    rw [hadvance]
    exact h ht
  · simp at ht

theorem RoundsRun.round (h : RoundsRun probeSequence tick quantum r trace r') :
    ∃ trace₁ r₁ stop trace₂, LanesRun probeSequence tick quantum r.scheduler.nextLane [0, 1, 2]
        r.cleared trace₁ r₁ stop ∧ trace = trace₁ ++ trace₂ ∧
      (trace₂ = [] ∨ stop = false ∧ RoundsRun probeSequence tick quantum r₁ trace₂ r') := by
  cases h with
  | stop h => exact ⟨_, _, _, [], h, (List.append_nil _).symm, .inl rfl⟩
  | idle h => exact ⟨_, _, _, [], h, rfl, .inl rfl⟩
  | again h hne hrest => exact ⟨_, _, _, _, h, rfl, .inr ⟨rfl, hrest⟩⟩

theorem LaneRun.frames_subset {lane laneBytes : ℕ} {stop : Bool}
    (h : LaneRun probeSequence tick lane quantum laneBytes r trace r' stop) (other : ℕ) :
    ∀ f ∈ r'.frames other, f ∈ r.frames other := by
  refine h.preserves (I := fun _ r' => ∀ f ∈ r'.frames other, f ∈ r.frames other)
    (fun {_ r'} l h => ?_) (fun h _ hserves f hf => h f (hserves.frames other f hf)) [] fun _ h => h
  obtain ⟨retryCursor, hadvance⟩ := advance_eq l r'
  rw [hadvance]
  exact h

/-! ### The bytes of a lane -/

/-- No waiting frame is larger than `limit`. -/
def Small (limit : ℕ) (r : Round) : Prop := ∀ lane, ∀ f ∈ r.frames lane, f.size ≤ limit

theorem Small.serves {limit lane charge : ℕ} (h : Small limit r)
    (hserves : Serves probeSequence tick r lane charge r') : Small limit r' :=
  fun other f hf => h other f (hserves.frames other f hf)

theorem Small.head {limit lane charge : ℕ} (h : Small limit r) (hhead : r.head lane = some charge) :
    charge ≤ limit := by
  obtain ⟨f, hf, rfl⟩ := head_mem hhead
  exact h lane f hf

/-- A lane sends at most one frame more than its quantum. -/
theorem LaneRun.bytes_le {limit lane laneBytes : ℕ} {stop : Bool} (hsmall : Small limit r)
    (h : LaneRun probeSequence tick lane quantum laneBytes r trace r' stop)
    (hle : laneBytes ≤ quantum + limit) : r'.bytes + laneBytes ≤ r.bytes + quantum + limit := by
  induction h with
  | spent h => omega
  | @stuck laneBytes r h hstuck =>
    obtain ⟨retryCursor, hadvance⟩ := advance_eq lane r
    rw [hadvance]
    show r.bytes + laneBytes ≤ _
    omega
  | @full laneBytes charge r h hfits hfull =>
    have hserves : Serves probeSequence tick r lane charge _ := hfits.serves
    have hsize := hsmall.head hfits.head
    rw [hserves.bytes.1]
    omega
  | @turn laneBytes charge r r' trace stop h hfits hmore hrest ih =>
    have hserves : Serves probeSequence tick r lane charge _ := hfits.serves
    have hsize := hsmall.head hfits.head
    have hrest := ih (hsmall.serves hserves) (by omega)
    rw [hserves.bytes.1] at hrest
    omega

/-! ### One call -/

/-- A call whose budget takes any one frame, and a class with a frame that may be sent. -/
structure Calls (limit lane size : ℕ) (r : Round) : Prop where
  known : lane < 3
  head : r.head lane = some size
  bytes : r.bytes = 0
  small : Small limit r
  budget : limit ≤ r.scheduler.options.flushBytes
  positive : 0 < limit

/-- The budget takes six frames, or no other class has a frame smaller than `size`. -/
def Unhurried (limit lane size : ℕ) (r : Round) : Prop :=
  6 * limit ≤ r.scheduler.options.flushBytes ∨
    ∀ other < 3, other ≠ lane → ∀ f ∈ r.frames other, size ≤ f.size

namespace Calls

variable {limit lane size : ℕ}

theorem size_le (h : Calls limit lane size r) : size ≤ limit := h.small.head h.head

theorem passed (h : Calls limit lane size r) :
    Passed lane size r.scheduler.options.flushBytes r.cleared :=
  ⟨(head_cleared lane r).trans h.head, rfl⟩

theorem fits (h : Calls limit lane size r) {r' : Round}
    (hpassed : Passed lane size r.scheduler.options.flushBytes r') (hbytes : r'.bytes = 0) :
    r'.Fits lane size := by
  have hsize := h.size_le
  have hbudget := h.budget
  refine ⟨hpassed.head, ?_⟩
  rw [hbytes, hpassed.options]
  omega

theorem first (h : Calls limit lane size r)
    (hrun : RoundsRun probeSequence tick (limit * 4) r trace r')
    (hnext : r.scheduler.nextLane = lane) : lane ∈ trace := by
  have hquantum : 0 < limit * 4 := by have := h.positive; omega
  have hlane : (r.scheduler.nextLane + 0) % 3 = lane := by have := h.known; omega
  obtain ⟨trace₁, r₁, stop, trace₂, hround, rfl, -⟩ := hrun.round
  have hfits := h.fits h.passed h.bytes
  refine List.mem_append_left _ ?_
  cases hround with
  | stop hfirst =>
    rw [hlane] at hfirst
    exact hfirst.mem_of_fits hquantum hfits
  | next hfirst hrest =>
    rw [hlane] at hfirst
    exact List.mem_append_left _ (hfirst.mem_of_fits hquantum hfits)

/-- A call in which a class has a frame to send sends something. -/
theorem sends (h : Calls limit lane size r)
    (hrun : RoundsRun probeSequence tick (limit * 4) r trace r') : trace ≠ [] := by
  rintro rfl
  have hquantum : 0 < limit * 4 := by have := h.positive; omega
  obtain ⟨trace₁, r₁, stop, trace₂, hround, hnil, -⟩ := hrun.round
  obtain ⟨rfl, -⟩ := List.append_eq_nil_iff.mp hnil.symm
  -- the three offsets reach the class, and its frame fits
  obtain ⟨offset, hoffset, hlane⟩ : ∃ offset ∈ [0, 1, 2],
      (r.scheduler.nextLane + offset) % 3 = lane := by
    have := h.known
    simp only [List.mem_cons, List.not_mem_nil, or_false, exists_eq_or_imp, exists_eq_left]
    omega
  have hstuck := (hround.idle hquantum).2 offset hoffset
  rw [hlane] at hstuck
  have hpassed : Passed lane size r.scheduler.options.flushBytes r₁ :=
    hround.preserves (I := fun t r' => t = [] → Passed lane size r.scheduler.options.flushBytes r')
      (fun other h ht => (h ht).advance other) (fun _ _ _ _ ht => by simp at ht) []
      (fun _ => h.passed) rfl
  exact hstuck size (h.fits hpassed (hround.bytes_of_nil.trans h.bytes))

theorem nextLane (h : Calls limit lane size r)
    (hrun : RoundsRun probeSequence tick (limit * 4) r trace r') (hpassed : lane ∉ trace) :
    ∃ last < 3, last ≠ lane ∧ r'.scheduler.nextLane = (last + 1) % 3 := by
  obtain ⟨before, last, rfl⟩ := (List.eq_nil_or_concat' trace).resolve_left (h.sends hrun)
  have hmem : last ∈ before ++ [last] := List.mem_append_right _ (List.mem_singleton_self _)
  refine ⟨last, hrun.lane_lt last hmem, fun he => hpassed (he ▸ hmem), ?_⟩
  rw [hrun.nextLane, List.getLast?_concat]
  rfl

/-- **A class that comes second** and is passed over comes first in the next call. -/
theorem second (h : Calls limit lane size r) (hunhurried : Unhurried limit lane size r)
    (hrun : RoundsRun probeSequence tick (limit * 4) r trace r')
    (hnext : (r.scheduler.nextLane + 1) % 3 = lane) (hpassed : lane ∉ trace) :
    r'.scheduler.nextLane = lane := by
  have hquantum : 0 < limit * 4 := by have := h.positive; omega
  have hother : (r.scheduler.nextLane + 0) % 3 ≠ lane := by omega
  have hlast : (∀ l ∈ trace, l = (r.scheduler.nextLane + 0) % 3) →
      r'.scheduler.nextLane = lane := by
    intro hall
    obtain ⟨before, last, rfl⟩ := (List.eq_nil_or_concat' trace).resolve_left (h.sends hrun)
    rw [hrun.nextLane, List.getLast?_concat,
      hall last (List.mem_append_right _ (List.mem_singleton_self _))]
    show ((r.scheduler.nextLane + 0) % 3 + 1) % 3 = lane
    omega
  refine hlast ?_
  obtain ⟨trace₁, r₁, stop, trace₂, hround, rfl, hmore⟩ := hrun.round
  cases hround with
  | stop hfirst =>
    -- the first lane fills the burst
    obtain rfl : trace₂ = [] := hmore.resolve_right (by simp)
    rw [List.append_nil]
    exact hfirst.eq_of_mem
  | @next _ _ traceA traceB _ rA _ _ hfirst hrest =>
    have hA : Passed lane size r.scheduler.options.flushBytes rA :=
      hfirst.passed h.known (Nat.mod_lt _ (by omega)) hother.symm h.passed
    have hunserved : lane ∉ traceB := fun hmem =>
      hpassed (List.mem_append_left _ (List.mem_append_right _ hmem))
    -- the class has its turn, and its frame does not fit
    obtain ⟨hstuck, rB, hB, hrestB⟩ : rA.Stuck lane ∧ ∃ rB, rB = rA.advance lane ∧
        LanesRun probeSequence tick (limit * 4) r.scheduler.nextLane [2] rB traceB r₁ stop := by
      cases hrest with
      | stop hturn =>
        rw [hnext] at hturn
        cases hturn with
        | full => exact absurd (List.mem_singleton_self lane) hunserved
        | turn => exact absurd List.mem_cons_self hunserved
      | @next _ _ traceC traceD _ rB _ _ hturn hlast =>
        rw [hnext] at hturn
        obtain rfl : traceC = [] := List.eq_nil_iff_forall_not_mem.mpr fun l hl =>
          hunserved (List.mem_append_left _ (hturn.eq_of_mem l hl ▸ hl))
        obtain ⟨hstuck, rfl⟩ := hturn.idle hquantum
        exact ⟨hstuck, _, rfl, hlast⟩
    have hover : r.scheduler.options.flushBytes < rA.bytes + size := by
      by_contra hle
      exact hstuck size ⟨hA.head, by rw [hA.options]; omega⟩
    rcases hunhurried with hbudget | hsmallest
    · -- one lane cannot use so much of the budget
      have hsmall : Small limit r.cleared := fun l f hf => h.small l f (frames_cleared l r ▸ hf)
      have hbytes := hfirst.bytes_le hsmall (Nat.zero_le _)
      have hzero : r.cleared.bytes = 0 := h.bytes
      have hsize := h.size_le
      omega
    · -- then no other frame fits either
      have hall : ∀ l < 3, rA.Stuck l := by
        intro l hl charge hfits
        by_cases he : l = lane
        · exact hstuck charge (he ▸ hfits)
        · obtain ⟨f, hf, rfl⟩ := head_mem hfits.head
          have hmem := hfirst.frames_subset l f hf
          rw [frames_cleared] at hmem
          have hle := hsmallest l hl he f hmem
          have hroom := hfits.room
          rw [hA.options] at hroom
          omega
      obtain ⟨rfl, hall₁⟩ := hrestB.nothing fun l hl => hB ▸ (hall l hl).advance lane
      have htrace₂ : trace₂ = [] := by
        rcases hmore with hnil | ⟨-, hrounds⟩
        · exact hnil
        · exact hrounds.nothing hall₁
      rw [htrace₂, List.append_nil, List.append_nil]
      exact hfirst.eq_of_mem

end Calls

end passed

end Round

/-! ### Calls of a run -/

/-- The flush takes the loops over the lanes, and finds a frame of the lane that may be sent. -/
def SendQ.eligible (B : Build) (q : SendQ) (tick : ℤ) (lane : ℕ) : Bool :=
  q.scheduler.any fun s => (!s.useLegacy || !s.unreliable.isEmpty) &&
    (((q.prepared B tick).startRound s).head lane).isSome

/-- The flush transmits a frame of the lane. -/
def SendQ.transmits (B : Build) (q : SendQ) (tick : ℤ) (lane : ℕ) : Bool :=
  (q.flush B tick).1.frames.any fun f => q.laneOf f == lane

/-- The budget takes six datagrams, or the flush finds no frame of another lane that is smaller than
the next one of this lane. -/
def SendQ.Unhurried (B : Build) (q : SendQ) (tick : ℤ) (lane : ℕ) : Prop :=
  ∀ s size, q.scheduler = some s → ((q.prepared B tick).startRound s).head lane = some size →
    Round.Unhurried q.mtu lane size ((q.prepared B tick).startRound s)

/-- An operation that does not touch the scheduler's place: no flush, and no new options. -/
def Op.Between : Op → Prop
  | .flush _ => False
  | .setSendOptions _ => False
  | _ => True

/-- The lane that the next call begins with. -/
def SendQ.nextLane (q : SendQ) : Option ℕ := q.scheduler.map SendScheduler.nextLane

theorem nextLane_of_backlog {q q' : SendQ} (h : q'.backlog = q.backlog) :
    q'.nextLane = q.nextLane :=
  congrArg (Option.map SendScheduler.nextLane) (congrArg Backlog.scheduler h)

section calls

variable {B : Build} {mtu : Fin 65536} {ops : List Op} {s : SendScheduler} {lane size : ℕ}

theorem insertPayload_nextLane {q q' : SendQ} {m : Message} (h : q.insertPayload B m = .ok q') :
    q'.nextLane = q.nextLane := by
  refine (PushRule.of_key SendQ.nextLane (fun q frame => ?_) (fun _ _ => rfl) (fun _ _ => rfl)
    (fun _ _ => rfl) (fun _ _ => rfl) fun _ => rfl).insert (fun _ _ => rfl) h
  unfold SendQ.pushUnreliable
  simp only
  split_ifs
  · cases hs : q.scheduler <;> simp [SendQ.nextLane, hs]
  · rfl

/-- The other operations leave the place alone. -/
theorem step_nextLane {r : Run} {op : Op} (hop : op.Between) :
    (r.step B op).queue.nextLane = r.queue.nextLane := by
  cases op with
  | insert m => exact Run.insert_cases (fun q hq => insertPayload_nextLane hq) rfl
  | flush tick | setSendOptions options => exact hop.elim
  | _ => exact nextLane_of_backlog (step_backlog trivial (by simp))

theorem between_nextLane (ops : List Op) : ∀ {between : List Op}, (∀ op ∈ between, op.Between) →
    (run B mtu (ops ++ between)).queue.nextLane = (run B mtu ops).queue.nextLane := by
  intro between hbetween
  induction between using List.reverseRecOn with
  | nil => rw [List.append_nil]
  | append_singleton between op ih =>
    rw [← List.append_assoc, run_append, step_nextLane (hbetween op (by simp))]
    exact ih fun op hop => hbetween op (List.mem_append_left _ hop)

theorem policy_takes_datagram (hs : (run B mtu ops).queue.scheduler = some s) :
    (mtu : ℕ) ≤ s.options.flushBytes ∧ (mtu : ℕ) ≤ s.options.inFlightBytes := by
  refine (policy_run B mtu
    (P := fun o => (mtu : ℕ) ≤ o.1.flushBytes ∧ (mtu : ℕ) ≤ o.1.inFlightBytes)
    (fun {q q' options} hq hset o ho => ?_) ops).2 (s.options, s.useLegacy) ?_
  · obtain ⟨useLegacy, hgiven, -⟩ := setSendOptions_given hset
    unfold SendQ.setSendOptions at hset
    obtain ⟨hguard, -⟩ := guard_eq_ok.mp hset
    rw [hgiven] at ho
    obtain rfl := Option.some.inj ho
    rw [hq] at hguard
    simp only
    omega
  · show (run B mtu ops).queue.scheduler.map _ = _
    rw [hs]
    rfl

theorem calls_run (hs : (run B mtu ops).queue.scheduler = some s) (tick : ℤ) (hlane : lane < 3)
    (hhead : (((run B mtu ops).queue.prepared B tick).startRound s).head lane = some size) :
    Round.Calls mtu lane size (((run B mtu ops).queue.prepared B tick).startRound s) := by
  obtain ⟨hunreliable, hpackets, hflight⟩ := found_sized hs tick
  have hsized : ∀ l, ∀ f ∈ (((run B mtu ops).queue.prepared B tick).startRound s).frames l,
      f.size ≤ (mtu : ℕ) ∧ 60 < (mtu : ℕ) := by
    intro l f hf
    match l with
    | 0 => exact (hunreliable f hf).2
    | 1 =>
      obtain ⟨p, hp, rfl⟩ := List.mem_map.mp hf
      exact (hflight p (List.mem_filter.mp hp).1).2
    | n + 2 => exact (hpackets f hf).2
  obtain ⟨f, hf, -⟩ := Round.head_mem hhead
  exact ⟨hlane, hhead, rfl, fun l f hf => (hsized l f hf).1, (policy_takes_datagram hs).1, by
    have := (hsized lane f hf).2
    omega⟩

/-- What a call that passes an eligible class over does to its place: the class did not come first;
and if it came second, it comes first in the next call. -/
theorem passed_over {tick : ℤ} (hlane : lane < 3)
    (heligible : (run B mtu ops).queue.eligible B tick lane = true)
    (hunhurried : (run B mtu ops).queue.Unhurried B tick lane)
    (hpassed : (run B mtu ops).queue.transmits B tick lane = false) :
    ∃ next next', next < 3 ∧ (run B mtu ops).queue.nextLane = some next ∧ next ≠ lane ∧
      (run B mtu (ops ++ [.flush tick])).queue.nextLane = some next' ∧
      (∃ last < 3, last ≠ lane ∧ next' = (last + 1) % 3) ∧
      ((next + 1) % 3 = lane → next' = lane) := by
  obtain ⟨s, hs, hfound⟩ := (Option.any_eq_true _ _).mp heligible
  obtain ⟨hpath, hhead⟩ := Bool.and_eq_true_iff.mp hfound
  obtain ⟨size, hhead⟩ := Option.isSome_iff_exists.mp hhead
  have hcall := calls_run hs tick hlane hhead
  obtain ⟨trace, r, emitted, launched, hrun, hflush, hfilled⟩ := filled_run hs hpath tick
  have hspec := hfilled.spec hs hrun
  -- the lanes that the loops served are those of the output
  have hmissing : lane ∉ trace := by
    intro hmem
    rw [← hfilled.lanes] at hmem
    obtain ⟨f, hf, hof⟩ := List.mem_map.mp hmem
    rw [laneOf_congr fun b => (prepared_bodies _ tick).mem_iff] at hof
    have hout : f ∈ ((run B mtu ops).queue.flush B tick).1.frames := by rw [hflush]; exact hf
    exact absurd (List.any_eq_false.mp hpassed f hout) (by simp [hof])
  obtain ⟨last, hlast, hne, hnext⟩ := hcall.nextLane hrun hmissing
  refine ⟨s.nextLane, r.scheduler.nextLane, ((run_steps B mtu ops).1.scheduled s hs).2.2.1, ?_,
    fun hfirst => hmissing (hcall.first hrun hfirst), ?_, ⟨last, hlast, hne, hnext⟩, fun hsecond => ?_⟩
  · unfold SendQ.nextLane
    rw [hs]
    rfl
  · rw [run_append]
    show ((run B mtu ops).queue.flush B tick).2.scheduler.map _ = _
    rw [hflush, hspec.scheduler]
    rfl
  · refine hcall.second ?_ hrun hsecond hmissing
    have := hunhurried s size hs hhead
    rwa [(legacy_room B mtu ops).1] at this

end calls

/-- **No class is bypassed** in three calls in a row in which it has a frame to send, as long as the
budget takes six datagrams or no other class has a smaller frame. Between the calls there may be any
operations but a flush or new options. -/
theorem no_class_bypassed (B : Build) (mtu : Fin 65536) (ops between between' : List Op)
    (tick tick' tick'' : ℤ) (lane : ℕ) (hlane : lane < 3)
    (hbetween : ∀ op ∈ between ++ between', op.Between) :
    let q := (run B mtu ops).queue
    let q' := (run B mtu (ops ++ [.flush tick] ++ between)).queue
    let q'' := (run B mtu (ops ++ [.flush tick] ++ between ++ [.flush tick'] ++ between')).queue
    q.eligible B tick lane = true → q'.eligible B tick' lane = true →
    q''.eligible B tick'' lane = true →
    q.Unhurried B tick lane → q'.Unhurried B tick' lane → q''.Unhurried B tick'' lane →
    q.transmits B tick lane = true ∨ q'.transmits B tick' lane = true ∨
      q''.transmits B tick'' lane = true := by
  intro q q' q'' h h' h'' hcalm hcalm' hcalm''
  by_contra hnone
  simp only [not_or, Bool.not_eq_true] at hnone
  obtain ⟨n₁, n₂, hn₁, hnext₁, hne₁, hnext₂, ⟨last, hlast, hother, htwo⟩, hsecond⟩ :=
    passed_over hlane h hcalm hnone.1
  obtain ⟨m₂, n₃, hn₂, hnext₂', hne₂, hnext₃, -, hsecond'⟩ :=
    passed_over hlane h' hcalm' hnone.2.1
  obtain ⟨m₃, n₄, hn₃, hnext₃', hne₃, -⟩ := passed_over hlane h'' hcalm'' hnone.2.2
  -- the place does not move between the calls
  rw [between_nextLane _ fun op hop => hbetween op (List.mem_append_left _ hop), hnext₂] at hnext₂'
  rw [between_nextLane _ fun op hop => hbetween op (List.mem_append_right _ hop), hnext₃] at hnext₃'
  obtain rfl := Option.some.inj hnext₂'
  obtain rfl := Option.some.inj hnext₃'
  -- from distance two to one or zero, and from one to zero
  omega

/-- Limits for a burst of eleven full datagrams, and a new reliable message. -/
def steadyOps : List Op :=
  [.setSendOptions { SendOptions.default with flushBytes := 16384 },
    .insert ⟨.reliable, primaryChannel, [0xfe], true⟩]

/-- A class that has a frame in each of three calls. -/
theorem no_class_bypassed_steady :
    let B := Build.insertion true false
    let more : List Op := [.insert ⟨.reliable, primaryChannel, [0xfe], true⟩]
    let q := (run B 1400 steadyOps).queue
    let q' := (run B 1400 (steadyOps ++ [.flush 1] ++ more)).queue
    let q'' := (run B 1400 (steadyOps ++ [.flush 1] ++ more ++ [.flush 2] ++ more)).queue
    (q.eligible B 1 2 = true ∧ q'.eligible B 2 2 = true ∧ q''.eligible B 3 2 = true) ∧
    (q.transmits B 1 2 = true ∨ q'.transmits B 2 2 = true ∨ q''.transmits B 3 2 = true) := by
  intro B more q q' q''
  have hcalm : ∀ (x : SendQ) (tick : ℤ), x.mtu = 1400 →
      (x.scheduler.map fun s => s.options.flushBytes) = some 16384 → x.Unhurried B tick 2 := by
    intro x tick hmtu hbudget s size hs _
    rw [hs] at hbudget
    have hflush : s.options.flushBytes = 16384 := Option.some.inj hbudget
    refine .inl ?_
    show 6 * (x.mtu : ℕ) ≤ s.options.flushBytes
    rw [hmtu, hflush]
    decide
  have heligible : q.eligible B 1 2 = true ∧ q'.eligible B 2 2 = true ∧
      q''.eligible B 3 2 = true := by decide +kernel
  exact ⟨heligible, no_class_bypassed B 1400 steadyOps more more 1 2 3 2 (by decide)
    (fun op hop => by
      rcases List.mem_append.mp hop with hop | hop <;>
        exact List.mem_singleton.mp hop ▸ trivial)
    heligible.1 heligible.2.1 heligible.2.2
    (hcalm q 1 (by decide +kernel) (by decide +kernel))
    (hcalm q' 2 (by decide +kernel) (by decide +kernel))
    (hcalm q'' 3 (by decide +kernel) (by decide +kernel))⟩

/-- A frame in flight that is lost again and again, a large new one and small unreliable ones, with a
budget of 2048 bytes. -/
def starvingOps : List Op :=
  [.setSendOptions narrowOptions, .insert ⟨.reliable, primaryChannel, List.replicate 1000 0, true⟩,
    .flush 0, .insert ⟨.unreliable, primaryChannel, [1], true⟩, .flush 1,
    .insert ⟨.reliable, primaryChannel, List.replicate 1300 2, true⟩, .nack 0 2,
    .insert ⟨.unreliable, primaryChannel, [1], true⟩]

/-- The frame is lost, and another unreliable one comes. -/
def lostAgain (sequence : ℕ) (tick : ℤ) : List Op :=
  [.nack sequence tick, .insert ⟨.unreliable, primaryChannel, [1], true⟩]

/-- **A class can starve.** In three calls in a row the new reliable frame may be sent, but the
retransmission comes before it and leaves no room for it, and the unreliable frame after it is smaller
and is sent, so the next call begins with the retransmission again. -/
theorem class_starves :
    let B := Build.insertion true false
    let q := (run B 1400 starvingOps).queue
    let q' := (run B 1400 (starvingOps ++ [.flush 3] ++ lostAgain 2 4)).queue
    let q'' := (run B 1400 (starvingOps ++ [.flush 3] ++ lostAgain 2 4 ++ [.flush 5] ++
      lostAgain 4 6)).queue
    q.eligible B 3 2 = true ∧ q'.eligible B 5 2 = true ∧ q''.eligible B 7 2 = true ∧
    q.transmits B 3 2 = false ∧ q'.transmits B 5 2 = false ∧ q''.transmits B 7 2 = false := by
  decide +kernel

end RustRaknet.Send
