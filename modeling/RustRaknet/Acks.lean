import RustRaknet.Indexes
import RustRaknet.Lib.Machine
import RustRaknet.Lib.Ranges

/-! # What the acknowledgement set keeps

`arq.rs`: `ACKSet` over any sequence of insertions and takes. Both of its lists of ranges stand for
a set of datagram numbers that can be said without ranges.

* `nack_exact`: the missing ranges are the numbers that were skipped since the last take and have
  not come in since, as long as fewer than a whole turn of numbers goes by between two takes.
* `covers_ack_run`: the ranges to acknowledge are the numbers inserted since the last take.

`insertChecked` is the insertion with every addition and subtraction of the source checked. -/

namespace RustRaknet.Indexes

open RustRaknet.Sequence RustRaknet.Lib.Ranges RustRaknet.Lib.Machine RustRaknet.Lib.Serial

/-! ### Runs -/

/-- The calls of the receive queue on its set. -/
inductive AckOp
  | insert (s : ℕ)
  | takeAck
  | takeNack
  deriving DecidableEq, Repr

namespace AckSet

/-- The number is the expected one or newer. -/
def Arrives (c : AckSet) (s : ℕ) : Prop := s = c.nextExpected ∨ newer s c.nextExpected = true

instance (c : AckSet) (s : ℕ) : Decidable (c.Arrives s) :=
  inferInstanceAs (Decidable (_ ∨ _))

/-- By how many positions an insertion moves the expected number on. -/
def advanceOf (c : AckSet) (s : ℕ) : ℕ :=
  if c.Arrives s then distance s c.nextExpected + 1 else 0

/-- The number is between the expected one and the arriving one. -/
def Skips (c : AckSet) (s x : ℕ) : Prop :=
  newer s c.nextExpected = true ∧ x < 16777216 ∧
    distance x c.nextExpected < distance s c.nextExpected

end AckSet

/-- A set and by how many positions it has moved on since the missing ranges were last taken. -/
structure Tracker where
  set : AckSet
  advanced : ℕ
  deriving DecidableEq, Repr

/-- One call. -/
def Tracker.step (t : Tracker) : AckOp → Tracker
  | .insert s => ⟨t.set.insert s, t.advanced + t.set.advanceOf s⟩
  | .takeAck => { t with set := t.set.takeAckInto.2 }
  | .takeNack => ⟨t.set.takeNackInto.2, 0⟩

/-- The set after the given calls. -/
abbrev runAcks (ops : List AckOp) : Tracker := run Tracker.step ⟨.empty, 0⟩ ops

theorem runAcks_snoc (ops : List AckOp) (op : AckOp) :
    runAcks (ops ++ [op]) = (runAcks ops).step op :=
  run_append _ _ _ _

/-- The calls are for 24-bit numbers. -/
def AckOp.Valid : AckOp → Prop
  | insert s => s < 16777216
  | _ => True

instance : DecidablePred AckOp.Valid
  | .insert s => inferInstanceAs (Decidable (s < 16777216))
  | .takeAck => .isTrue trivial
  | .takeNack => .isTrue trivial

/-- A call is for a 24-bit number, and the set stays less than a turn from the last take. -/
def Tracker.Paced (t : Tracker) (op : AckOp) : Prop :=
  op.Valid ∧ (t.step op).advanced < 16777216

instance (t : Tracker) (op : AckOp) : Decidable (t.Paced op) :=
  inferInstanceAs (Decidable (_ ∧ _))

/-- Some call skipped the number, and since then it was neither inserted nor taken. -/
def Missing (ops : List AckOp) (x : ℕ) : Prop :=
  ∃ before s after, ops = before ++ .insert s :: after ∧ .takeNack ∉ after ∧ .insert x ∉ after ∧
    (runAcks before).set.Skips s x

/-- The number was inserted since the last take. -/
def Inserted (ops : List AckOp) (x : ℕ) : Prop :=
  ∃ before after, ops = before ++ .insert x :: after ∧ .takeAck ∉ after

/-! ### Taking a number out of the missing ranges -/

section retain

variable {s x bound : ℕ} {l : List (ℕ × ℕ)}

theorem retainNack_of_not_covers (h : ¬ Covers l s) : AckSet.retainNack s l = (l, none) := by
  induction l with
  | nil => rfl
  | cons r l ih =>
    obtain ⟨a, b⟩ := r
    rw [covers_cons, not_or] at h
    have hout : s < a ∨ b < s := by
      have := h.1
      simp only [not_and, not_le] at this
      omega
    simp [AckSet.retainNack, ih h.2, hout]

/-- **The `retain_mut` takes one number out** of the missing ranges. -/
theorem retainNack_removes (h : Tidy bound l) :
    Removes bound s l ((AckSet.retainNack s l).1 ++ (AckSet.retainNack s l).2.toList) := by
  induction l with
  | nil => exact h.removes_none covers_nil
  | cons r l ih =>
    obtain ⟨a, b⟩ := r
    by_cases hout : s < a ∨ b < s
    · have heq : AckSet.retainNack s ((a, b) :: l) =
          ((a, b) :: (AckSet.retainNack s l).1, (AckSet.retainNack s l).2) := by
        simp [AckSet.retainNack, hout]
      rw [heq]
      exact h.removes_tail (by dsimp only; omega) (ih (tidy_cons.mp h).2.2)
    · -- the number is in the first range, so the others stay as they are
      have hin : a ≤ s ∧ s ≤ b := by omega
      have hkeep := retainNack_of_not_covers (h.not_covers hin)
      refine (h.removes_head hin).perm ?_
      simp only [AckSet.retainNack, hkeep, if_neg hout, cut]
      by_cases hone : a = b
      · rw [if_pos hone, if_neg (by omega), if_neg (by omega)]
        simp
      · rw [if_neg hone]
        by_cases hstart : s = a
        · rw [if_pos hstart, if_neg (by omega), if_pos (by omega), hstart]
          simp
        · rw [if_neg hstart, if_pos (by omega)]
          by_cases hend : s = b
          · rw [if_pos hend, if_neg (by omega), hend]
            simp
          · rw [if_neg hend, if_pos (by omega)]
            have hswap : ([(s + 1, b)] ++ l).Perm (l ++ [(s + 1, b)]) := List.perm_append_comm
            simpa using hswap.cons (a, s - 1)

end retain

/-! ### The ranges that an arrival skips -/

section skipped

variable {e s x : ℕ}

theorem distance_eq_ite (hs : s < 16777216) (he : e < 16777216) :
    distance s e = if e ≤ s then s - e else s + 16777216 - e := by
  rw [distance_eq, sdist]
  split_ifs <;> omega

theorem covers_skipped (he : e < 16777216) (hs : s < 16777216) :
    Covers (AckSet.skipped e s) x ↔ x < 16777216 ∧ distance x e < distance s e := by
  have hx : x < 16777216 → distance x e = if e ≤ x then x - e else x + 16777216 - e := fun hx =>
    distance_eq_ite hx he
  rw [distance_eq_ite hs he]
  unfold AckSet.skipped mask
  by_cases hlt : x < 16777216
  · rw [hx hlt]
    split_ifs <;> simp <;> omega
  · split_ifs <;> simp <;> omega

theorem tidy_skipped (he : e < 16777216) (hs : s < 16777216) :
    Tidy mask (AckSet.skipped e s) := by
  unfold AckSet.skipped mask
  split_ifs
  · exact tidy_nil
  · exact ⟨by simp; omega, by simp⟩
  · exact ⟨by simp; omega, by simp [Apart]; omega⟩
  · exact ⟨by simp; omega, by simp⟩

theorem distance_next_behind (he : e < 16777216) (hs : s < 16777216) (hx : x < 16777216)
    (hsum : distance e x + (distance s e + 1) < 16777216) :
    distance (next s) x = distance e x + (distance s e + 1) := by
  rw [next_eq, distance_eq_ite (Nat.mod_lt _ (by norm_num)) hx]
  rw [distance_eq_ite he hx, distance_eq_ite hs he] at hsum ⊢
  split_ifs at hsum ⊢ <;> omega

theorem distance_next_skipped (he : e < 16777216) (hs : s < 16777216) (hx : x < 16777216)
    (hhalf : distance s e < 8388608) (hskip : distance x e < distance s e) :
    0 < distance (next s) x ∧ distance (next s) x ≤ distance s e + 1 := by
  rw [next_eq, distance_eq_ite (Nat.mod_lt _ (by norm_num)) hx]
  rw [distance_eq_ite hx he] at hskip
  rw [distance_eq_ite hs he] at hskip hhalf ⊢
  split_ifs at hskip hhalf ⊢ <;> omega

end skipped

/-! ### What holds in every run -/

section run

variable {t : Tracker} {op : AckOp} {ops : List AckOp} {s x : ℕ}

/-- The missing ranges are tidy, and all their numbers are among those passed since the last
take. -/
structure Tracked (t : Tracker) : Prop where
  tidy : Tidy mask t.set.nack
  next_lt : t.set.nextExpected < 16777216
  passed : ∀ x, Covers t.set.nack x →
    0 < distance t.set.nextExpected x ∧ distance t.set.nextExpected x ≤ t.advanced

theorem Tracked.lt (h : Tracked t) (hx : Covers t.set.nack x) : x < 16777216 := by
  obtain ⟨r, hr, -, hle⟩ := hx
  have := (h.tidy.ordered r hr).2
  unfold mask at this
  omega

theorem insert_nack (t : AckSet) (s : ℕ) :
    (t.insert s).nack = (AckSet.retainNack s t.nack).1 ++ (AckSet.retainNack s t.nack).2.toList ++
        (if t.Arrives s then AckSet.skipped t.nextExpected s else []) ∧
      (t.insert s).nextExpected = if t.Arrives s then next s else t.nextExpected := by
  unfold AckSet.insert
  by_cases h : t.Arrives s
  · rw [if_pos h, if_pos h]
    have h' : s = t.nextExpected ∨ newer s t.nextExpected = true := h
    simp [h']
  · rw [if_neg h, if_neg h]
    have h' : ¬ (s = t.nextExpected ∨ newer s t.nextExpected = true) := h
    simp [h']

theorem distance_of_arrives (h : t.set.Arrives s) : distance s t.set.nextExpected < 8388608 := by
  rcases h with rfl | h
  · rw [distance_self]
    norm_num
  · exact ((newer_iff _ _).mp h).2

/-- **Which numbers are missing after an insertion**: those that were, without the one inserted, and
those that it skips. -/
theorem Tracked.covers_insert (h : Tracked t) (hs : s < 16777216) :
    Covers (t.set.insert s).nack x ↔ (Covers t.set.nack x ∧ x ≠ s) ∨ t.set.Skips s x := by
  rw [(insert_nack t.set s).1, covers_append, (retainNack_removes h.tidy).covers x]
  refine or_congr_right ?_
  unfold AckSet.Skips
  by_cases harrives : t.set.Arrives s
  · rw [if_pos harrives, covers_skipped h.next_lt hs]
    rcases harrives with rfl | hnewer
    · simp [distance_self]
    · simp [hnewer]
  · rw [if_neg harrives]
    have hold : ¬ newer s t.set.nextExpected = true := fun hn => harrives (.inr hn)
    simp [hold]

theorem Tracked.insert (h : Tracked t) (hs : s < 16777216)
    (hpace : t.advanced + t.set.advanceOf s < 16777216) :
    Tracked ⟨t.set.insert s, t.advanced + t.set.advanceOf s⟩ := by
  have hremoves := retainNack_removes (s := s) h.tidy
  have hcovers := fun x => h.covers_insert (x := x) hs
  obtain ⟨hnack, hnext⟩ := insert_nack t.set s
  by_cases harrives : t.set.Arrives s
  · have hhalf := distance_of_arrives harrives
    have hadvance : t.set.advanceOf s = distance s t.set.nextExpected + 1 := if_pos harrives
    rw [if_pos harrives] at hnack hnext
    rw [hadvance] at hpace ⊢
    have hlt := h.next_lt
    refine ⟨?_, ?_, fun x hx => ?_⟩
    · show Tidy mask (t.set.insert s).nack
      rw [hnack]
      refine hremoves.tidy.append (tidy_skipped hlt hs) fun x hx hx' => ?_
      -- an old number is further behind the new expected one than any that is skipped
      have hold := ((hremoves.covers x).mp hx).1
      have hpassed := h.passed x hold
      have hbehind := distance_next_behind hlt hs (h.lt hold) (by omega)
      obtain ⟨hxlt, hskip⟩ := (covers_skipped hlt hs).mp hx'
      have hnear := distance_next_skipped hlt hs hxlt hhalf hskip
      omega
    · show (t.set.insert s).nextExpected < 16777216
      rw [hnext]
      exact Sequence.next_lt s
    · show 0 < distance (t.set.insert s).nextExpected x ∧
        distance (t.set.insert s).nextExpected x ≤
          t.advanced + (distance s t.set.nextExpected + 1)
      rw [hnext]
      rcases (hcovers x).mp hx with ⟨hold, -⟩ | ⟨-, hxlt, hskip⟩
      · have hpassed := h.passed x hold
        have hbehind := distance_next_behind hlt hs (h.lt hold) (by omega)
        omega
      · have hnear := distance_next_skipped hlt hs hxlt hhalf hskip
        omega
  · have hadvance : t.set.advanceOf s = 0 := if_neg harrives
    rw [if_neg harrives] at hnack hnext
    rw [List.append_nil] at hnack
    rw [hadvance, Nat.add_zero]
    refine ⟨?_, ?_, fun x hx => ?_⟩
    · show Tidy mask (t.set.insert s).nack
      rw [hnack]
      exact hremoves.tidy
    · show (t.set.insert s).nextExpected < 16777216
      rw [hnext]
      exact h.next_lt
    · show 0 < distance (t.set.insert s).nextExpected x ∧
        distance (t.set.insert s).nextExpected x ≤ t.advanced
      have hx' : Covers (t.set.insert s).nack x := hx
      rw [hnack, hremoves.covers x] at hx'
      rw [hnext]
      exact h.passed x hx'.1

theorem Tracked.step (h : Tracked t) (hop : t.Paced op) : Tracked (t.step op) := by
  cases op with
  | insert s => exact h.insert hop.1 hop.2
  | takeAck => exact { h with }
  | takeNack => exact ⟨tidy_nil, h.next_lt, fun x hx => absurd hx covers_nil⟩

theorem tracked_run (h : Always Tracker.step ⟨.empty, 0⟩ Tracker.Paced ops) :
    Tracked (runAcks ops) :=
  run_invariant_of ⟨tidy_nil, by decide, fun _ hx => absurd hx covers_nil⟩
    (fun _ _ ht hop => ht.step hop) h

theorem missing_insert : Missing (ops ++ [.insert s]) x ↔
    (Missing ops x ∧ x ≠ s) ∨ (runAcks ops).set.Skips s x := by
  constructor
  · rintro ⟨before, s', after, hsplit, htake, hinsert, hskip⟩
    rcases snoc_eq_split.mp hsplit with ⟨rfl, hs, -⟩ | ⟨after', rfl, hold⟩
    · obtain rfl := AckOp.insert.inj hs
      exact .inr hskip
    · simp only [List.mem_append, List.mem_singleton, not_or, AckOp.insert.injEq] at htake hinsert
      exact .inl ⟨⟨before, s', after', hold, htake.1, hinsert.1, hskip⟩, hinsert.2⟩
  · rintro (⟨⟨before, s', after, rfl, htake, hinsert, hskip⟩, hne⟩ | hskip)
    · refine ⟨before, s', after ++ [.insert s], by simp, by simp [htake], ?_, hskip⟩
      simp [hinsert, hne]
    · exact ⟨ops, s, [], rfl, by simp, by simp, hskip⟩

theorem missing_takeAck : Missing (ops ++ [.takeAck]) x ↔ Missing ops x := by
  constructor
  · rintro ⟨before, s', after, hsplit, htake, hinsert, hskip⟩
    rcases snoc_eq_split.mp hsplit with ⟨-, hs, -⟩ | ⟨after', rfl, hold⟩
    · exact absurd hs (by simp)
    · simp only [List.mem_append, not_or] at htake hinsert
      exact ⟨before, s', after', hold, htake.1, hinsert.1, hskip⟩
  · rintro ⟨before, s', after, rfl, htake, hinsert, hskip⟩
    exact ⟨before, s', after ++ [.takeAck], by simp, by simp [htake], by simp [hinsert], hskip⟩

theorem not_missing_takeNack : ¬ Missing (ops ++ [.takeNack]) x := by
  rintro ⟨before, s', after, hsplit, htake, -, -⟩
  rcases snoc_eq_split.mp hsplit with ⟨-, hs, -⟩ | ⟨after', rfl, -⟩
  · exact absurd hs (by simp)
  · simp at htake

theorem covers_nack_run (h : Always Tracker.step ⟨.empty, 0⟩ Tracker.Paced ops) (x : ℕ) :
    Covers (runAcks ops).set.nack x ↔ Missing ops x := by
  induction ops using List.reverseRecOn with
  | nil =>
    refine ⟨fun hx => absurd hx covers_nil, ?_⟩
    rintro ⟨before, s', after, hsplit, -⟩
    exact absurd hsplit (by simp)
  | append_singleton ops op ih =>
    obtain ⟨hinit, hop⟩ := h.init
    rw [runAcks_snoc]
    cases op with
    | insert s =>
      rw [missing_insert, ← ih hinit]
      exact (tracked_run hinit).covers_insert hop.1
    | takeAck => exact (ih hinit).trans missing_takeAck.symm
    | takeNack => exact ⟨fun hx => absurd hx covers_nil, fun hx => absurd hx not_missing_takeNack⟩

end run

/-! ### Checked arithmetic -/

/-- `u32` addition that does not wrap. -/
def checkedAdd (a b : ℕ) : Option ℕ := if a + b < 4294967296 then some (a + b) else none

/-- `u32` subtraction that does not wrap. -/
def checkedSub (a b : ℕ) : Option ℕ := if b ≤ a then some (a - b) else none

namespace AckSet

/-- `retainNack` with checked arithmetic. -/
def retainNackChecked (s : ℕ) : List (ℕ × ℕ) → Option (List (ℕ × ℕ) × Option (ℕ × ℕ))
  | [] => some ([], none)
  | (a, b) :: l => do
    let (l', split) ← retainNackChecked s l
    if s < a ∨ b < s then some ((a, b) :: l', split)
    else if a = b then some (l', split)
    else if s = a then do
      let start ← checkedAdd a 1
      some ((start, b) :: l', split)
    else if s = b then do
      let stop ← checkedSub b 1
      some ((a, stop) :: l', split)
    else do
      let start ← checkedAdd s 1
      let stop ← checkedSub s 1
      some ((a, stop) :: l', split.or (some (start, b)))

/-- `skipped` with checked arithmetic. -/
def skippedChecked (nextExpected s : ℕ) : Option (List (ℕ × ℕ)) :=
  if s = nextExpected then some []
  else if nextExpected < s then do
    let stop ← checkedSub s 1
    some [(nextExpected, stop)]
  else if s ≠ 0 then do
    let stop ← checkedSub s 1
    some [(nextExpected, mask), (0, stop)]
  else some [(nextExpected, mask)]

/-- `insert` with checked arithmetic on the missing ranges. The ranges to acknowledge use a
subtraction that is guarded and an addition that saturates. -/
def insertChecked (c : AckSet) (s : ℕ) : Option AckSet := do
  let (nack, split) ← retainNackChecked s c.nack
  let nack := nack ++ split.toList
  let ack := insertAck s c.ack
  if s = c.nextExpected ∨ newer s c.nextExpected then do
    let skipped ← skippedChecked c.nextExpected s
    some { ack, nack := nack ++ skipped, nextExpected := next s }
  else some { ack, nack, nextExpected := c.nextExpected }

theorem retainNackChecked_eq {s bound : ℕ} (hs : s < 16777216) {l : List (ℕ × ℕ)}
    (h : Tidy bound l) : retainNackChecked s l = some (retainNack s l) := by
  induction l with
  | nil => rfl
  | cons r l ih =>
    obtain ⟨a, b⟩ := r
    obtain ⟨⟨hab, -⟩, -, htidy⟩ := tidy_cons.mp h
    simp only [retainNackChecked, retainNack, ih htidy, Option.bind_eq_bind, Option.bind_some]
    by_cases hout : s < a ∨ b < s
    · rw [if_pos hout, if_pos hout]
    · rw [if_neg hout, if_neg hout]
      have hadd : ∀ v ≤ s, checkedAdd v 1 = some (v + 1) := fun v hv => if_pos (by omega)
      have hsub : ∀ v, a < v → checkedSub v 1 = some (v - 1) := fun v hv => if_pos (by omega)
      by_cases hone : a = b
      · rw [if_pos hone, if_pos hone]
      · rw [if_neg hone, if_neg hone]
        by_cases hstart : s = a
        · rw [if_pos hstart, if_pos hstart, hadd a (by omega)]
          rfl
        · rw [if_neg hstart, if_neg hstart, hadd s le_rfl, hsub s (by omega), hsub b (by omega)]
          split_ifs <;> rfl

theorem skippedChecked_eq (e s : ℕ) : skippedChecked e s = some (skipped e s) := by
  have hsub : s ≠ 0 → checkedSub s 1 = some (s - 1) := fun h => if_pos (by omega)
  unfold skippedChecked skipped
  split_ifs with hsame hlt hzero
  · rfl
  · rw [hsub (by omega)]
    rfl
  · rw [hsub hzero]
    rfl
  · rfl

theorem insertChecked_eq {c : AckSet} {s bound : ℕ} (hs : s < 16777216) (h : Tidy bound c.nack) :
    c.insertChecked s = some (c.insert s) := by
  simp only [insertChecked, insert, retainNackChecked_eq hs h, skippedChecked_eq,
    Option.bind_eq_bind, Option.bind_some]
  split_ifs <;> rfl

end AckSet

/-- **Missing datagrams are tracked exactly.** In every run of insertions of 24-bit numbers and of
takes in which the expected number advances by less than a turn between two takes of the missing
ranges, these ranges are the numbers that were skipped since the last take and were not inserted
since; they are pairwise disjoint, not empty and of 24 bits, and no arithmetic of an insertion
overflows. -/
theorem nack_exact (ops : List AckOp)
    (h : Always Tracker.step ⟨.empty, 0⟩ Tracker.Paced ops) :
    (∀ x, Covers (runAcks ops).set.nack x ↔ Missing ops x) ∧
      Tidy mask (runAcks ops).set.nack ∧
      ∀ s < 16777216, (runAcks ops).set.insertChecked s = some ((runAcks ops).set.insert s) :=
  ⟨covers_nack_run h, (tracked_run h).tidy, fun _ hs =>
    AckSet.insertChecked_eq hs (tracked_run h).tidy⟩

/-- Numbers 0 and 4 arrive, then 2, which cuts the hole in two; after the take the numbers wrap. -/
def holedOps : List AckOp :=
  [.insert 0, .insert 4, .insert 2, .takeNack, .insert 6000000, .insert 12000000, .insert 16777214,
    .takeNack, .insert 1]

theorem nack_exact_holed :
    (runAcks (holedOps.take 3)).set.nack = [(1, 1), (3, 3)] ∧
      (runAcks holedOps).set.nack = [(16777215, 16777215), (0, 0)] ∧
      (∀ x, Covers (runAcks holedOps).set.nack x ↔ Missing holedOps x) ∧
      Tidy mask (runAcks holedOps).set.nack ∧
      ∀ s < 16777216, (runAcks holedOps).set.insertChecked s =
        some ((runAcks holedOps).set.insert s) :=
  ⟨by decide, by decide, nack_exact holedOps (by decide)⟩

/-! ### The ranges to acknowledge -/

section ack

variable {s x : ℕ} {l : List (ℕ × ℕ)} {ops : List AckOp}

/-- No range is empty or beyond 24 bits. They may overlap. -/
def Ordered (l : List (ℕ × ℕ)) : Prop := ∀ r ∈ l, r.1 ≤ r.2 ∧ r.2 ≤ mask

/-- **The loop over the ranges to acknowledge adds one number.** -/
theorem insertAck_spec (hs : s < 16777216) (h : Ordered l) :
    Ordered (AckSet.insertAck s l) ∧
      ∀ x, Covers (AckSet.insertAck s l) x ↔ Covers l x ∨ x = s := by
  induction l with
  | nil =>
    refine ⟨fun r hr => ?_, fun x => ?_⟩
    · rw [AckSet.insertAck, List.mem_singleton] at hr
      subst hr
      exact ⟨le_rfl, by unfold mask; dsimp only; omega⟩
    · simp only [AckSet.insertAck, covers_singleton, covers_nil, false_or]
      omega
  | cons r l ih =>
    obtain ⟨a, b⟩ := r
    obtain ⟨hab, hb⟩ := h (a, b) (by simp)
    have hrest : Ordered l := fun r hr => h r (by simp [hr])
    obtain ⟨ihordered, ihcovers⟩ := ih hrest
    have hreplace : ∀ a' b', a' ≤ b' → b' ≤ mask → Ordered ((a', b') :: l) := by
      intro a' b' hab' hb' r hr
      rcases List.mem_cons.mp hr with rfl | hr
      · exact ⟨hab', hb'⟩
      · exact hrest r hr
    dsimp only at hab hb
    unfold mask at hb hreplace
    unfold AckSet.insertAck
    split_ifs with hin hbefore hafter
    · refine ⟨h, fun x => ⟨.inl, ?_⟩⟩
      rintro (hx | rfl)
      · exact hx
      · exact covers_cons.mpr (.inl hin)
    · refine ⟨hreplace s b (by omega) hb, fun x => ?_⟩
      have hrange : s ≤ x ∧ x ≤ b ↔ (a ≤ x ∧ x ≤ b) ∨ x = s := by omega
      simp only [covers_cons, hrange]
      exact or_right_comm
    · have hnext : s = b + 1 := by omega
      refine ⟨hreplace a s (by omega) (by omega), fun x => ?_⟩
      have hrange : a ≤ x ∧ x ≤ s ↔ (a ≤ x ∧ x ≤ b) ∨ x = s := by omega
      simp only [covers_cons, hrange]
      exact or_right_comm
    · refine ⟨fun r hr => ?_, fun x => ?_⟩
      · rcases List.mem_cons.mp hr with rfl | hr
        · exact ⟨hab, by unfold mask; exact hb⟩
        · exact ihordered r hr
      · rw [covers_cons, covers_cons, ihcovers x, or_assoc]

/-- The calls are for 24-bit numbers. -/
def ValidOps (ops : List AckOp) : Prop := ∀ op ∈ ops, op.Valid

instance : DecidablePred ValidOps := fun ops => inferInstanceAs (Decidable (∀ op ∈ ops, op.Valid))

theorem inserted_insert : Inserted (ops ++ [.insert s]) x ↔ Inserted ops x ∨ x = s := by
  constructor
  · rintro ⟨before, after, hsplit, htake⟩
    rcases snoc_eq_split.mp hsplit with ⟨-, hs, -⟩ | ⟨after', rfl, hold⟩
    · exact .inr (AckOp.insert.inj hs)
    · simp only [List.mem_append, not_or] at htake
      exact .inl ⟨before, after', hold, htake.1⟩
  · rintro (⟨before, after, rfl, htake⟩ | rfl)
    · exact ⟨before, after ++ [.insert s], by simp, by simp [htake]⟩
    · exact ⟨ops, [], rfl, by simp⟩

theorem inserted_takeNack : Inserted (ops ++ [.takeNack]) x ↔ Inserted ops x := by
  constructor
  · rintro ⟨before, after, hsplit, htake⟩
    rcases snoc_eq_split.mp hsplit with ⟨-, hs, -⟩ | ⟨after', rfl, hold⟩
    · exact absurd hs (by simp)
    · simp only [List.mem_append, not_or] at htake
      exact ⟨before, after', hold, htake.1⟩
  · rintro ⟨before, after, rfl, htake⟩
    exact ⟨before, after ++ [.takeNack], by simp, by simp [htake]⟩

theorem not_inserted_takeAck : ¬ Inserted (ops ++ [.takeAck]) x := by
  rintro ⟨before, after, hsplit, htake⟩
  rcases snoc_eq_split.mp hsplit with ⟨-, hs, -⟩ | ⟨after', rfl, -⟩
  · exact absurd hs (by simp)
  · simp at htake

theorem insert_ack (c : AckSet) (s : ℕ) : (c.insert s).ack = AckSet.insertAck s c.ack := by
  unfold AckSet.insert
  simp only
  split_ifs <;> rfl

/-- **The ranges to acknowledge** are the numbers inserted since the last take. -/
theorem covers_ack_run (h : ValidOps ops) :
    Ordered (runAcks ops).set.ack ∧
      ∀ x, Covers (runAcks ops).set.ack x ↔ Inserted ops x := by
  induction ops using List.reverseRecOn with
  | nil =>
    refine ⟨fun r hr => absurd hr (by simp [AckSet.empty]), fun x => ?_⟩
    refine ⟨fun hx => absurd hx covers_nil, ?_⟩
    rintro ⟨before, after, hsplit, -⟩
    exact absurd hsplit (by simp)
  | append_singleton ops op ih =>
    obtain ⟨hordered, hcovers⟩ := ih fun op hop => h op (by simp [hop])
    have hop := h op (by simp)
    rw [runAcks_snoc]
    cases op with
    | insert s =>
      obtain ⟨hordered', hcovers'⟩ := insertAck_spec hop hordered
      have hack : ((runAcks ops).step (.insert s)).set.ack =
          AckSet.insertAck s (runAcks ops).set.ack := insert_ack _ s
      rw [hack]
      refine ⟨hordered', fun x => ?_⟩
      rw [hcovers' x, hcovers x, inserted_insert]
    | takeAck =>
      exact ⟨fun r hr => absurd hr (by simp [Tracker.step, AckSet.takeAckInto]), fun x =>
        ⟨fun hx => absurd hx covers_nil, fun hx => absurd hx not_inserted_takeAck⟩⟩
    | takeNack => exact ⟨hordered, fun x => (hcovers x).trans inserted_takeNack.symm⟩

end ack

end RustRaknet.Indexes
