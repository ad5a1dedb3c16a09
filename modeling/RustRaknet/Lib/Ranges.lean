import Mathlib.Tactic

/-! # Lists of closed ranges

A list of pairs `(start, end)` stands for the numbers between them, both ends included. `Covers l x`
says that `x` is one of them, and `Tidy bound l` that no range is empty, reaches beyond the bound or
overlaps another. `Removes` is the removal of one number: the range around it is cut in pieces. -/

namespace RustRaknet.Lib.Ranges

variable {l l' : List (ℕ × ℕ)} {r : ℕ × ℕ} {x bound : ℕ}

/-- The number is in one of the ranges. -/
def Covers (l : List (ℕ × ℕ)) (x : ℕ) : Prop := ∃ r ∈ l, r.1 ≤ x ∧ x ≤ r.2

@[simp] theorem covers_nil : ¬ Covers [] x := by simp [Covers]

@[simp] theorem covers_cons : Covers (r :: l) x ↔ (r.1 ≤ x ∧ x ≤ r.2) ∨ Covers l x := by
  simp [Covers]

@[simp] theorem covers_append : Covers (l ++ l') x ↔ Covers l x ∨ Covers l' x := by
  simp only [Covers, List.mem_append, or_and_right, exists_or]

theorem covers_singleton : Covers [r] x ↔ r.1 ≤ x ∧ x ≤ r.2 := by simp

/-- Two ranges without a common number. -/
def Apart (r r' : ℕ × ℕ) : Prop := r.2 < r'.1 ∨ r'.2 < r.1

theorem Apart.symm {r' : ℕ × ℕ} (h : Apart r r') : Apart r' r := Or.symm h

/-- One range is inside the other. -/
def Within (r' r : ℕ × ℕ) : Prop := r.1 ≤ r'.1 ∧ r'.2 ≤ r.2

theorem Apart.of_within {r' t : ℕ × ℕ} (h : Apart r t) (hsub : Within r' r) : Apart r' t := by
  unfold Apart Within at *
  omega

/-- No range is empty, beyond the bound or in another's way. -/
structure Tidy (bound : ℕ) (l : List (ℕ × ℕ)) : Prop where
  ordered : ∀ r ∈ l, r.1 ≤ r.2 ∧ r.2 ≤ bound
  apart : l.Pairwise Apart

theorem tidy_nil : Tidy bound [] := ⟨by simp, .nil⟩

theorem tidy_cons : Tidy bound (r :: l) ↔
    (r.1 ≤ r.2 ∧ r.2 ≤ bound) ∧ (∀ t ∈ l, Apart r t) ∧ Tidy bound l := by
  constructor
  · rintro ⟨hordered, hapart⟩
    rw [List.pairwise_cons] at hapart
    exact ⟨hordered r (by simp), hapart.1, ⟨fun t ht => hordered t (by simp [ht]), hapart.2⟩⟩
  · rintro ⟨hr, hapart, htidy⟩
    refine ⟨fun t ht => ?_, List.pairwise_cons.mpr ⟨hapart, htidy.apart⟩⟩
    rcases List.mem_cons.mp ht with rfl | ht
    · exact hr
    · exact htidy.ordered t ht

theorem Tidy.append (h : Tidy bound l) (h' : Tidy bound l')
    (hapart : ∀ x, Covers l x → ¬ Covers l' x) : Tidy bound (l ++ l') := by
  refine ⟨fun t ht => ?_, List.pairwise_append.mpr ⟨h.apart, h'.apart, ?_⟩⟩
  · rcases List.mem_append.mp ht with ht | ht
    · exact h.ordered t ht
    · exact h'.ordered t ht
  · intro r hr t ht
    by_contra hmeet
    -- the larger start is in both ranges
    have hr' := h.ordered r hr
    have ht' := h'.ordered t ht
    unfold Apart at hmeet
    exact hapart (max r.1 t.1) ⟨r, hr, by omega⟩ ⟨t, ht, by omega⟩

theorem Tidy.not_covers (h : Tidy bound (r :: l)) (hx : r.1 ≤ x ∧ x ≤ r.2) : ¬ Covers l x := by
  rintro ⟨t, ht, htx⟩
  have hapart := (tidy_cons.mp h).2.1 t ht
  unfold Apart at hapart
  omega

theorem Tidy.perm (h : Tidy bound l) (hp : l.Perm l') : Tidy bound l' :=
  ⟨fun t ht => h.ordered t (hp.mem_iff.mpr ht), h.apart.perm hp Apart.symm⟩

theorem covers_perm (hp : l.Perm l') : Covers l x ↔ Covers l' x := by
  simp only [Covers, hp.mem_iff]

theorem Tidy.replace {p : List (ℕ × ℕ)} (h : Tidy bound (r :: l)) (hp : Tidy bound p)
    (hin : ∀ r' ∈ p, Within r' r) (htidy : Tidy bound l')
    (hsub : ∀ t' ∈ l', ∃ t ∈ l, Within t' t) : Tidy bound (p ++ l') := by
  obtain ⟨-, hapart, -⟩ := tidy_cons.mp h
  refine ⟨fun t ht => ?_, List.pairwise_append.mpr ⟨hp.apart, htidy.apart, ?_⟩⟩
  · rcases List.mem_append.mp ht with ht | ht
    · exact hp.ordered t ht
    · exact htidy.ordered t ht
  · intro r' hr' t' ht'
    obtain ⟨t, ht, htt⟩ := hsub t' ht'
    have hfirst : Apart r' t := (hapart t ht).of_within (hin r' hr')
    exact (hfirst.symm.of_within htt).symm

/-! ### Taking out one number -/

/-- What is left of a range without one of its numbers. -/
def cut (s : ℕ) (r : ℕ × ℕ) : List (ℕ × ℕ) :=
  (if r.1 < s then [(r.1, s - 1)] else []) ++ if s < r.2 then [(s + 1, r.2)] else []

/-- The list `l'` is what is left of `l` without the number `s`. -/
structure Removes (bound s : ℕ) (l l' : List (ℕ × ℕ)) : Prop where
  tidy : Tidy bound l'
  within : ∀ r' ∈ l', ∃ r ∈ l, Within r' r
  covers : ∀ x, Covers l' x ↔ Covers l x ∧ x ≠ s

theorem Removes.perm {s : ℕ} {l'' : List (ℕ × ℕ)} (h : Removes bound s l l')
    (hp : l'.Perm l'') : Removes bound s l l'' where
  tidy := h.tidy.perm hp
  within r' hr' := h.within r' (hp.mem_iff.mpr hr')
  covers x := (covers_perm hp).symm.trans (h.covers x)

theorem removes_cut {s : ℕ} (hin : r.1 ≤ s ∧ s ≤ r.2) (hr : r.2 ≤ bound) :
    Removes bound s [r] (cut s r) := by
  unfold cut
  constructor
  · refine ⟨fun t ht => ?_, ?_⟩
    · split_ifs at ht <;> simp at ht <;> grind
    · split_ifs <;> simp [Apart]
  · intro r' hr'
    refine ⟨r, by simp, ?_⟩
    unfold Within
    split_ifs at hr' <;> simp at hr' <;> grind
  · intro x
    split_ifs <;> simp <;> omega

theorem Tidy.removes_head {s : ℕ} (h : Tidy bound (r :: l)) (hin : r.1 ≤ s ∧ s ≤ r.2) :
    Removes bound s (r :: l) (cut s r ++ l) := by
  obtain ⟨⟨-, hr⟩, -, htidy⟩ := tidy_cons.mp h
  have hcut := removes_cut hin hr
  have hwithin : ∀ r' ∈ cut s r, Within r' r := fun r' hr' => by
    obtain ⟨t, ht, htt⟩ := hcut.within r' hr'
    rwa [List.mem_singleton.mp ht] at htt
  refine ⟨h.replace hcut.tidy hwithin htidy fun t ht => ⟨t, ht, le_rfl, le_rfl⟩, ?_, fun x => ?_⟩
  · intro r' hr'
    rcases List.mem_append.mp hr' with hr' | hr'
    · exact ⟨r, by simp, hwithin r' hr'⟩
    · exact ⟨r', by simp [hr'], le_rfl, le_rfl⟩
  · rw [covers_append, hcut.covers x, covers_singleton, covers_cons]
    have hrest : Covers l x → x ≠ s := fun hx hxs => h.not_covers hin (hxs ▸ hx)
    tauto

theorem Tidy.removes_tail {s : ℕ} (h : Tidy bound (r :: l)) (hout : ¬ (r.1 ≤ s ∧ s ≤ r.2))
    (hl : Removes bound s l l') : Removes bound s (r :: l) (r :: l') := by
  obtain ⟨hr, -, -⟩ := tidy_cons.mp h
  have hone : Tidy bound [r] := ⟨by simpa using hr, by simp⟩
  refine ⟨h.replace hone (by simp [Within]) hl.tidy hl.within, ?_, fun x => ?_⟩
  · intro r' hr'
    rcases List.mem_cons.mp hr' with rfl | hr'
    · exact ⟨r', by simp, le_rfl, le_rfl⟩
    · obtain ⟨t, ht, htt⟩ := hl.within r' hr'
      exact ⟨t, by simp [ht], htt⟩
  · rw [covers_cons, covers_cons, hl.covers x]
    have hfirst : r.1 ≤ x ∧ x ≤ r.2 → x ≠ s := fun hx hxs => hout (hxs ▸ hx)
    tauto

theorem Tidy.removes_none {s : ℕ} (h : Tidy bound l) (hs : ¬ Covers l s) :
    Removes bound s l l where
  tidy := h
  within r' hr' := ⟨r', hr', le_rfl, le_rfl⟩
  covers _ := ⟨fun hx => ⟨hx, fun hxs => hs (hxs ▸ hx)⟩, And.left⟩

end RustRaknet.Lib.Ranges
