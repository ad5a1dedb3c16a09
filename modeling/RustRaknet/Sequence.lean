import RustRaknet.Lib.Serial
import RustRaknet.Error

/-! # 24-bit serial numbers and the reliable window

`sequence.rs`: the arithmetic of RakNet's 24-bit serial numbers (held in a `u32`), and
`ReliableWindow`, the duplicate filter of the receiving side. The window keeps the next expected
number and the set of numbers received ahead of it.

`Tracks w A` says that the window `w` stands for the set `A` of *unbounded* numbers accepted so
far: `accept_seen`, `accept_far` and `accept_new` specify `accept` against it, for a number within
half a turn of the next expected one. -/

namespace RustRaknet.Sequence

open RustRaknet.Lib.Serial

/-! ### Serial arithmetic -/

/-- `u32::wrapping_add`. -/
def wrappingAdd (a b : ℕ) : ℕ := (a + b) % 4294967296

/-- `u32::wrapping_sub`. -/
def wrappingSub (a b : ℕ) : ℕ := (a + (4294967296 - b % 4294967296)) % 4294967296

/-- `MASK`. -/
def mask : ℕ := 0x00ffffff

/-- `HALF`. -/
def half : ℕ := 0x00800000

/-- `RECEIVE_WINDOW`. -/
def receiveWindow : ℕ := 65536

/-- `next`. -/
def next (value : ℕ) : ℕ := wrappingAdd value 1 &&& mask

/-- `distance`. -/
def distance (value base : ℕ) : ℕ := wrappingSub value base &&& mask

/-- `newer`. -/
def newer (value base : ℕ) : Bool :=
  let delta := distance value base
  delta != 0 && decide (delta < half)

theorem and_mask (v : ℕ) : v &&& mask = v % 16777216 :=
  Nat.and_two_pow_sub_one_eq_mod v 24

theorem next_eq (v : ℕ) : next v = (v + 1) % 16777216 := by
  unfold next wrappingAdd
  rw [and_mask]
  omega

theorem distance_eq (v b : ℕ) : distance v b = sdist 16777216 v b := by
  unfold distance wrappingSub sdist
  rw [and_mask]
  omega

theorem next_lt (v : ℕ) : next v < 16777216 := by rw [next_eq]; omega

theorem newer_iff (v b : ℕ) : newer v b = true ↔ distance v b ≠ 0 ∧ distance v b < 8388608 := by
  simp only [newer, Bool.and_eq_true, bne_iff_ne, ne_eq, decide_eq_true_eq]
  exact Iff.rfl

@[simp] theorem next_mod (x : ℕ) : next (x % 16777216) = (x + 1) % 16777216 := by
  rw [next_eq]; omega

theorem distance_mod_of_le {x y : ℕ} (h : y ≤ x) (hlt : x < y + 16777216) :
    distance (x % 16777216) (y % 16777216) = x - y := by
  rw [distance_eq, sdist_mod_left, sdist_mod_right, sdist_of_le h hlt]

theorem distance_mod_of_lt {x y : ℕ} (h : x < y) (hlt : y < x + 16777216) :
    distance (x % 16777216) (y % 16777216) = 16777216 - (y - x) := by
  rw [distance_eq, sdist_mod_left, sdist_mod_right, sdist_of_lt h hlt]

theorem distance_self (x : ℕ) : distance x x = 0 := by
  unfold distance wrappingSub
  rw [and_mask]
  omega

theorem distance_next {v b : ℕ} (h : distance v b ≠ 0) :
    distance v (next b) + 1 = distance v b := by
  unfold distance wrappingSub at h ⊢
  rw [next_eq]
  simp only [and_mask] at h ⊢
  omega

theorem eq_of_distance_eq_zero {v b : ℕ} (hv : v < 16777216) (hb : b < 16777216)
    (h : distance v b = 0) : v = b := by
  unfold distance wrappingSub at h
  rw [and_mask] at h
  omega

/-! ### The reliable window -/

/-- `ReliableWindow`. -/
structure ReliableWindow where
  next : ℕ
  pending : Finset ℕ
  deriving DecidableEq

/-- `ReliableWindow::default`. -/
def ReliableWindow.empty : ReliableWindow := ⟨0, ∅⟩

/-- The loop `while self.pending.remove(&self.next)`. Every turn takes a number out of `pending`,
so `pending.card` turns are enough (`catchUp_eq`). -/
def catchUp : ℕ → ℕ → Finset ℕ → ℕ × Finset ℕ
  | 0, n, p => (n, p)
  | k + 1, n, p => if n ∈ p then catchUp k (Sequence.next n) (p.erase n) else (n, p)

/-- `ReliableWindow::accept`. The window changes only when the result is `Ok(true)`. -/
def ReliableWindow.accept (w : ReliableWindow) (index : ℕ) :
    Except RaknetError (Bool × ReliableWindow) :=
  let delta := distance index w.next
  if half ≤ delta then .ok (false, w)
  else if receiveWindow ≤ delta then .error .packetParseError
  else if delta ≠ 0 then
    if index ∈ w.pending then .ok (false, w)
    else .ok (true, { w with pending := insert index w.pending })
  else
    let (n, p) := catchUp w.pending.card (Sequence.next w.next) w.pending
    .ok (true, ⟨n, p⟩)

theorem catchUp_eq (n : ℕ) (p : Finset ℕ) :
    catchUp p.card n p =
      if n ∈ p then catchUp (p.erase n).card (Sequence.next n) (p.erase n) else (n, p) := by
  by_cases hn : n ∈ p
  · obtain ⟨k, hk⟩ : ∃ k, p.card = k + 1 :=
      ⟨p.card - 1, by have := Finset.card_pos.mpr ⟨n, hn⟩; omega⟩
    rw [if_pos hn, Finset.card_erase_of_mem hn, hk]
    simp [catchUp, hn]
  · rw [if_neg hn]
    cases p.card <;> simp [catchUp, hn]

/-! ### What the window stands for -/

/-- The window `w` stands for the set `A` of unbounded numbers: it waits for the least missing
one, and remembers those above it, which are all inside the receive window. -/
structure Tracks (w : ReliableWindow) (A : Finset ℕ) : Prop where
  next_eq : w.next = mex A % 16777216
  pending_eq : w.pending = (A.filter (mex A < ·)).image (· % 16777216)
  near : ∀ i ∈ A, i < mex A + 65536

theorem tracks_empty : Tracks ReliableWindow.empty ∅ :=
  ⟨by simp [ReliableWindow.empty], by simp [ReliableWindow.empty], by simp⟩

theorem mem_image_mod {A : Finset ℕ} {m i : ℕ} (hA : ∀ j ∈ A, m ≤ j → j < m + 65536)
    (hi : m ≤ i) (hlt : i < m + 65536) :
    i % 16777216 ∈ (A.filter (m ≤ ·)).image (· % 16777216) ↔ i ∈ A := by
  simp only [Finset.mem_image, Finset.mem_filter]
  constructor
  · rintro ⟨j, ⟨hj, hmj⟩, he⟩
    have := hA j hj hmj
    rwa [← eq_of_mod_eq he (by omega) (by omega)]
  · intro h
    exact ⟨i, ⟨h, hi⟩, rfl⟩

/-- **The catch-up loop** ends at the least missing number. -/
theorem catchUp_spec {A : Finset ℕ} :
    ∀ (d m : ℕ), mex A = m + d → (∀ j ∈ A, j < m + 65536) →
      catchUp ((A.filter (m ≤ ·)).image (· % 16777216)).card (m % 16777216)
          ((A.filter (m ≤ ·)).image (· % 16777216)) =
        (mex A % 16777216, (A.filter (mex A < ·)).image (· % 16777216))
  | 0, m, hd, hA => by
    have hm : m ∉ A := by rw [← Nat.add_zero m, ← hd]; exact mex_notMem A
    have hfil : A.filter (m ≤ ·) = A.filter (mex A < ·) := by
      refine Finset.filter_congr fun j hj => ?_
      have : j ≠ m := fun h => hm (h ▸ hj)
      omega
    rw [catchUp_eq, if_neg, hfil, hd, Nat.add_zero]
    rw [mem_image_mod (fun j hj _ => hA j hj) le_rfl (by omega)]
    exact hm
  | d + 1, m, hd, hA => by
    have hm : m ∈ A := mem_of_lt_mex (by omega)
    have herase : ((A.filter (m ≤ ·)).image (· % 16777216)).erase (m % 16777216) =
        (A.filter (m + 1 ≤ ·)).image (· % 16777216) := by
      ext x
      simp only [Finset.mem_erase, Finset.mem_image, Finset.mem_filter]
      constructor
      · rintro ⟨hne, j, ⟨hj, hmj⟩, rfl⟩
        have : j ≠ m := fun h => hne (by rw [h])
        exact ⟨j, ⟨hj, by omega⟩, rfl⟩
      · rintro ⟨j, ⟨hj, hmj⟩, rfl⟩
        refine ⟨fun he => ?_, j, ⟨hj, by omega⟩, rfl⟩
        have := hA j hj
        have := eq_of_mod_eq he (by omega) (by omega)
        omega
    rw [catchUp_eq, if_pos, herase, next_mod]
    · exact catchUp_spec d (m + 1) (by omega) (fun j hj => by have := hA j hj; omega)
    · rw [mem_image_mod (fun j hj _ => hA j hj) le_rfl (by omega)]
      exact hm

section accept

variable {w : ReliableWindow} {A : Finset ℕ} {i : ℕ}

theorem accept_seen (h : Tracks w A) (hback : mex A ≤ i + 8388608) (hA : i ∈ A) :
    w.accept (i % 16777216) = .ok (false, w) := by
  have hne : i ≠ mex A := fun he => mex_notMem A (he ▸ hA)
  have hnear := h.near i hA
  unfold ReliableWindow.accept
  simp only [h.next_eq, half, receiveWindow]
  rcases Nat.lt_or_ge i (mex A) with hlt | hge
  · rw [distance_mod_of_lt hlt (by omega), if_pos (by omega)]
  · rw [distance_mod_of_le hge (by omega), if_neg (by omega), if_neg (by omega), if_pos (by omega),
      if_pos]
    rw [h.pending_eq]
    exact Finset.mem_image.mpr ⟨i, Finset.mem_filter.mpr ⟨hA, by omega⟩, rfl⟩

theorem accept_far (h : Tracks w A) (hahead : i < mex A + 8388608) (hfar : mex A + 65536 ≤ i) :
    w.accept (i % 16777216) = .error .packetParseError := by
  unfold ReliableWindow.accept
  simp only [h.next_eq, half, receiveWindow]
  rw [distance_mod_of_le (by omega) (by omega), if_neg (by omega), if_pos (by omega)]

theorem accept_new (h : Tracks w A) (hA : i ∉ A) (hnear : i < mex A + 65536) :
    ∃ w', w.accept (i % 16777216) = .ok (true, w') ∧ Tracks w' (insert i A) := by
  have hge : mex A ≤ i := mex_le hA
  unfold ReliableWindow.accept
  simp only [h.next_eq, half, receiveWindow]
  rw [distance_mod_of_le hge (by omega), if_neg (by omega), if_neg (by omega)]
  rcases Nat.eq_or_lt_of_le hge with heq | hlt
  · -- the expected number: the loop runs on to the next missing one
    have hsub : ∀ j ∈ insert i A, j < i + 1 + 65536 := by
      intro j hj
      rcases Finset.mem_insert.mp hj with rfl | hj
      · omega
      · have := h.near j hj; omega
    have hmex : i < mex (insert i A) := by
      by_contra hle
      have hn := mex_notMem (insert i A)
      rcases Nat.eq_or_lt_of_le (not_lt.mp hle) with he | hl
      · exact hn (by rw [he]; exact Finset.mem_insert_self _ _)
      · exact hn (Finset.mem_insert_of_mem (mem_of_lt_mex (by omega)))
    have hfil : A.filter (mex A < ·) = (insert i A).filter (i + 1 ≤ ·) := by
      ext j
      simp only [Finset.mem_filter, Finset.mem_insert]
      constructor
      · rintro ⟨hj, hlt⟩; exact ⟨Or.inr hj, by omega⟩
      · rintro ⟨rfl | hj, hlt⟩
        · omega
        · exact ⟨hj, by omega⟩
    rw [if_neg (by omega), heq, h.pending_eq, hfil, next_mod,
      catchUp_spec (mex (insert i A) - (i + 1)) (i + 1) (by omega) hsub]
    exact ⟨_, rfl, rfl, rfl, fun j hj => by have := hsub j hj; omega⟩
  · -- ahead of the expected number: remember it
    have hne : i ≠ mex A := by omega
    have hmem : i % 16777216 ∉ w.pending := by
      rw [h.pending_eq]
      simp only [Finset.mem_image, Finset.mem_filter, not_exists, not_and]
      rintro j ⟨hj, hmj⟩ he
      have := h.near j hj
      exact hA (eq_of_mod_eq he (by omega) (by omega) ▸ hj)
    rw [if_pos (by omega), if_neg hmem]
    refine ⟨_, rfl, by rw [mex_insert_of_ne hne], ?_, ?_⟩
    · rw [mex_insert_of_ne hne, Finset.filter_insert, if_pos hlt, Finset.image_insert, h.pending_eq]
    · intro j hj
      rw [mex_insert_of_ne hne]
      rcases Finset.mem_insert.mp hj with rfl | hj
      · exact hnear
      · exact h.near j hj

end accept

end RustRaknet.Sequence
