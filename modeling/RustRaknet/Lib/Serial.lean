import Mathlib.Tactic

/-! # Serial numbers and the least missing number

A counter that only keeps its value modulo `m` is compared by the *serial distance* `sdist m a b`,
the number of steps from `b` up to `a` around the circle. For two unbounded counters at most one
turn apart the distance of the remainders is their difference (`sdist_of_le`) or its complement
(`sdist_of_lt`), and equal remainders mean equal counters (`eq_of_mod_eq`).

`mex s` is the least number that is not in the finite set `s`: where a duplicate filter that has
seen the numbers of `s` stands. -/

namespace RustRaknet.Lib.Serial

/-! ### Distance around the circle -/

/-- The number of steps from `b` up to `a` modulo `m`. -/
def sdist (m a b : ℕ) : ℕ := (a + (m - b % m)) % m

theorem eq_of_mod_eq {m x y : ℕ} (h : x % m = y % m) (hxy : x < y + m) (hyx : y < x + m) :
    x = y := by
  rcases Nat.le_total x y with hle | hle
  · have hd : y - x = 0 := by
      have h0 : (y - x) % m = 0 := Nat.sub_mod_eq_zero_of_mod_eq h.symm
      rwa [Nat.mod_eq_of_lt (by omega)] at h0
    omega
  · have hd : x - y = 0 := by
      have h0 : (x - y) % m = 0 := Nat.sub_mod_eq_zero_of_mod_eq h
      rwa [Nat.mod_eq_of_lt (by omega)] at h0
    omega

theorem sdist_mod_left (m a b : ℕ) : sdist m (a % m) b = sdist m a b := by
  unfold sdist; rw [Nat.mod_add_mod]

theorem sdist_mod_right (m a b : ℕ) : sdist m a (b % m) = sdist m a b := by
  unfold sdist; rw [Nat.mod_mod]

/-- **Ahead**: the distance is the difference. -/
theorem sdist_of_le {m x y : ℕ} (h : y ≤ x) (hlt : x < y + m) : sdist m x y = x - y := by
  have hm : 0 < m := by omega
  have hr := Nat.mod_lt y hm
  have e : x + (m - y % m) = (x - y) + (y / m + 1) * m := by
    have := Nat.div_add_mod y m
    rw [Nat.add_mul, Nat.one_mul, Nat.mul_comm (y / m)]
    omega
  unfold sdist
  rw [e, Nat.add_mul_mod_self_right, Nat.mod_eq_of_lt (by omega)]

/-- **Behind**: the distance is what is missing to a full turn. -/
theorem sdist_of_lt {m x y : ℕ} (h : x < y) (hlt : y < x + m) :
    sdist m x y = m - (y - x) := by
  have hm : 0 < m := by omega
  have e : sdist m x y = sdist m (x + m) y := by
    rw [← sdist_mod_left m x, ← sdist_mod_left m (x + m), Nat.add_mod_right]
  rw [e, sdist_of_le (by omega) (by omega)]
  omega

/-! ### The least missing number -/

/-- The least number outside `s`. -/
def mex (s : Finset ℕ) : ℕ := Nat.find (Infinite.exists_notMem_finset s)

theorem mex_notMem (s : Finset ℕ) : mex s ∉ s := Nat.find_spec (Infinite.exists_notMem_finset s)

theorem mem_of_lt_mex {s : Finset ℕ} {i : ℕ} (h : i < mex s) : i ∈ s := by
  have := Nat.find_min (Infinite.exists_notMem_finset s) h
  exact not_not.mp this

theorem mex_le {s : Finset ℕ} {i : ℕ} (h : i ∉ s) : mex s ≤ i :=
  Nat.find_min' (Infinite.exists_notMem_finset s) h

theorem mex_eq {s : Finset ℕ} {n : ℕ} (hn : n ∉ s) (h : ∀ i < n, i ∈ s) : mex s = n := by
  refine Nat.le_antisymm (mex_le hn) ?_
  by_contra hlt
  exact mex_notMem s (h _ (by omega))

@[simp] theorem mex_empty : mex ∅ = 0 := mex_eq (by simp) (by simp)

theorem mex_mono {s t : Finset ℕ} (h : s ⊆ t) : mex s ≤ mex t :=
  mex_le fun hs => mex_notMem t (h hs)

theorem mex_insert_of_ne {s : Finset ℕ} {i : ℕ} (h : i ≠ mex s) : mex (insert i s) = mex s := by
  refine mex_eq ?_ fun j hj => Finset.mem_insert_of_mem (mem_of_lt_mex hj)
  rw [Finset.mem_insert]
  rintro (he | he)
  · exact h he.symm
  · exact mex_notMem s he

end RustRaknet.Lib.Serial
