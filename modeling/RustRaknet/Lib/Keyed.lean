import Mathlib.Data.List.AList
import Mathlib.Tactic

/-! # Sums over finite maps

A finite map is Mathlib's `AList`. `total w s` adds up the weights of its values; taking an entry
out or putting a new one in moves the total by the weight of that entry. `size` is the number of
entries. -/

namespace RustRaknet.Lib.Keyed

variable {κ ν : Type} [DecidableEq κ]

/-- The sum of the weights of the values. -/
def total (w : ν → ℕ) (s : AList fun _ : κ => ν) : ℕ := (s.entries.map fun e => w e.2).sum

/-- The number of entries. -/
def size (s : AList fun _ : κ => ν) : ℕ := s.entries.length

omit [DecidableEq κ] in
@[simp] theorem total_empty (w : ν → ℕ) : total w (∅ : AList fun _ : κ => ν) = 0 := rfl

omit [DecidableEq κ] in
@[simp] theorem size_empty : size (∅ : AList fun _ : κ => ν) = 0 := rfl

omit [DecidableEq κ] in
theorem total_congr {w w' : ν → ℕ} {s : AList fun _ : κ => ν}
    (h : ∀ e ∈ s.entries, w e.2 = w' e.2) : total w s = total w' s := by
  unfold total
  rw [List.map_congr_left h]

theorem perm_erase_of_lookup {s : AList fun _ : κ => ν} {a : κ} {b : ν}
    (h : s.lookup a = some b) :
    s.entries.Perm (⟨a, b⟩ :: (s.erase a).entries) := by
  have hmem : a ∈ s.entries.keys := by
    rw [← AList.keys, ← AList.mem_keys, ← AList.lookup_isSome, h]; rfl
  obtain ⟨b', l₁, l₂, ha, hs, he⟩ := List.exists_of_kerase hmem
  have hb : b' = b := by
    have h1 : (⟨a, b'⟩ : Sigma fun _ : κ => ν) ∈ s.entries := by rw [hs]; simp
    have h2 : b' ∈ s.lookup a := AList.mem_lookup_iff.mpr h1
    rw [h] at h2
    exact (Option.some.inj h2).symm
  have he' : (s.erase a).entries = l₁ ++ l₂ := he
  rw [he', hs, hb]
  exact List.perm_middle

theorem total_erase {s : AList fun _ : κ => ν} {a : κ} {b : ν} (w : ν → ℕ)
    (h : s.lookup a = some b) : total w s = w b + total w (s.erase a) := by
  unfold total
  rw [((perm_erase_of_lookup h).map _).sum_eq]
  simp

theorem total_insert {s : AList fun _ : κ => ν} {a : κ} (w : ν → ℕ) (b : ν)
    (h : s.lookup a = none) : total w (s.insert a b) = w b + total w s := by
  unfold total
  rw [AList.entries_insert_of_notMem (AList.lookup_eq_none.mp h)]
  simp

theorem size_erase {s : AList fun _ : κ => ν} {a : κ} {b : ν} (h : s.lookup a = some b) :
    size s = size (s.erase a) + 1 := by
  unfold size
  rw [(perm_erase_of_lookup h).length_eq]
  simp

theorem size_insert {s : AList fun _ : κ => ν} {a : κ} (b : ν) (h : s.lookup a = none) :
    size (s.insert a b) = size s + 1 := by
  unfold size
  rw [AList.entries_insert_of_notMem (AList.lookup_eq_none.mp h)]
  simp

theorem total_replace {s : AList fun _ : κ => ν} {a : κ} {b : ν} (w : ν → ℕ) (b' : ν)
    (h : s.lookup a = some b) : total w (s.insert a b') + w b = total w s + w b' := by
  have e : total w (s.insert a b') = w b' + total w (s.erase a) := by
    unfold total
    rw [AList.entries_insert, List.map_cons, List.sum_cons]
    rfl
  rw [e, total_erase w h]
  omega

theorem size_replace {s : AList fun _ : κ => ν} {a : κ} {b : ν} (b' : ν)
    (h : s.lookup a = some b) : size (s.insert a b') = size s := by
  rw [size_erase h]
  unfold size
  rw [AList.entries_insert, List.length_cons]
  rfl

theorem erase_insert_self (s : AList fun _ : κ => ν) (a : κ) (b : ν) :
    (s.insert a b).erase a = s.erase a := by
  apply AList.ext
  show (s.insert a b).entries.kerase a = s.entries.kerase a
  simp [AList.entries_insert]

theorem mem_entries {s : AList fun _ : κ => ν} {e : Sigma fun _ : κ => ν} :
    e ∈ s.entries ↔ s.lookup e.1 = some e.2 := by
  obtain ⟨a, b⟩ := e
  exact AList.mem_lookup_iff.symm

omit [DecidableEq κ] in
theorem eq_empty_of_size {s : AList fun _ : κ => ν} (h : size s = 0) : s = ∅ := by
  apply AList.ext
  exact List.length_eq_zero_iff.mp h

/-- **A map whose `n` keys are all below `n`** has every key below `n`. -/
theorem lookup_of_full {s : AList fun _ : ℕ => ν} {n : ℕ} (hsize : size s = n)
    (hlt : ∀ a b, s.lookup a = some b → a < n) {i : ℕ} (hi : i < n) :
    ∃ b, s.lookup i = some b := by
  have hsub : s.keys.toFinset ⊆ Finset.range n := by
    intro a ha
    rw [List.mem_toFinset, ← AList.mem_keys, ← AList.lookup_isSome] at ha
    obtain ⟨b, hb⟩ := Option.isSome_iff_exists.mp ha
    exact Finset.mem_range.mpr (hlt a b hb)
  have hcard : (Finset.range n).card ≤ s.keys.toFinset.card := by
    rw [List.toFinset_card_of_nodup s.keys_nodup, Finset.card_range]
    simp only [AList.keys, List.keys, List.length_map]
    exact hsize.ge
  have heq := Finset.eq_of_subset_of_card_le hsub hcard
  have hmem : i ∈ s.keys.toFinset := by rw [heq]; exact Finset.mem_range.mpr hi
  rw [List.mem_toFinset, ← AList.mem_keys, ← AList.lookup_isSome] at hmem
  exact Option.isSome_iff_exists.mp hmem

end RustRaknet.Lib.Keyed
