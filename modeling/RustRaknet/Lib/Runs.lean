import Mathlib.Data.List.TakeWhile
import Mathlib.Data.List.Nodup
import Mathlib.Data.List.Induction

/-! # Runs of equal keys

A list is cut where the key of its elements changes. When equal keys are next to each other
(`Contiguous`), no two runs share a key. A list is built up so that it stays contiguous by adding an
element whose key is new or is that of the last element. -/

namespace RustRaknet.Lib.Runs

variable {α β : Type*} [DecidableEq β]

/-- The maximal runs of elements with one key. -/
def runs (key : α → β) : List α → List (List α)
  | [] => []
  | a :: l =>
    (a :: l.takeWhile fun b => key b = key a) :: runs key (l.dropWhile fun b => key b = key a)
termination_by l => l.length
decreasing_by
  have := (List.dropWhile_suffix (fun b => decide (key b = key a)) (l := l)).length_le
  simp only [List.length_cons]
  omega

/-- Elements of one key are next to each other. -/
def Contiguous (key : α → β) (l : List α) : Prop :=
  ∀ l₁ a l₂, l = l₁ ++ a :: l₂ → ∀ b ∈ l₂.dropWhile (fun b => key b = key a), key b ≠ key a

section runs

variable (key : α → β)

theorem runs_flatten (l : List α) : (runs key l).flatten = l := by
  fun_induction runs key l with
  | case1 => rfl
  | case2 a l ih => rw [List.flatten_cons, ih, List.cons_append, List.takeWhile_append_dropWhile]

theorem runs_map {key : α → β} {f : α → α} (hf : ∀ a, key (f a) = key a) (l : List α) :
    runs key (l.map f) = (runs key l).map (List.map f) := by
  fun_induction runs key l with
  | case1 => simp [runs]
  | case2 a l ih =>
    have hkey : ((fun b => decide (key b = key (f a))) ∘ f) = fun b => decide (key b = key a) := by
      funext b
      simp [hf]
    rw [List.map_cons, runs, List.takeWhile_map, List.dropWhile_map, hkey, ih]
    rfl

theorem runs_ne_nil (l : List α) : ∀ g ∈ runs key l, g ≠ [] := by
  fun_induction runs key l with
  | case1 => simp
  | case2 a l ih =>
    intro g hg
    rcases List.mem_cons.mp hg with rfl | hg
    · simp
    · exact ih g hg

theorem runs_const (l : List α) : ∀ g ∈ runs key l, ∀ a ∈ g, ∀ b ∈ g, key a = key b := by
  fun_induction runs key l with
  | case1 => simp
  | case2 a l ih =>
    intro g hg
    rcases List.mem_cons.mp hg with rfl | hg
    · have hone : ∀ b ∈ a :: l.takeWhile (fun b => key b = key a), key b = key a := fun b hb => by
        rcases List.mem_cons.mp hb with rfl | hb
        · rfl
        · simpa using List.mem_takeWhile_imp hb
      exact fun b hb c hc => (hone b hb).trans (hone c hc).symm
    · exact ih g hg

end runs

variable {key : α → β}

theorem Contiguous.nil : Contiguous key [] := by
  intro l₁ a l₂ h
  simp at h

theorem Contiguous.suffix {l l' : List α} (h : Contiguous key (l ++ l')) : Contiguous key l' := by
  intro l₁ a l₂ he
  exact h (l ++ l₁) a l₂ (by rw [he, List.append_assoc])

theorem Contiguous.of_const {l : List α} {k : β} (h : ∀ a ∈ l, key a = k) : Contiguous key l := by
  intro l₁ a l₂ he b hb
  have ha : key a = k := h a (by simp [he])
  have hnil : l₂.dropWhile (fun b => key b = key a) = [] :=
    List.dropWhile_eq_nil_iff.mpr fun b hb => by simp [ha, h b (by simp [he, hb])]
  simp [hnil] at hb

/-- An element is added whose key is new or is that of the last element. -/
theorem Contiguous.concat {l : List α} {x : α} (h : Contiguous key l)
    (hx : (∀ a ∈ l, key a ≠ key x) ∨ ∃ a, l.getLast? = some a ∧ key a = key x) :
    Contiguous key (l ++ [x]) := by
  intro l₁ a l₂ he b hb
  rcases List.eq_nil_or_concat l₂ with rfl | ⟨l₃, y, rfl⟩
  · simp at hb
  rw [List.concat_eq_append] at he hb
  rw [← List.cons_append, ← List.append_assoc] at he
  obtain ⟨rfl, hy⟩ := List.append_inj' he rfl
  obtain rfl : x = y := by simpa using hy
  have hold := h l₁ a l₃ rfl
  by_cases hall : ∀ c ∈ l₃, key c = key a
  · rw [List.dropWhile_append, if_pos
      (by rw [List.isEmpty_iff, List.dropWhile_eq_nil_iff]; simpa using hall)] at hb
    rw [List.dropWhile_cons] at hb
    split_ifs at hb with hc
    · simp at hb
    · obtain rfl : b = x := by simpa using hb
      simpa using hc
  · have hne : l₃.dropWhile (fun b => key b = key a) ≠ [] := by
      rw [ne_eq, List.dropWhile_eq_nil_iff]
      simpa using hall
    rw [List.dropWhile_append, if_neg (by rwa [List.isEmpty_iff])] at hb
    rcases List.mem_append.mp hb with hb | hb
    · exact hold b hb
    obtain rfl : b = x := by simpa using hb
    -- the last element of `l₃` is after the first that differs from `a`
    rcases hx with hx | ⟨c, hc, hcx⟩
    · exact fun hba => hx a (by simp) hba.symm
    · rw [← hcx]
      refine hold c ?_
      obtain ⟨d, l₄, hd⟩ := List.exists_cons_of_ne_nil hne
      have hsplit := List.takeWhile_append_dropWhile (p := fun b => decide (key b = key a)) (l := l₃)
      rw [← hsplit, hd] at hc
      rw [hd]
      have hc' : (d :: l₄).getLast? = some c := by
        rw [← List.cons_append, ← List.append_assoc,
          List.getLast?_append_of_ne_nil _ (List.cons_ne_nil d l₄)] at hc
        exact hc
      exact List.mem_of_getLast? hc'

/-- Keys that tell the same elements apart. -/
theorem Contiguous.congr {γ : Type*} [DecidableEq γ] {key' : α → γ} {l : List α}
    (h : Contiguous key l) (hk : ∀ a ∈ l, ∀ b ∈ l, key' a = key' b → key a = key b)
    (hk' : ∀ a ∈ l, ∀ b ∈ l, key a = key b → key' a = key' b) : Contiguous key' l := by
  intro l₁ a l₂ he b hb
  have ha : a ∈ l := by simp [he]
  have hl₂ : ∀ c ∈ l₂, c ∈ l := fun c hc => by simp [he, hc]
  have hdrop : ∀ l₃ : List α, (∀ c ∈ l₃, c ∈ l) → l₃.dropWhile (fun b => key' b = key' a) =
      l₃.dropWhile (fun b => key b = key a) := by
    intro l₃ hl₃
    induction l₃ with
    | nil => rfl
    | cons c l₃ ih =>
      have hc := hl₃ c (by simp)
      have heq : (key' c = key' a) = (key c = key a) :=
        propext ⟨hk c hc a ha, hk' c hc a ha⟩
      rw [List.dropWhile_cons, List.dropWhile_cons, ih fun d hd => hl₃ d (by simp [hd])]
      simp only [heq]
  rw [hdrop l₂ hl₂] at hb
  have hmem := hl₂ b ((List.dropWhile_suffix _).subset hb)
  exact fun hba => h l₁ a l₂ he b hb (hk b hmem a ha hba)

/-- **The runs of a contiguous list share no key.** -/
theorem runs_disjoint {l : List α} (h : Contiguous key l) :
    (runs key l).Pairwise fun g g' => ∀ a ∈ g, ∀ b ∈ g', key a ≠ key b := by
  fun_induction runs key l with
  | case1 => exact .nil
  | case2 a l ih =>
    have hrest : Contiguous key (l.dropWhile fun b => key b = key a) := by
      refine Contiguous.suffix (l := a :: l.takeWhile fun b => key b = key a) ?_
      rwa [List.cons_append, List.takeWhile_append_dropWhile]
    refine List.pairwise_cons.mpr ⟨fun g hg x hx b hb => ?_, ih hrest⟩
    have hxa : key x = key a := by
      rcases List.mem_cons.mp hx with rfl | hx
      · rfl
      · simpa using List.mem_takeWhile_imp hx
    have hb' : b ∈ l.dropWhile fun b => key b = key a := by
      rw [← runs_flatten key (l.dropWhile fun b => key b = key a)]
      exact List.mem_flatten.mpr ⟨g, hg, hb⟩
    exact fun he => h [] a l rfl b hb' (he.symm.trans hxa)

omit [DecidableEq β] in
theorem singles_disjoint {l : List α} (h : (l.map key).Nodup) :
    (l.map fun a => [a]).Pairwise fun g g' => ∀ a ∈ g, ∀ b ∈ g', key a ≠ key b := by
  rw [List.pairwise_map]
  refine (List.pairwise_map.mp h).imp fun hne a ha b hb => ?_
  rw [List.mem_singleton.mp ha, List.mem_singleton.mp hb]
  exact hne

theorem singles_flatten : ∀ l : List α, (l.map fun a => [a]).flatten = l
  | [] => rfl
  | a :: l => by rw [List.map_cons, List.flatten_cons, singles_flatten l, List.singleton_append]

theorem runs_of_nodup : ∀ {l : List α}, (l.map key).Nodup → runs key l = l.map fun a => [a]
  | [], _ => by simp [runs]
  | a :: l, h => by
    rw [List.map_cons, List.nodup_cons] at h
    have hne : ∀ b ∈ l, key b ≠ key a := fun b hb he => h.1 (he ▸ List.mem_map_of_mem hb)
    have htake : (l.takeWhile fun b => key b = key a) = [] := by
      cases l with
      | nil => rfl
      | cons b l => rw [List.takeWhile_cons, if_neg (by simpa using hne b (by simp))]
    have hdrop : (l.dropWhile fun b => key b = key a) = l := by
      cases l with
      | nil => rfl
      | cons b l => rw [List.dropWhile_cons, if_neg (by simpa using hne b (by simp))]
    rw [runs, htake, hdrop, runs_of_nodup h.2, List.map_cons]

end RustRaknet.Lib.Runs
