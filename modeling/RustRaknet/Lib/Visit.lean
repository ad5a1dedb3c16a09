import RustRaknet.Lib.Machine

/-! # Loops over the entries of a list

A loop `for i in 0..n` over a list in the state, whose turn `i` changes no entry but the entry `i`.
Every entry is then visited as it was before the loop (`foldl_visit`), and the list after the loop is
the list before it, entry by entry. -/

namespace RustRaknet.Lib.Visit

open RustRaknet.Lib.Machine

variable {σ β : Type*}

theorem forall₂_of_getElem? {R : β → β → Prop} : ∀ {l l' : List β}, l'.length = l.length →
    (∀ (i : ℕ) b b', l[i]? = some b → l'[i]? = some b' → R b b') → List.Forall₂ R l l'
  | [], [], _, _ => .nil
  | b :: _, b' :: _, hlength, h =>
    .cons (h 0 b b' rfl rfl) (forall₂_of_getElem? (Nat.succ.inj hlength) fun i => h (i + 1))

theorem forall₂_left {R : β → β → Prop} {l l' : List β} (h : List.Forall₂ R l l') :
    ∀ b ∈ l, ∃ b' ∈ l', R b b' := by
  induction h with
  | nil => exact fun _ hb => absurd hb List.not_mem_nil
  | cons hr _ ih =>
    intro b hb
    rcases List.mem_cons.mp hb with rfl | hb
    · exact ⟨_, List.mem_cons_self, hr⟩
    · obtain ⟨b', hb', hr'⟩ := ih b hb
      exact ⟨b', List.mem_cons_of_mem _ hb', hr'⟩

theorem forall₂_map {γ : Type*} {R : β → β → Prop} {f g : β → γ} {l l' : List β}
    (h : List.Forall₂ R l l') (hfg : ∀ b ∈ l, ∀ b' ∈ l', R b b' → g b' = f b) :
    l'.map g = l.map f := by
  induction h with
  | nil => rfl
  | @cons b b' l l' hr _ ih =>
    rw [List.map_cons, List.map_cons, hfg b List.mem_cons_self b' List.mem_cons_self hr,
      ih fun x hx x' hx' => hfg x (List.mem_cons_of_mem _ hx) x' (List.mem_cons_of_mem _ hx')]

/-- **The rule of visits**: `I` may depend on the entries visited so far. -/
theorem foldl_visit (read : σ → List β) {f : σ → ℕ → σ} {R : β → β → Prop}
    {I : List β → σ → Prop} {s : σ} (hother : ∀ s i j, j ≠ i → (read (f s i))[j]? = (read s)[j]?)
    (hstart : I [] s)
    (hstep : ∀ visited s' b, b ∈ read s → (read s')[visited.length]? = some b → I visited s' →
      I (visited ++ [b]) (f s' visited.length) ∧
        ∃ b', (read (f s' visited.length))[visited.length]? = some b' ∧ R b b') :
    I (read s) ((List.range (read s).length).foldl f s) ∧
      List.Forall₂ R (read s) (read ((List.range (read s).length).foldl f s)) := by
  have hloop := foldl_range (f := f) (s := s)
    (I := fun i s' => I ((read s).take i) s' ∧ (∀ j, i ≤ j → (read s')[j]? = (read s)[j]?) ∧
      ∀ j, j < i → ∃ b b', (read s)[j]? = some b ∧ (read s')[j]? = some b' ∧ R b b')
    ⟨by simpa using hstart, fun _ _ => rfl, fun j hj => absurd hj (Nat.not_lt_zero j)⟩
    (read s).length fun i s' hi h => by
      obtain ⟨hinv, hrest, hdone⟩ := h
      have hlength : ((read s).take i).length = i := by simp [hi.le]
      have hentry : (read s)[i]? = some (read s)[i] := List.getElem?_eq_getElem hi
      obtain ⟨hinv', b', hb', hr⟩ := hstep ((read s).take i) s' (read s)[i] (List.getElem_mem hi)
        (by rw [hlength, hrest i le_rfl, hentry]) hinv
      rw [hlength] at hinv' hb'
      refine ⟨?_, fun j hj => ?_, fun j hj => ?_⟩
      · rw [List.take_add_one, hentry]
        exact hinv'
      · rw [hother s' i j (by omega), hrest j (by omega)]
      · rcases Nat.lt_succ_iff_lt_or_eq.mp hj with hj | rfl
        · rw [hother s' i j (by omega)]
          exact hdone j hj
        · exact ⟨_, b', hentry, hb', hr⟩
  obtain ⟨hinv, hrest, hdone⟩ := hloop
  rw [List.take_length] at hinv
  refine ⟨hinv, forall₂_of_getElem? ?_ fun i b b' hb hb' => ?_⟩
  · refine le_antisymm ?_ ?_
    · rw [← List.getElem?_eq_none_iff, hrest _ le_rfl]
      simp
    · by_contra hlt
      obtain ⟨-, b', -, hb', -⟩ := hdone _ (not_le.mp hlt)
      simp at hb'
  · obtain ⟨hi, -⟩ := List.getElem?_eq_some_iff.mp hb
    obtain ⟨c, c', hc, hc', hr⟩ := hdone i hi
    rw [hb] at hc
    rw [hb'] at hc'
    rw [Option.some.inj hc, Option.some.inj hc']
    exact hr

end RustRaknet.Lib.Visit
