import Mathlib.Data.List.Induction
import Mathlib.Tactic

/-! # Runs of a machine

A machine is a step function on states and actions; an interleaving of several parties is one list
of actions. An invariant is proved for one step and holds in every run (`run_invariant`), also when
the steps are known to meet a condition (`Always`). -/

namespace RustRaknet.Lib

section snoc

variable {α : Type*} {R : α → α → Prop} {l : List α} {a b : α}

theorem mem_snoc : a ∈ l ++ [b] ↔ a ∈ l ∨ a = b := by simp

theorem pairwise_snoc : (l ++ [b]).Pairwise R ↔ l.Pairwise R ∧ ∀ a ∈ l, R a b := by
  simp [List.pairwise_append]

theorem pairwise_snoc_of_last (htrans : ∀ {a b c}, R a b → R b c → R a c) (h : l.Pairwise R)
    (hlast : ∀ a, l.getLast? = some a → R a b) : (l ++ [b]).Pairwise R := by
  refine pairwise_snoc.mpr ⟨h, fun a ha => ?_⟩
  obtain ⟨init, last, rfl⟩ := (List.eq_nil_or_concat' l).resolve_left (List.ne_nil_of_mem ha)
  obtain ha | rfl := mem_snoc.mp ha
  · exact htrans ((pairwise_snoc.mp h).2 a ha) (hlast last (by simp))
  · exact hlast a (by simp)

end snoc

namespace Machine

theorem snoc_eq_split {α : Type*} {l before after : List α} {a b : α} :
    l ++ [a] = before ++ b :: after ↔ (before = l ∧ b = a ∧ after = []) ∨
      ∃ after', after = after' ++ [a] ∧ l = before ++ b :: after' := by
  constructor
  · intro h
    rcases List.eq_nil_or_concat after with rfl | ⟨after', last, rfl⟩
    · obtain ⟨rfl, hlast⟩ := List.append_inj' h rfl
      exact .inl ⟨rfl, by simpa using hlast.symm, rfl⟩
    · have hassoc : l ++ [a] = (before ++ b :: after') ++ [last] := by simp [h]
      obtain ⟨hinit, hlast⟩ := List.append_inj' hassoc rfl
      obtain rfl : a = last := by simpa using hlast
      exact .inr ⟨after', by simp, hinit⟩
  · rintro (⟨rfl, rfl, rfl⟩ | ⟨after', rfl, rfl⟩)
    · rfl
    · simp

variable {σ α : Type*} (step : σ → α → σ) (start : σ)

/-- The state after the given actions. -/
def run (actions : List α) : σ := actions.foldl step start

@[simp] theorem run_nil : run step start [] = start := rfl

theorem run_append (actions : List α) (a : α) :
    run step start (actions ++ [a]) = step (run step start actions) a := by
  simp [run]

/-- The condition `P` holds whenever an action of the run is taken. -/
def Always (P : σ → α → Prop) (actions : List α) : Prop :=
  ∀ before a after, actions = before ++ a :: after → P (run step start before) a

variable {step start}

theorem Always.init {P : σ → α → Prop} {actions : List α} {a : α}
    (h : Always step start P (actions ++ [a])) :
    Always step start P actions ∧ P (run step start actions) a :=
  ⟨fun before b after he => h before b (after ++ [a]) (by simp [he]), h actions a [] rfl⟩

theorem Always.concat {P : σ → α → Prop} {actions : List α} {a : α}
    (h : Always step start P actions) (ha : P (run step start actions) a) :
    Always step start P (actions ++ [a]) := by
  intro before b after he
  rcases snoc_eq_split.mp he with ⟨rfl, rfl, -⟩ | ⟨after', -, hsplit⟩
  · exact ha
  · exact h before b after' hsplit

theorem Always.tail {P : σ → α → Prop} {actions : List α} {a : α}
    (h : Always step start P (a :: actions)) :
    P start a ∧ Always step (step start a) P actions :=
  ⟨h [] a actions rfl, fun before b after he => h (a :: before) b after (by simp [he])⟩

theorem always_nil {P : σ → α → Prop} : Always step start P [] :=
  fun _ _ _ he => absurd he (by simp)

theorem always_cons {P : σ → α → Prop} {actions : List α} {a : α} :
    Always step start P (a :: actions) ↔ P start a ∧ Always step (step start a) P actions := by
  refine ⟨Always.tail, fun ⟨ha, hrest⟩ before b after he => ?_⟩
  cases before with
  | nil =>
    obtain ⟨rfl, -⟩ := List.cons.inj he
    exact ha
  | cons c before =>
    obtain ⟨rfl, hsplit⟩ := List.cons.inj he
    exact hrest before b after hsplit

/-- Whether a condition holds along a run can be computed. -/
instance decidableAlways (step : σ → α → σ) (P : σ → α → Prop) [∀ s a, Decidable (P s a)] :
    ∀ (start : σ) (actions : List α), Decidable (Always step start P actions)
  | _, [] => isTrue always_nil
  | start, a :: actions =>
    have := decidableAlways step P (step start a) actions
    decidable_of_iff (P start a ∧ Always step (step start a) P actions) always_cons.symm

theorem Always.of_forall {P : σ → α → Prop} {actions : List α} (h : ∀ a ∈ actions, ∀ s, P s a) :
    Always step start P actions :=
  fun before a after he => h a (by simp [he]) _

/-- **The rule of invariants**, under a condition on the steps. -/
theorem run_invariant_of {I : σ → Prop} {P : σ → α → Prop} (hstart : I start)
    (hstep : ∀ s a, I s → P s a → I (step s a)) {actions : List α}
    (h : Always step start P actions) : I (run step start actions) := by
  induction actions using List.reverseRecOn with
  | nil => exact hstart
  | append_singleton actions a ih =>
    obtain ⟨hinit, hlast⟩ := h.init
    rw [run_append]
    exact hstep _ a (ih hinit) hlast

/-- **The rule of invariants.** -/
theorem run_invariant {I : σ → Prop} (hstart : I start) (hstep : ∀ s a, I s → I (step s a))
    (actions : List α) : I (run step start actions) :=
  run_invariant_of (P := fun _ _ => True) hstart (fun s a hs _ => hstep s a hs)
    fun _ _ _ _ => trivial

/-- The rule of invariants for a loop over the indexes below `n`. -/
theorem foldl_range {f : σ → ℕ → σ} {I : ℕ → σ → Prop} {s : σ} (hstart : I 0 s) :
    ∀ n, (∀ i s, i < n → I i s → I (i + 1) (f s i)) → I n ((List.range n).foldl f s)
  | 0, _ => hstart
  | n + 1, hstep => by
    rw [List.range_succ, List.foldl_append]
    exact hstep n _ n.lt_succ_self
      (foldl_range hstart n fun i s hi => hstep i s (Nat.lt_succ_of_lt hi))

end Machine

end RustRaknet.Lib
