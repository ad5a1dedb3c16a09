import Mathlib.Tactic

/-! # Functions that do not see a part of the state

A part of a state is given by the function `forget` that resets it. A function is blind to that part
when what it does to the rest does not depend on it; then two states that differ in the part only
are led to states that differ in the part only (`Blind.congr`). Blind functions compose, may read
whatever `forget` leaves alone, and may be iterated. -/

namespace RustRaknet.Lib.Forget

variable {σ τ α : Type*} {forget : σ → σ} {forget' : τ → τ}

/-- What `f` does to the rest of the state does not depend on the part that `forget` resets. -/
def Blind (forget : σ → σ) (forget' : τ → τ) (f : σ → τ) : Prop :=
  ∀ s, forget' (f s) = forget' (f (forget s))

theorem Blind.congr {f : σ → τ} (h : Blind forget forget' f) {s s' : σ}
    (hs : forget s = forget s') : forget' (f s) = forget' (f s') := by
  rw [h s, h s', hs]

theorem Blind.id (forget : σ → σ) (hforget : ∀ s, forget (forget s) = forget s) :
    Blind forget forget fun s => s :=
  fun s => (hforget s).symm

theorem Blind.comp {υ : Type*} {forget'' : υ → υ} {g : τ → υ} {f : σ → τ}
    (hg : Blind forget' forget'' g) (hf : Blind forget forget' f) :
    Blind forget forget'' fun s => g (f s) :=
  fun s => hg.congr (hf s)

/-- A blind function may look at what `forget` leaves alone. -/
theorem Blind.read {a : σ → α} {f : α → σ → τ} (ha : ∀ s, a (forget s) = a s)
    (hf : ∀ x, Blind forget forget' (f x)) : Blind forget forget' fun s => f (a s) s := by
  intro s
  show forget' (f (a s) s) = forget' (f (a (forget s)) (forget s))
  rw [ha, hf]

theorem Blind.foldl (hforget : ∀ s, forget (forget s) = forget s) {f : σ → α → σ}
    (hf : ∀ a, Blind forget forget fun s => f s a) :
    ∀ l : List α, Blind forget forget fun s => l.foldl f s
  | [] => Blind.id forget hforget
  | a :: l => (Blind.foldl hforget hf l).comp (hf a)

end RustRaknet.Lib.Forget
