import Mathlib.Tactic

/-! # Computations that may fail

Taking apart the successful runs of a sequence of fallible computations: each step succeeded, and
the rest succeeded on its value. -/

namespace RustRaknet.Lib.Result

variable {ε α β : Type}

@[simp] theorem ok_bind (a : α) (f : α → Except ε β) : (Except.ok a >>= f) = f a := rfl

@[simp] theorem error_bind (e : ε) (f : α → Except ε β) : (Except.error e >>= f) = .error e := rfl

@[simp] theorem map_ok (f : α → β) (a : α) : Except.map f (Except.ok a : Except ε α) = .ok (f a) :=
  rfl

@[simp] theorem map_error (f : α → β) (e : ε) :
    Except.map f (Except.error e : Except ε α) = .error e := rfl

theorem bind_eq_ok {x : Except ε α} {f : α → Except ε β} {b : β} :
    (x >>= f) = .ok b ↔ ∃ a, x = .ok a ∧ f a = .ok b := by
  cases x with
  | ok a => simp
  | error e => simp

theorem map_eq_ok {x : Except ε α} {f : α → β} {b : β} :
    x.map f = .ok b ↔ ∃ a, x = .ok a ∧ f a = b := by
  cases x with
  | ok a => simp
  | error e => simp

theorem guard_eq_ok {c : Prop} [Decidable c] {e : ε} {x : Except ε β} {b : β} :
    (if c then .error e else x) = .ok b ↔ ¬ c ∧ x = .ok b := by
  split_ifs with h <;> simp [h]

/-! ### In place

A computation that changes a state in place and may fail half way: what it has changed by then stays
changed. -/

/-- A computation on a state that may fail. -/
abbrev InPlace (σ ε : Type) : Type → Type := ExceptT ε (StateM σ)

namespace InPlace

variable {σ : Type}

/-- The outcome and the state it leaves. -/
def exec (x : InPlace σ ε α) (s : σ) : Except ε α × σ := ExceptT.run x s

/-- The operator `?` on a result that was computed without changing the state. -/
def check (result : Except ε α) : InPlace σ ε α := ExceptT.mk (pure result)

@[simp] theorem exec_check_ok (a : α) (f : α → InPlace σ ε β) (s : σ) :
    exec (check (.ok a) >>= f) s = exec (f a) s := rfl

@[simp] theorem exec_check_error (e : ε) (f : α → InPlace σ ε β) (s : σ) :
    exec (check (.error e) >>= f) s = (.error e, s) := rfl

@[simp] theorem exec_get (f : σ → InPlace σ ε β) (s : σ) : exec (get >>= f) s = exec (f s) s := rfl

@[simp] theorem exec_modify (f : σ → σ) (s : σ) :
    exec (modify f : InPlace σ ε PUnit) s = (.ok ⟨⟩, f s) := rfl

@[simp] theorem exec_modify_bind (f : σ → σ) (g : PUnit → InPlace σ ε β) (s : σ) :
    exec (modify f >>= g) s = exec (g ⟨⟩) (f s) := rfl

@[simp] theorem exec_throw (e : ε) (s : σ) :
    exec (throw e : InPlace σ ε α) s = (.error e, s) := rfl

theorem exec_bind (x : InPlace σ ε α) (f : α → InPlace σ ε β) (s : σ) :
    exec (x >>= f) s = match exec x s with
      | (.ok a, s') => exec (f a) s'
      | (.error e, s') => (.error e, s') := by
  show (ExceptT.bindCont f (ExceptT.run x s).1) (ExceptT.run x s).2 = _
  unfold exec
  rcases ExceptT.run x s with ⟨_ | _, _⟩ <;> rfl

theorem exec_bind_ok {x : InPlace σ ε α} {a : α} {s s' : σ} (h : exec x s = (.ok a, s'))
    (f : α → InPlace σ ε β) : exec (x >>= f) s = exec (f a) s' := by
  rw [exec_bind, h]

theorem exec_bind_error {x : InPlace σ ε α} {e : ε} {s s' : σ} (h : exec x s = (.error e, s'))
    (f : α → InPlace σ ε β) : exec (x >>= f) s = (.error e, s') := by
  rw [exec_bind, h]

theorem exec_forM (f : α → σ → σ) : ∀ (l : List α) (s : σ),
    exec (l.forM fun a => (modify (f a) : InPlace σ ε PUnit)) s =
      (.ok ⟨⟩, l.foldl (fun s a => f a s) s)
  | [], _ => rfl
  | a :: l, s => by
    show exec (modify (f a) >>= fun _ => l.forM fun a => modify (f a)) s = _
    rw [exec_modify_bind]
    exact exec_forM f l (f a s)

end InPlace

end RustRaknet.Lib.Result
