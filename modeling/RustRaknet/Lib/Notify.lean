import Mathlib.Tactic

/-! # A notification with one waiter

A task waits alone for notifications, on a future that is created, polled and dropped. What is known
of such a type is the class `Notification`: a notification is `pending` from `notifyOne` on, polling
the future does not lose it, and a future that has been polled is ready when one is pending.

`Notify` is one such type. `notifyOne` wakes the waiter or, when none is registered, leaves a permit
for the next one. A waiter is registered when its future is polled for the first time, and finds no
permit then. One that is dropped after it was woken passes the notification on; one that has taken a
permit does not. -/

namespace RustRaknet.Lib

/-- The notifications of one waiter, with its future, and what may be relied on. -/
class Notification (ν : Type) where
  /-- No notification, and a future that has not been polled. -/
  new : ν
  /-- The waiter is notified. -/
  notifyOne : ν → ν
  /-- The future is polled for the first time. -/
  enable : ν → ν
  /-- The future completes, and there is a new one. -/
  complete : ν → ν
  /-- The future is dropped, and there is a new one. -/
  drop : ν → ν
  /-- The future has been polled. -/
  registered : ν → Bool
  /-- The future is ready. -/
  ready : ν → Bool
  /-- A notification waits to be taken. -/
  pending : ν → Bool
  pending_notifyOne : ∀ n, pending (notifyOne n) = true
  pending_enable : ∀ n, pending (enable n) = pending n
  registered_enable : ∀ n, registered (enable n) = true
  registered_notifyOne : ∀ n, registered (notifyOne n) = registered n
  ready_of_pending : ∀ {n}, registered n = true → pending n = true → ready n = true

attribute [simp] Notification.pending_notifyOne Notification.pending_enable
  Notification.registered_enable Notification.registered_notifyOne

/-- A notification and the future of its waiter: not polled yet, registered, woken, or completed by a
permit. While the waiter is registered there is no permit. -/
inductive Notify
  | absent (permit : Bool)
  | waiting
  | notified (permit : Bool)
  | done (permit : Bool)
  deriving DecidableEq, Repr

namespace Notify

/-- The waiter is woken, or finds a permit. -/
def notifyOne : Notify → Notify
  | .absent _ => .absent true
  | .waiting => .notified false
  | .notified _ => .notified true
  | .done _ => .done true

/-- The first poll takes the permit, or registers the waiter. -/
def enable : Notify → Notify
  | .absent true => .done false
  | .absent false => .waiting
  | n => n

/-- The future has been polled. -/
def registered : Notify → Bool
  | .absent _ => false
  | _ => true

/-- The future is ready. -/
def ready : Notify → Bool
  | .notified _ => true
  | .done _ => true
  | _ => false

/-- The future completes and is dropped. -/
def complete : Notify → Notify
  | .notified permit => .absent permit
  | .done permit => .absent permit
  | n => n

/-- The future is dropped. -/
def drop : Notify → Notify
  | .absent permit => .absent permit
  | .waiting => .absent false
  | .notified _ => .absent true
  | .done permit => .absent permit

/-- A notification waits to be taken. -/
def pending : Notify → Bool
  | .absent permit => permit
  | .waiting => false
  | _ => true

instance : Notification Notify where
  new := .absent false
  notifyOne := notifyOne
  enable := enable
  complete := complete
  drop := drop
  registered := registered
  ready := ready
  pending := pending
  pending_notifyOne n := by cases n <;> rfl
  pending_enable n := by rcases n with (_ | _) | _ | _ | _ <;> rfl
  registered_enable n := by rcases n with (_ | _) | _ | _ | _ <;> rfl
  registered_notifyOne n := by cases n <;> rfl
  ready_of_pending {n} hregistered hpending := by
    cases n with
    | absent permit => cases hregistered
    | waiting => cases hpending
    | notified permit | done permit => rfl

end Notify

end RustRaknet.Lib
