import Mathlib.Data.List.Basic

/-!
# RestDiameterBridge.Lib.Notify

A notification that keeps one permit: a signal without a waiter is kept for the next one, a
signal with waiters goes to the one that has waited longest.
-/

/-- The permit, the waiters in the order they came, and those that have been signalled and have
not gone on yet. While anybody waits there is no permit. -/
structure Notify (W : Type) where
  permit : Bool
  waiting : List W
  woken : List W
  waiting_of_permit : permit = true → waiting = []

namespace Notify

variable {W : Type}

/-- Nobody waits and nothing is signalled. -/
def new : Notify W where
  permit := false
  waiting := []
  woken := []
  waiting_of_permit := fun _ => rfl

/-- Signal. -/
def notifyOne (n : Notify W) : Notify W :=
  match h : n.waiting with
  | [] => { n with permit := true, waiting_of_permit := fun _ => h }
  | w :: waiting =>
      { permit := n.permit
        waiting
        woken := n.woken ++ [w]
        waiting_of_permit := fun hpermit => by
          rw [n.waiting_of_permit hpermit] at h
          cases h }

/-- Take the permit, or join the waiters: is the wait over? -/
def notified (n : Notify W) (w : W) : Bool × Notify W :=
  if n.permit then (true, { n with permit := false, waiting_of_permit := nofun })
  else (false, { n with permit := false, waiting := n.waiting ++ [w], waiting_of_permit := nofun })

/-- Go on after a signal. -/
def resume [DecidableEq W] (n : Notify W) (w : W) : Option (Notify W) :=
  if w ∈ n.woken then some { n with woken := n.woken.erase w } else none

/-- A waiter has been signalled, or the next one need not wait. -/
def Signalled (n : Notify W) : Prop := n.permit = true ∨ n.woken ≠ []

variable {n n' : Notify W} {w v : W}

@[simp] theorem not_signalled_new : ¬(new : Notify W).Signalled := by simp [Signalled, new]

theorem signalled_notifyOne : n.notifyOne.Signalled := by
  unfold notifyOne
  split
  · exact .inl rfl
  · exact .inr (by simp)

/-- The waiters after a signal are the same but for the first. -/
theorem waiting_notifyOne : n.notifyOne.waiting = n.waiting.tail := by
  unfold notifyOne
  split
  next h => simp [h]
  next h => simp [h]

/-- The first waiter is signalled. -/
theorem woken_notifyOne : n.notifyOne.woken = n.woken ++ n.waiting.take 1 := by
  unfold notifyOne
  split
  next h => simp [h]
  next h => simp [h]

/-- A wait is over at once only if there was a permit; otherwise it is registered. -/
theorem notified_cases (n : Notify W) (w : W) :
    (n.notified w).1 = true ∧ n.permit = true ∧ (n.notified w).2.waiting = [] ∧
        (n.notified w).2.woken = n.woken ∨
      (n.notified w).1 = false ∧ n.permit = false ∧ (n.notified w).2.permit = false ∧
        (n.notified w).2.waiting = n.waiting ++ [w] ∧ (n.notified w).2.woken = n.woken := by
  unfold notified
  cases hpermit : n.permit with
  | true => exact .inl ⟨rfl, rfl, n.waiting_of_permit hpermit, rfl⟩
  | false => exact .inr ⟨rfl, rfl, rfl, rfl, rfl⟩

theorem resume_eq_some [DecidableEq W] :
    n.resume w = some n' ↔ w ∈ n.woken ∧ n' = { n with woken := n.woken.erase w } := by
  rw [resume, Option.ite_none_right_eq_some, Option.some.injEq, eq_comm]

end Notify
