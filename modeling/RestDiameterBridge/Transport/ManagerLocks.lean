import RestDiameterBridge.Lib.Locks

/-!
# RestDiameterBridge.Transport.ManagerLocks

The two locks of the connection manager (`src/transport/connection_manager.rs`).

`add_connection` and `remove_connection_by_id` take `connections` first and
`host_realm_connections` while they hold it, `remove_connection` the other way round. So the
two can wait for each other for ever: `lockFree_iff` says in which runs none do, and
`lockFree_of_not_removeConnection` that nothing else deadlocks.
-/

namespace RestDiameterBridge

open Locks (Action Label Ordered Proper Tasks asks guarded owes)

inductive ManagerLock
  | connections
  | hostRealmConnections
  deriving DecidableEq

namespace ManagerLocks

open ManagerLock

/-- The operations of the manager that take its locks, with the branches they take. -/
inductive Operation
  | connectionCount
  | addConnection
  | removeConnection
  | removeConnectionById (found : Bool)
  | getConnectionById
  | getConnectionByHostRealm
  | getConnectionsByHosts
  /-- No redirect is cached for the request, or else there are connections to its hosts or
  not. -/
  | getConnectionsForRequest (redirect : Option Bool)

/-- The lookup among the redirects: the guard lives to the end of the block. -/
def getRedirectConnections : Option Bool → List (Action ManagerLock)
  | none => []
  | some _ => guarded connections []

/-- What an operation does with the locks. -/
def Operation.actions : Operation → List (Action ManagerLock)
  | connectionCount | getConnectionById | getConnectionsByHosts => guarded connections []
  | getConnectionByHostRealm => guarded hostRealmConnections []
  -- both guards live to the end of the function
  | addConnection => guarded connections (guarded hostRealmConnections [])
  -- the guard of `connections` is a temporary of the last statement
  | removeConnection => guarded hostRealmConnections (guarded connections [])
  -- the guard is a temporary of the `if let`, which lives as long as the body
  | removeConnectionById true => guarded connections (guarded hostRealmConnections [])
  | removeConnectionById false => guarded connections []
  | getConnectionsForRequest (some true) => getRedirectConnections (some true)
  | getConnectionsForRequest redirect =>
      getRedirectConnections redirect ++ guarded hostRealmConnections []

/-- A state of the locks and of the tasks that use them. -/
abbrev LockTasks := Tasks ManagerLock Nat

theorem two_locks (a b c : ManagerLock) (h : a ≠ b) : c = a ∨ c = b := by
  cases a <;> cases b <;> cases c <;> simp at h ⊢

theorem forall_lock_iff {p : ManagerLock → Prop} :
    (∀ lock, p lock) ↔ p connections ∧ p hostRealmConnections := by
  constructor
  · exact fun h => ⟨h _, h _⟩
  · rintro ⟨hc, hh⟩ (_ | _)
    · exact hc
    · exact hh

theorem proper_actions (op : Operation) :
    Proper op.actions ∧ ∀ lock, owes op.actions lock = false := by
  cases op with
  | removeConnectionById found =>
    cases found <;> simp [Operation.actions, guarded, Proper, owes, asks, forall_lock_iff]
  | getConnectionsForRequest redirect =>
    rcases redirect with _ | _ | _ <;>
      simp [Operation.actions, getRedirectConnections, guarded, Proper, owes, asks]
  | _ => simp [Operation.actions, guarded, Proper, owes, asks, forall_lock_iff]

/-! ### The operations between their locks -/

/-- It takes `connections`, and `host_realm_connections` while it holds that. -/
def Operation.ConnectionsFirst : Operation → Prop
  | addConnection | removeConnectionById true => True
  | _ => False

theorem Operation.ConnectionsFirst.actions_eq {op : Operation} (h : op.ConnectionsFirst) :
    op.actions = guarded connections (guarded hostRealmConnections []) := by
  match op, h with
  | .addConnection, _ | .removeConnectionById true, _ => rfl

/-- The two take both locks, each in the other's order. -/
def Operation.Opposed (op other : Operation) : Prop :=
  op = removeConnection ∧ other.ConnectionsFirst ∨ op.ConnectionsFirst ∧ other = removeConnection

/-- For each task, the operation it has begun last and how many steps of it were done. -/
abbrev Progress := Nat → Option (Operation × Nat)

def Progress.note (progress : Progress) (_ : LockTasks) : Label Nat Operation → Progress
  | .start task op => Function.update progress task (some (op, 0))
  | .advance task =>
      Function.update progress task ((progress task).map fun begun => (begun.1, begun.2 + 1))

/-- No operation takes the first of its two locks while an opposed one has done just that. -/
def KeepsApartAt (progress : Progress) : Label Nat Operation → Prop
  | .start .. => True
  | .advance task =>
      ∀ op other opposed, progress task = some (op, 0) → progress other = some (opposed, 1) →
        ¬op.Opposed opposed

/-- What is left of the operation of a task. -/
def Progress.todo (progress : Progress) (task : Nat) : List (Action ManagerLock) :=
  (progress task).elim [] fun begun => begun.1.actions.drop begun.2

section
variable {op : Operation} {done : Nat} {k l : ManagerLock} {rest : List (Action ManagerLock)}

/-- An operation takes a lock and then waits for another one with its first step only. -/
theorem first_of_drop (h : op.actions.drop done = .acquire k :: rest) (hasks : asks rest = some l) :
    done = 0 ∧ (op = .removeConnection ∧ k = hostRealmConnections ∨
      op.ConnectionsFirst ∧ k = connections) := by
  match op with
  | .addConnection | .removeConnection | .removeConnectionById true =>
    rcases done with _ | _ | _ | _ | _ <;>
      simp [Operation.actions, guarded] at h <;>
      obtain ⟨rfl, rfl⟩ := h <;>
      simp [asks, Operation.ConnectionsFirst] at hasks ⊢
  | .connectionCount | .getConnectionById | .getConnectionsByHosts | .getConnectionByHostRealm
  | .removeConnectionById false | .getConnectionsForRequest (some true)
  | .getConnectionsForRequest none | .getConnectionsForRequest (some false) =>
    rcases done with _ | _ | _ | _ | _ <;>
      simp [Operation.actions, getRedirectConnections, guarded] at h <;>
      obtain ⟨rfl, rfl⟩ := h <;>
      simp [asks] at hasks

/-- It holds a lock and waits for another one only behind its first step. -/
theorem second_of_drop (hasks : asks (op.actions.drop done) = some k)
    (howes : owes (op.actions.drop done) l = true) :
    done = 1 ∧ (op = .removeConnection ∧ k = connections ∧ l = hostRealmConnections ∨
      op.ConnectionsFirst ∧ k = hostRealmConnections ∧ l = connections) := by
  match op with
  | .addConnection | .removeConnection | .removeConnectionById true =>
    rcases done with _ | _ | _ | _ | _ <;>
      cases k <;> cases l <;>
        simp [Operation.actions, guarded, asks, owes, Operation.ConnectionsFirst] at hasks howes ⊢
  | .connectionCount | .getConnectionById | .getConnectionsByHosts | .getConnectionByHostRealm
  | .removeConnectionById false | .getConnectionsForRequest (some true) =>
    rcases done with _ | _ | _ <;> cases k <;> cases l <;>
      simp [Operation.actions, getRedirectConnections, guarded, asks, owes] at hasks howes
  | .getConnectionsForRequest none | .getConnectionsForRequest (some false) =>
    rcases done with _ | _ | _ | _ | _ <;> cases k <;> cases l <;>
      simp [Operation.actions, getRedirectConnections, guarded, asks, owes] at hasks howes

end

/-- The tasks have left to do what their operations have not done. -/
structure Kept (s : LockTasks × Progress) : Prop where
  sound : s.1.Sound
  todo : ∀ task, s.1.todo task = s.2.todo task

section
variable {s s' : LockTasks} {progress : Progress} {label : Label Nat Operation}

theorem todo_of_some {task : Nat} {op : Operation} {done : Nat}
    (h : progress task = some (op, done)) : progress.todo task = op.actions.drop done := by
  rw [Progress.todo, h]
  rfl

theorem todo_of_ne {task : Nat} (h : task ≠ label.task) :
    (progress.note s label).todo task = progress.todo task := by
  have hsame : progress.note s label task = progress task := by
    cases label <;> exact Function.update_of_ne h ..
  rw [Progress.todo, hsame, Progress.todo]

theorem todo_advance {task : Nat} :
    (progress.note s (.advance task)).todo task = (progress.todo task).tail := by
  simp only [Progress.todo, Progress.note, Function.update_self]
  cases progress task with
  | none => rfl
  | some p => exact (List.tail_drop ..).symm

theorem Kept.step (h : Kept (s, progress))
    (hmoves : Tasks.Moves Operation.actions s label s') : Kept (s', progress.note s label) := by
  refine ⟨h.sound.move proper_actions hmoves, fun task => ?_⟩
  by_cases htask : task = label.task
  · subst htask
    cases hmoves with
    | start =>
      simp only [Label.task, Progress.todo, Progress.note, Function.update_self]
      rfl
    | @acquire t _ _ htodo | @release t _ _ htodo =>
      simp only [Label.task, todo_advance, Function.update_self]
      rw [← h.todo t, htodo]
      rfl
  · rw [(hmoves.others htask).1, todo_of_ne htask]
    exact h.todo task

/-- What a task with something left to do has begun. -/
theorem Kept.exists_op (h : Kept (s, progress)) {task : Nat} (htodo : s.todo task ≠ []) :
    ∃ op done, progress task = some (op, done) ∧ s.todo task = op.actions.drop done := by
  have hkept : s.todo task = progress.todo task := h.todo task
  cases hop : progress task with
  | none =>
    rw [Progress.todo, hop] at hkept
    exact absurd hkept htodo
  | some begun => exact ⟨begun.1, begun.2, rfl, hkept.trans (todo_of_some hop)⟩

theorem Kept.crossesAt_of_first (h : Kept (s, progress)) {task other : Nat} {op opposed : Operation}
    {k l : ManagerLock} {rest rest' : List (Action ManagerLock)}
    (hop : progress task = some (op, 0)) (hactions : op.actions = .acquire k :: .acquire l :: rest)
    (hopposed : progress other = some (opposed, 1))
    (hactions' : opposed.actions = .acquire l :: .acquire k :: rest') :
    s.CrossesAt (.advance task : Label Nat Operation) := by
  have htodo : s.todo task = .acquire k :: .acquire l :: rest := by
    rw [h.todo, todo_of_some hop, List.drop_zero, hactions]
  have htodo' : s.todo other = .acquire k :: rest' := by
    rw [h.todo, todo_of_some hopposed, hactions', List.drop_one, List.tail_cons]
  have hproper := (proper_actions opposed).1
  rw [hactions'] at hproper
  refine ⟨k, l, _, other, htodo, rfl, ?_, ?_⟩
  · rw [(h.sound other).2 l, htodo']
    exact hproper.1
  · rw [htodo']
    rfl

/-- A step leads to a deadlock exactly if it brings an operation between its locks while an
opposed one is there. -/
theorem Kept.crossesAt_iff (h : Kept (s, progress))
    (hmoves : Tasks.Moves Operation.actions s label s') :
    s.CrossesAt label ↔ ¬KeepsApartAt progress label := by
  constructor
  · intro hcrosses hapart
    cases label with
    | start => exact hcrosses
    | advance task =>
      obtain ⟨k, l, rest, other, htodo, hl, hholder, hk⟩ := hcrosses
      obtain ⟨op, done, hop, hdrop⟩ := h.exists_op (by rw [htodo]; exact List.cons_ne_nil _ _)
      have hother : s.todo other ≠ [] := by
        intro hnil
        rw [hnil] at hk
        cases hk
      obtain ⟨opposed, done', hopposed, hdrop'⟩ := h.exists_op hother
      have howes := ((h.sound other).2 l).mp hholder
      rw [hdrop'] at hk howes
      obtain ⟨rfl, hfirst⟩ := first_of_drop (hdrop.symm.trans htodo) hl
      obtain ⟨rfl, hsecond⟩ := second_of_drop hk howes
      refine hapart op other opposed hop hopposed ?_
      rcases hfirst with ⟨hfirst, rfl⟩ | ⟨hfirst, rfl⟩
      · rcases hsecond with ⟨-, hne, -⟩ | ⟨hsecond, -⟩
        · cases hne
        · exact .inl ⟨hfirst, hsecond⟩
      · rcases hsecond with ⟨hsecond, -⟩ | ⟨-, hne, -⟩
        · exact .inr ⟨hfirst, hsecond⟩
        · cases hne
  · intro hnot
    cases label with
    | start => exact absurd trivial hnot
    | advance task =>
      simp only [KeepsApartAt, not_forall, not_not] at hnot
      obtain ⟨op, other, opposed, hop, hopposed, hopp⟩ := hnot
      rcases hopp with ⟨rfl, hfirst⟩ | ⟨hfirst, rfl⟩
      · exact h.crossesAt_of_first hop rfl hopposed hfirst.actions_eq
      · exact h.crossesAt_of_first hop hfirst.actions_eq hopposed rfl

end

/-- **Deadlocks of the manager.** Whatever the tasks do, no state of a run has a deadlock
exactly if no `remove_connection` takes its first lock while an `add_connection` or a
`remove_connection_by_id` that has found its connection is between its two, nor the other way
round. -/
theorem lockFree_iff (run : List (Label Nat Operation)) :
    Transition.Always (Tasks.step Operation.actions) (fun _ _ t => t.Free) (Tasks.idle : LockTasks)
        run ↔
      Transition.Always (Transition.observed (Tasks.step Operation.actions) Progress.note)
        (fun s label _ => KeepsApartAt s.2 label) ((Tasks.idle : LockTasks), fun _ => none) run := by
  rw [Tasks.always_free_iff two_locks proper_actions,
    ← Transition.always_observed_iff Progress.note fun _ => none]
  refine Transition.always_congr (I := Kept) ?_ ?_ ⟨Tasks.sound_idle, fun _ => rfl⟩
  · rintro ⟨s, progress⟩ label ⟨s', progress'⟩ hs - hstep
    obtain ⟨hstep, rfl⟩ := Transition.eq_of_observed hstep
    exact hs.step (Tasks.moves_of_step hstep)
  · rintro ⟨s, progress⟩ label ⟨s', progress'⟩ hs hstep
    obtain ⟨hstep, -⟩ := Transition.eq_of_observed hstep
    exact not_iff_comm.mp (hs.crossesAt_iff (Tasks.moves_of_step hstep)).symm

/-- A connection is added while another is removed. -/
def addingAndRemoving : List (Label Nat Operation) :=
  [.start 0 .addConnection, .start 1 .removeConnection, .advance 0, .advance 1]

/-- Each of the two then holds the lock that the other one waits for. -/
theorem not_lockFree_addingAndRemoving :
    (∃ s, Transition.run (Tasks.step Operation.actions) (Tasks.idle : LockTasks)
        addingAndRemoving = some s ∧ s.Deadlocked {0, 1}) ∧
      ¬Transition.Always (Tasks.step Operation.actions) (fun _ _ t => t.Free)
        (Tasks.idle : LockTasks) addingAndRemoving := by
  have hdeadlock : ∃ s, Transition.run (Tasks.step Operation.actions) (Tasks.idle : LockTasks)
      addingAndRemoving = some s ∧ s.Deadlocked {0, 1} := by
    refine ⟨_, rfl, Tasks.Crossing.deadlocked ?_⟩
    exact ⟨by decide, connections, hostRealmConnections, rfl, rfl, rfl, rfl⟩
  refine ⟨hdeadlock, fun h => ?_⟩
  obtain ⟨s, hrun, hdeadlocked⟩ := hdeadlock
  exact h.invariant (I := Tasks.Free) (fun _ hfree _ => hfree) Tasks.free_idle hrun _ hdeadlocked

/-- The place of a lock in the order of the operations but `remove_connection`. -/
def rank : ManagerLock → Nat
  | connections => 0
  | hostRealmConnections => 1

theorem ordered_actions {op : Operation} (h : op ≠ .removeConnection) :
    Ordered rank op.actions := by
  cases op with
  | removeConnection => exact absurd rfl h
  | removeConnectionById found =>
    cases found <;> simp [Operation.actions, guarded, Ordered, owes, rank, forall_lock_iff]
  | getConnectionsForRequest redirect =>
    rcases redirect with _ | _ | _ <;>
      simp [Operation.actions, getRedirectConnections, guarded, Ordered, owes]
  | _ => simp [Operation.actions, guarded, Ordered, owes, rank, forall_lock_iff]

/-- Without `remove_connection` there is no deadlock. -/
theorem lockFree_of_not_removeConnection
    (run : List (Label Nat { op : Operation // op ≠ .removeConnection })) :
    Transition.Always (Tasks.step fun op => op.1.actions) (fun _ _ t => t.Free)
      (Tasks.idle : LockTasks) run :=
  Tasks.always_free_of_ordered two_locks (fun op => proper_actions op.1)
    (fun op => ordered_actions op.2) run

end ManagerLocks

end RestDiameterBridge
