import Mathlib.Data.Nat.ModEq
import RestDiameterBridge.Lib.Transition
import RestDiameterBridge.Transport.Connection

/-!
# RestDiameterBridge.Transport.FailOverSends

Concurrent sends on one failover container (`FailOverConnection::send` in
`src/transport/failover_connect.rs`).

Every turn of the loop loads the shared index again, and a send that succeeds stores it, so
another send may come back to a connection it has attempted and leave one out.
`triesAll_iff` says in which runs a send that fails has attempted all its connections: those
in which the index was not set back between two turns of the send by just as many places as
the turns are apart.
-/

namespace RestDiameterBridge

/-- Where a send is. -/
inductive FailOverPhase
  /-- At the head of the loop, in turn `i`. -/
  | turn (i : Nat)
  /-- It sends to the connection at the position `index`. -/
  | sending (i index : Nat)
  /-- That has succeeded, and the index is still to be stored. -/
  | sent (index : Nat)
  | returned (result : Except String Unit)

/-- A send with its snapshot and the positions it has attempted. -/
structure FailOverSend where
  connections : List Connection
  attempted : List Nat
  phase : FailOverPhase

namespace FailOverSend

/-- The call, with a snapshot of the list. -/
def start (connections : List Connection) : FailOverSend :=
  { connections, attempted := []
    phase := if connections.length = 0 then .returned (.error "No available connections in failover")
      else .turn 0 }

/-- The send to the connection at `index` has failed in turn `i`. -/
def failed (connections : List Connection) (attempted : List Nat) (i index : Nat) : FailOverSend :=
  { connections, attempted := attempted ++ [index]
    phase := if i + 1 < connections.length then .turn (i + 1)
      else .returned (.error "Fail to send command after trying all connections in failover") }

/-- If it has returned an error, it has attempted every connection of its snapshot. -/
def TriesAll (send : FailOverSend) : Prop :=
  ∀ e, send.phase = .returned (.error e) → ∀ j < send.connections.length, j ∈ send.attempted

/-- The positions that the indexes loaded in the turns lead to. -/
def positions (n : Nat) (loaded : List Nat) : List Nat :=
  loaded.mapIdx fun i index => (index + i) % n

/-- In each turn the index has been loaded, and the connection it led to been attempted. -/
def Counts (send : FailOverSend) (loaded : List Nat) : Prop :=
  match send.phase with
  | .turn i =>
      i < send.connections.length ∧ loaded.length = i ∧
        send.attempted = positions send.connections.length loaded
  | .sending i index =>
      i < send.connections.length ∧ loaded.length = i + 1 ∧
        send.attempted ++ [index] = positions send.connections.length loaded
  | .sent _ | .returned _ => True

end FailOverSend

/-- A failover container with the sends on it, by task. -/
structure FailOverSends where
  connections : List Connection
  index : Nat
  sends : Nat → Option FailOverSend

namespace FailOverSends

/-- The steps of the tasks: each is one access to the list or the index, or one send of a
connection with its result. -/
inductive Label
  | send (task : Nat)
  | load (task : Nat)
  | child (task : Nat) (result : Except String Unit)
  | store (task : Nat)

def Label.task : Label → Nat
  | send task | load task | child task _ | store task => task

/-- The task goes on with its send. -/
def put (s : FailOverSends) (task : Nat) (send : FailOverSend) : FailOverSends :=
  { s with sends := Function.update s.sends task (some send) }

/-- One step. -/
def step (s : FailOverSends) : Label → Option FailOverSends
  | .send task =>
      match s.sends task with
      | none | some ⟨_, _, .returned _⟩ => some (s.put task (.start s.connections))
      | _ => none
  | .load task =>
      match s.sends task with
      | some ⟨connections, attempted, .turn i⟩ =>
          some (s.put task ⟨connections, attempted, .sending i ((s.index + i) % connections.length)⟩)
      | _ => none
  | .child task result =>
      match s.sends task with
      | some ⟨connections, attempted, .sending i index⟩ =>
          match result with
          | .ok () => some (s.put task ⟨connections, attempted ++ [index], .sent index⟩)
          | .error _ => some (s.put task (.failed connections attempted i index))
      | _ => none
  | .store task =>
      match s.sends task with
      | some ⟨connections, attempted, .sent index⟩ =>
          some { s.put task ⟨connections, attempted, .returned (.ok ())⟩ with
            index := (index + 1) % connections.length }
      | _ => none

/-- Nobody is at the container. -/
def new (connections : List Connection) (index : Nat) : FailOverSends :=
  { connections, index, sends := fun _ => none }

/-- All sends that have returned an error have attempted every connection. -/
def AllTried (s : FailOverSends) : Prop := ∀ task send, s.sends task = some send → send.TriesAll

/-- For each task, what the index was at the loads of its present send. -/
abbrev Loads := Nat → List Nat

/-- A call begins without a load, and each load sees the index as it is then. -/
def Loads.note (loads : Loads) (s : FailOverSends) : Label → Loads
  | .send task => Function.update loads task []
  | .load task => Function.update loads task (loads task ++ [s.index])
  | .child .. | .store _ => loads

/-- From a turn `i` to a later turn `j` the index has gone back by `j - i` of `n` places. -/
def SetBack (n : Nat) (loaded : List Nat) : Prop :=
  ∃ i j before after, i < j ∧ loaded[i]? = some before ∧ loaded[j]? = some after ∧
    after + (j - i) ≡ before [MOD n]

/-- When a child fails that is the last one for its send, the index has not been set back
between the turns of the send. -/
def NotSetBackAt (s : FailOverSends × Loads) : Label → Prop
  | .child task (.error _) =>
      (s.2 task).length = s.1.connections.length → ¬SetBack s.1.connections.length (s.2 task)
  | _ => True

/-- What the step does to the send of its task. -/
inductive Moves (s : FailOverSends) : Label → FailOverSend → Prop
  | start {task : Nat} : Moves s (.send task) (.start s.connections)
  | load {task : Nat} {connections : List Connection} {attempted : List Nat} {i : Nat} :
      s.sends task = some ⟨connections, attempted, .turn i⟩ →
      Moves s (.load task)
        ⟨connections, attempted, .sending i ((s.index + i) % connections.length)⟩
  | carried {task : Nat} {connections : List Connection} {attempted : List Nat} {i index : Nat} :
      s.sends task = some ⟨connections, attempted, .sending i index⟩ →
      Moves s (.child task (.ok ())) ⟨connections, attempted ++ [index], .sent index⟩
  | failed {task : Nat} {connections : List Connection} {attempted : List Nat} {i index : Nat}
      {e : String} :
      s.sends task = some ⟨connections, attempted, .sending i index⟩ →
      Moves s (.child task (.error e)) (.failed connections attempted i index)
  | stored {task : Nat} {connections : List Connection} {attempted : List Nat} {index : Nat} :
      s.sends task = some ⟨connections, attempted, .sent index⟩ →
      Moves s (.store task) ⟨connections, attempted, .returned (.ok ())⟩

/-! ### Positions -/

section
variable {n : Nat} {loaded : List Nat}

open FailOverSend (positions)

theorem positions_append (index : Nat) :
    positions n (loaded ++ [index]) = positions n loaded ++ [(index + loaded.length) % n] := by
  simp [positions, List.mapIdx_append]

theorem length_positions : (positions n loaded).length = loaded.length := List.length_mapIdx

theorem lt_of_mem_positions (hn : 0 < n) {j : Nat} (h : j ∈ positions n loaded) : j < n := by
  obtain ⟨i, hi, rfl⟩ := List.mem_mapIdx.mp h
  exact Nat.mod_lt _ hn

/-- The turns lead to different positions exactly if the index is not set back by as much as
they are apart. -/
theorem nodup_positions_iff : (positions n loaded).Nodup ↔ ¬SetBack n loaded := by
  -- a place is the same in two turns if the index has gone back as the turn has gone on
  have hsame : ∀ i j before after : Nat, i < j →
      ((before + i) % n = (after + j) % n ↔ after + (j - i) ≡ before [MOD n]) := by
    intro i j before after hlt
    have hturn : after + j = after + (j - i) + i := by omega
    rw [hturn]
    constructor
    · exact fun h => Nat.ModEq.add_right_cancel' i (Eq.symm h)
    · exact fun h => (h.add_right i).symm
  rw [List.nodup_iff_getElem?_ne_getElem?]
  constructor
  · rintro hnodup ⟨i, j, before, after, hlt, hi, hj, hback⟩
    obtain ⟨hj', -⟩ := List.getElem?_eq_some_iff.mp hj
    refine hnodup i j hlt (by rw [length_positions]; exact hj') ?_
    simp only [positions, List.getElem?_mapIdx, hi, hj, Option.map_some, Option.some.injEq]
    exact (hsame i j before after hlt).mpr hback
  · intro hback i j hlt hj hequal
    rw [length_positions] at hj
    have hi : i < loaded.length := Nat.lt_trans hlt hj
    simp only [positions, List.getElem?_mapIdx, List.getElem?_eq_getElem hi,
      List.getElem?_eq_getElem hj, Option.map_some, Option.some.injEq] at hequal
    exact hback ⟨i, j, loaded[i], loaded[j], hlt, List.getElem?_eq_getElem hi,
      List.getElem?_eq_getElem hj, (hsame i j _ _ hlt).mp hequal⟩

/-- An index that stays what it is is not set back while each connection has its turn. -/
theorem not_setBack_of_steady {index : Nat} (hsteady : ∀ loaded' ∈ loaded, loaded' = index)
    (hlength : loaded.length ≤ n) : ¬SetBack n loaded := by
  rintro ⟨i, j, before, after, hlt, hi, hj, hback⟩
  obtain rfl := hsteady before (List.mem_of_getElem? hi)
  obtain rfl := hsteady after (List.mem_of_getElem? hj)
  obtain ⟨hj', -⟩ := List.getElem?_eq_some_iff.mp hj
  have hdvd : n ∣ j - i := (Nat.modEq_zero_iff_dvd).mp (Nat.ModEq.add_left_cancel' after hback)
  have := Nat.le_of_dvd (by omega) hdvd
  omega

end

/-! ### Steps -/

section
variable {s t : FailOverSends} {label : Label} {send : FailOverSend}

theorem exists_moves (h : s.step label = some t) :
    ∃ send, s.Moves label send ∧ t.connections = s.connections ∧
      t.sends = Function.update s.sends label.task (some send) := by
  cases label with
  | send task =>
    simp only [step] at h
    split at h
    · obtain rfl := Option.some.inj h
      exact ⟨_, .start, rfl, rfl⟩
    · obtain rfl := Option.some.inj h
      exact ⟨_, .start, rfl, rfl⟩
    · cases h
  | load task =>
    simp only [step] at h
    split at h
    · rename_i hsend
      obtain rfl := Option.some.inj h
      exact ⟨_, .load hsend, rfl, rfl⟩
    · cases h
  | child task result =>
    simp only [step] at h
    split at h
    · rename_i hsend
      split at h
      · obtain rfl := Option.some.inj h
        exact ⟨_, .carried hsend, rfl, rfl⟩
      · obtain rfl := Option.some.inj h
        exact ⟨_, .failed hsend, rfl, rfl⟩
    · cases h
  | store task =>
    simp only [step] at h
    split at h
    · rename_i hsend
      obtain rfl := Option.some.inj h
      exact ⟨_, .stored hsend, rfl, rfl⟩
    · cases h

/-- What all sends had, all have if the send that moves has it. -/
theorem forall_sends_iff {P : Nat → FailOverSend → Prop} {task : Nat}
    (h : ∀ other, other ≠ task → ∀ send, s.sends other = some send → P other send)
    (hsends : t.sends = Function.update s.sends task (some send)) :
    (∀ task send, t.sends task = some send → P task send) ↔ P task send := by
  constructor
  · intro hall
    refine hall task send ?_
    rw [hsends, Function.update_self]
  · intro hsend other send' hmoved
    rw [hsends] at hmoved
    by_cases hother : other = task
    · subst hother
      rw [Function.update_self] at hmoved
      exact Option.some.inj hmoved ▸ hsend
    · rw [Function.update_of_ne hother] at hmoved
      exact h other hother send' hmoved

theorem note_of_ne {loads : Loads} {task : Nat} (h : task ≠ label.task) :
    loads.note s label task = loads task := by
  cases label with
  | send | load => exact Function.update_of_ne h ..
  | child | store => rfl

/-- Every send goes over the connections of the container and counts its turns. -/
def Counted (s : FailOverSends × Loads) : Prop :=
  ∀ task send, s.1.sends task = some send →
    send.connections = s.1.connections ∧ send.Counts (s.2 task)

/-- So does the send that moves. -/
theorem counts_of_moves {loads : Loads} (h : Counted (s, loads))
    (hmoves : s.Moves label send) :
    send.connections = s.connections ∧ send.Counts (loads.note s label label.task) := by
  cases hmoves with
  | start =>
    by_cases hempty : s.connections.length = 0
    · simp [FailOverSend.start, FailOverSend.Counts, hempty]
    · refine ⟨rfl, ?_⟩
      simp only [FailOverSend.start, FailOverSend.Counts, if_neg hempty, Loads.note, Label.task,
        Function.update_self]
      exact ⟨Nat.pos_of_ne_zero hempty, rfl, rfl⟩
  | @load _ connections attempted i hsend =>
    obtain ⟨hsame, hturn, hlength, hattempted⟩ := h _ _ hsend
    dsimp only at hattempted
    refine ⟨hsame, hturn, ?_, ?_⟩
    · simp [Loads.note, Label.task, hlength]
    · show attempted ++ [_] = _
      simp only [Loads.note, Label.task, Function.update_self, positions_append]
      rw [hlength, hattempted]
  | carried hsend => exact ⟨(h _ _ hsend).1, trivial⟩
  | @failed _ connections attempted i index _ hsend =>
    obtain ⟨hsame, -, hlength, hattempted⟩ := h _ _ hsend
    refine ⟨hsame, ?_⟩
    by_cases hnext : i + 1 < connections.length
    · simp only [FailOverSend.failed, FailOverSend.Counts, if_pos hnext]
      exact ⟨hnext, hlength, hattempted⟩
    · simp only [FailOverSend.failed, FailOverSend.Counts, if_neg hnext]
  | stored hsend => exact ⟨(h _ _ hsend).1, trivial⟩

theorem Counted.step {loads : Loads} (h : Counted (s, loads)) (hstep : s.step label = some t) :
    Counted (t, loads.note s label) := by
  obtain ⟨send, hmoves, hconnections, hsends⟩ := exists_moves hstep
  refine (forall_sends_iff (P := fun task send =>
    send.connections = t.connections ∧ send.Counts (loads.note s label task)) ?_ hsends).mpr ?_
  · intro other hother send' hsend'
    rw [hconnections, note_of_ne hother]
    exact h other send' hsend'
  · rw [hconnections]
    exact counts_of_moves h hmoves

/-- As many numbers below `n` as there are make up all of them exactly if they differ. -/
theorem forall_mem_iff_nodup {n : Nat} {l : List Nat} (hlength : l.length = n)
    (hlt : ∀ j ∈ l, j < n) : (∀ j < n, j ∈ l) ↔ l.Nodup := by
  constructor
  · intro hall
    have hsub : List.range n ⊆ l := fun j hj => hall j (List.mem_range.mp hj)
    have hperm := (List.subperm_of_subset List.nodup_range hsub).perm_of_length_le
      (by rw [List.length_range, hlength])
    exact hperm.nodup_iff.mp List.nodup_range
  · intro hnodup j hj
    have hsub : l ⊆ List.range n := fun j hj => List.mem_range.mpr (hlt j hj)
    have hperm := (List.subperm_of_subset hnodup hsub).perm_of_length_le
      (by rw [List.length_range, hlength])
    exact hperm.mem_iff.mpr (List.mem_range.mpr hj)

/-- A send that moves has attempted all its connections if it fails, exactly if the index was
not set back between its turns. -/
theorem triesAll_moves_iff {loads : Loads} (h : Counted (s, loads))
    (hmoves : s.Moves label send) :
    send.TriesAll ↔ NotSetBackAt (s, loads) label := by
  cases hmoves with
  | start =>
    refine iff_of_true (fun e hphase j hj => ?_) trivial
    have hpos : 0 < s.connections.length := Nat.zero_lt_of_lt hj
    rw [FailOverSend.start, if_neg (by omega)] at hphase
    cases hphase
  | load => exact iff_of_true (fun e hphase => by cases hphase) trivial
  | carried => exact iff_of_true (fun e hphase => by cases hphase) trivial
  | @failed task connections attempted i index e hsend =>
    obtain ⟨hsame, hturn, hlength, hattempted⟩ := h _ _ hsend
    dsimp only at hsame hturn hattempted
    simp only [NotSetBackAt, ← hsame]
    by_cases hlast : i + 1 = connections.length
    · have hall : (∀ j < connections.length, j ∈ attempted ++ [index]) ↔
          ¬SetBack connections.length (loads task) := by
        rw [hattempted, ← nodup_positions_iff]
        exact forall_mem_iff_nodup (by rw [length_positions, hlength, hlast])
          fun j hj => lt_of_mem_positions (by omega) hj
      constructor
      · exact fun htries _ => hall.mp (htries _ (if_neg (by omega)))
      · exact fun hback e' _ => hall.mpr (hback (hlength.trans hlast))
    · refine iff_of_true (fun e' hphase => ?_) fun hend => absurd (hlength.symm.trans hend) hlast
      rw [FailOverSend.failed, if_pos (by omega)] at hphase
      cases hphase
  | stored => exact iff_of_true (fun e hphase => by cases hphase) trivial

end

/-- **Failures after all connections.** Whatever the other sends do in between, the sends that
fail have attempted every connection of their snapshots throughout a run exactly if, whenever
a send fails, the index had not been set back between two turns of it by as many places as
the turns are apart. -/
theorem triesAll_iff (connections : List Connection) (index : Nat) (run : List Label) :
    Transition.Always step (fun _ _ t => t.AllTried) (new connections index) run ↔
      Transition.Always (Transition.observed step Loads.note) (fun s label _ => NotSetBackAt s label)
        (new connections index, fun _ => []) run := by
  rw [← Transition.always_observed_iff Loads.note fun _ => []]
  refine Transition.always_congr (I := fun s => Counted s ∧ s.1.AllTried) ?_ ?_
    ⟨by simp [Counted, new], by simp [AllTried, new]⟩
  · rintro ⟨s, loads⟩ label ⟨t, loads'⟩ ⟨hcounted, htried⟩ hback hstep
    obtain ⟨hstep, rfl⟩ := Transition.eq_of_observed hstep
    obtain ⟨send, hmoves, -, hsends⟩ := exists_moves hstep
    refine ⟨hcounted.step hstep, ?_⟩
    exact (forall_sends_iff (fun other _ => htried other) hsends).mpr
      ((triesAll_moves_iff hcounted hmoves).mpr hback)
  · rintro ⟨s, loads⟩ label ⟨t, loads'⟩ ⟨hcounted, htried⟩ hstep
    obtain ⟨hstep, -⟩ := Transition.eq_of_observed hstep
    obtain ⟨send, hmoves, -, hsends⟩ := exists_moves hstep
    exact (forall_sends_iff (fun other _ => htried other) hsends).trans
      (triesAll_moves_iff hcounted hmoves)

/-- A container of two connections. -/
def twoConnections : FailOverSends :=
  new [.leaf ⟨1, "a:1", "a", "test.com"⟩, .leaf ⟨2, "b:1", "b", "test.com"⟩] 0

/-- The first turn of a send fails, another send succeeds and moves the index, and the second
turn comes back to the first connection. -/
def overtaken : List Label :=
  [.send 0, .load 0, .child 0 (.error "closed"), .send 1, .load 1, .child 1 (.ok ()), .store 1,
    .load 0, .child 0 (.error "closed")]

/-- The send then fails without an attempt on the second connection. -/
theorem not_triesAll_overtaken :
    (Transition.run step twoConnections overtaken).bind (fun s => s.sends 0) =
        some ⟨twoConnections.connections, [0, 0], .returned
          (.error "Fail to send command after trying all connections in failover")⟩ ∧
      ¬Transition.Always step (fun _ _ t => t.AllTried) twoConnections overtaken := by
  have hfails : (Transition.run step twoConnections overtaken).bind (fun s => s.sends 0) =
      some ⟨twoConnections.connections, [0, 0], .returned
        (.error "Fail to send command after trying all connections in failover")⟩ := by rfl
  refine ⟨hfails, fun h => ?_⟩
  obtain ⟨s, hrun, hsend⟩ := Option.bind_eq_some_iff.mp hfails
  have htried : s.AllTried := h.invariant (I := AllTried) (fun _ ht _ => ht) (fun _ _ hnone => by
    cases hnone) hrun
  have hsecond := htried 0 _ hsend _ rfl 1 (by decide)
  exact absurd hsecond (by decide)

end FailOverSends

end RestDiameterBridge
