import RestDiameterBridge.Lib.OrPanic
import RestDiameterBridge.Lib.Transition
import RestDiameterBridge.Transport.Connection

/-!
# RestDiameterBridge.Transport.RoundRobinSnapshot

`RoundRobinConnection::get_connections` while other tasks change the list
(`src/transport/roundrobin_connection.rs`, `connection_list.rs`).

A call locks the list twice, once for a snapshot and once for the length, and then draws
the index; its loop runs over the length but indexes the snapshot. `rotates_iff` says in
which runs every call appends a rotation of its snapshot: those in which the two agree
whenever an index is drawn.
-/

namespace RestDiameterBridge

/-- `a + b` on a `usize`. -/
def addUsize (overflowChecks : Bool) (a b : Nat) : OrPanic Nat :=
  if overflowChecks ∧ 2 ^ 64 ≤ a + b then none else some ((a + b) % 2 ^ 64)

/-- A call of `get_connections`. -/
inductive GetConnections
  /-- It has its snapshot. -/
  | listed (connList : List Connection)
  /-- It has read the length too. -/
  | counted (connList : List Connection) (n : Nat)
  /-- It has drawn its index and run its loop. -/
  | drawn (connList : List Connection) (n index : Nat)

/-- A container with the calls of `get_connections` on it, by task. -/
structure RoundRobinConnection where
  connections : List Connection
  index : Nat
  calls : Nat → Option GetConnections
  index_lt : index < 2 ^ 64

namespace RoundRobinConnection

/-- The values of `idx` in the loop. -/
def indices (overflowChecks : Bool) (n index : Nat) : OrPanic (List Nat) :=
  (List.range n).mapM fun i => (addUsize overflowChecks index i).map (· % n)

/-- What the loop appends. Indexing behind the end of the snapshot panics. -/
def appended (overflowChecks : Bool) (connList : List Connection) (n index : Nat) :
    OrPanic (List Connection) :=
  (List.range n).mapM fun i => (addUsize overflowChecks index i).bind fun sum => connList[sum % n]?

/-- The loop uses every position of the snapshot once, in a rotated order. -/
def Rotates (overflowChecks : Bool) (connList : List Connection) (n index : Nat) : Prop :=
  ∃ k, indices overflowChecks n index = some ((List.range connList.length).rotate k) ∧
    appended overflowChecks connList n index = some (connList.rotate k)

/-- The length read is that of the snapshot, and counting on from the index does not leave
the `usize`, or comes out even. -/
def Agrees (overflowChecks : Bool) (connList : List Connection) (n index : Nat) : Prop :=
  n = connList.length ∧ (index + n ≤ 2 ^ 64 ∨ overflowChecks = false ∧ n ∣ 2 ^ 64)

section
variable {overflowChecks : Bool} {connList : List Connection} {n index : Nat} {is : List Nat}

theorem rotate_range (n k : Nat) :
    (List.range n).rotate k = (List.range n).map fun i => (k + i) % n := by
  refine List.ext_getElem (by simp) fun i _ hi => ?_
  simp [List.getElem_rotate, Nat.add_comm]

theorem addUsize_of_lt {a b : Nat} (h : a + b < 2 ^ 64) :
    addUsize overflowChecks a b = some (a + b) := by
  rw [addUsize, if_neg (by omega), Nat.mod_eq_of_lt h]

/-- Where the sums are right the loop goes round. -/
theorem indices_of_sums (h : ∀ i < n, ∃ sum, addUsize overflowChecks index i = some sum ∧
    sum % n = (index + i) % n) :
    indices overflowChecks n index = some ((List.range n).rotate index) := by
  rw [rotate_range]
  refine OrPanic.mapM_eq_some_iff.mpr ?_
  rw [List.forall₂_map_right_iff, List.forall₂_same]
  intro i hi
  obtain ⟨sum, hsum, hmod⟩ := h i (List.mem_range.mp hi)
  rw [hsum, Option.map_some, hmod]

theorem exists_sum (h : Agrees overflowChecks connList n index) :
    ∀ i < n, ∃ sum, addUsize overflowChecks index i = some sum ∧ sum % n = (index + i) % n := by
  intro i hi
  rcases h.2 with hfits | ⟨hchecks, hdvd⟩
  · exact ⟨index + i, addUsize_of_lt (by omega), rfl⟩
  · refine ⟨(index + i) % 2 ^ 64, ?_, Nat.mod_mod_of_dvd _ hdvd⟩
    rw [addUsize, hchecks, if_neg (by simp)]

theorem appended_of_sums (h : ∀ i < connList.length, ∃ sum,
    addUsize overflowChecks index i = some sum ∧
      sum % connList.length = (index + i) % connList.length) :
    appended overflowChecks connList connList.length index = some (rotation connList index) := by
  refine OrPanic.mapM_eq_some_iff.mpr ?_
  rw [rotation, List.forall₂_iff_get]
  refine ⟨by simp, fun i hi hi' => ?_⟩
  have hlt : i < connList.length := by simpa using hi
  obtain ⟨sum, hsum, hmod⟩ := h i hlt
  simp [hsum, hmod, Nat.mod_lt _ (Nat.zero_lt_of_lt hlt)]

/-- While counting on from the index does not leave the `usize`, the loop appends what
`Connection.getConnections` gives. -/
theorem appended_eq_rotation (hfits : index + connList.length ≤ 2 ^ 64) :
    appended overflowChecks connList connList.length index = some (rotation connList index) :=
  appended_of_sums (exists_sum ⟨rfl, .inl hfits⟩)

theorem rotates_of_agrees (h : Agrees overflowChecks connList n index) :
    Rotates overflowChecks connList n index := by
  have hsums := exists_sum h
  obtain rfl := h.1
  refine ⟨index, indices_of_sums hsums, ?_⟩
  rw [← rotation_eq_rotate]
  exact appended_of_sums hsums

theorem getElem_indices (h : indices overflowChecks n index = some is) {i : Nat} (hi : i < n) :
    ∃ sum, addUsize overflowChecks index i = some sum ∧ is[i]? = some (sum % n) := by
  obtain ⟨hlength, hget⟩ := List.forall₂_iff_get.mp (OrPanic.mapM_eq_some_iff.mp h)
  have hlt : i < is.length := by
    rw [← hlength, List.length_range]
    exact hi
  have hi' := hget i (by rwa [List.length_range]) hlt
  obtain ⟨sum, hsum, hmod⟩ := Option.map_eq_some_iff.mp hi'
  refine ⟨sum, by simpa using hsum, ?_⟩
  rw [List.getElem?_eq_getElem hlt, hmod]
  rfl

/-- Behind the largest `usize` the loop starts again at the front, which fits only if the
length divides their number. -/
theorem dvd_of_wraps {k : Nat} (hindex : index < 2 ^ 64) (hover : 2 ^ 64 < index + n)
    (h : indices overflowChecks n index = some ((List.range n).rotate k)) :
    overflowChecks = false ∧ n ∣ 2 ^ 64 := by
  have hget : ∀ i < n, ∃ sum, addUsize overflowChecks index i = some sum ∧ sum % n = (k + i) % n := by
    intro i hi
    obtain ⟨sum, hsum, hi'⟩ := getElem_indices h hi
    refine ⟨sum, hsum, ?_⟩
    rw [rotate_range, List.getElem?_map, List.getElem?_range hi] at hi'
    exact (Option.some.inj hi').symm
  -- at this `i` the sum is 2 ^ 64, at the one before the largest `usize`
  obtain ⟨first, hfirst, hfirstMod⟩ := hget (2 ^ 64 - index) (by omega)
  obtain ⟨last, hlast, hlastMod⟩ := hget (2 ^ 64 - 1 - index) (by omega)
  have hsum : index + (2 ^ 64 - index) = 2 ^ 64 := by omega
  rw [addUsize, hsum] at hfirst
  split at hfirst
  · cases hfirst
  rename_i hunchecked
  obtain rfl := Option.some.inj hfirst
  rw [addUsize_of_lt (by omega)] at hlast
  obtain rfl := Option.some.inj hlast
  refine ⟨by simpa using hunchecked, Nat.dvd_of_mod_eq_zero ?_⟩
  -- the sum before the largest `usize` and the one behind it stand next to each other
  rw [Nat.mod_self, Nat.zero_mod] at hfirstMod
  have hnext : k + (2 ^ 64 - index) = k + (2 ^ 64 - 1 - index) + 1 := by omega
  have hlargest : 2 ^ 64 = index + (2 ^ 64 - 1 - index) + 1 := by omega
  rw [hnext, Nat.add_mod, ← hlastMod] at hfirstMod
  rw [hlargest, Nat.add_mod]
  exact hfirstMod.symm

theorem agrees_of_rotates (hindex : index < 2 ^ 64) (h : Rotates overflowChecks connList n index) :
    Agrees overflowChecks connList n index := by
  obtain ⟨k, hindices, -⟩ := h
  have hn : n = connList.length := by
    have hlength := (List.forall₂_iff_get.mp (OrPanic.mapM_eq_some_iff.mp hindices)).1
    simpa using hlength
  subst hn
  refine ⟨rfl, ?_⟩
  rcases Nat.lt_or_ge (2 ^ 64) (index + connList.length) with hover | hfits
  · exact .inr (dvd_of_wraps hindex hover hindices)
  · exact .inl hfits

end

/-! ### Runs -/

/-- Nobody is at the container. -/
def new (connections : List Connection) (index : Fin (2 ^ 64)) : RoundRobinConnection :=
  { connections, index := index, calls := fun _ => none, index_lt := index.isLt }

/-- The steps of the tasks: each is one access to the list or the index. -/
inductive Label
  | addConnection (c : Connection)
  | removeConnection (c : Connection)
  | getConnections (task : Nat)
  | len (task : Nat)
  | fetchAdd (task : Nat)

/-- The task goes on with its call. -/
def put (s : RoundRobinConnection) (task : Nat) (call : GetConnections) : RoundRobinConnection :=
  { s with calls := Function.update s.calls task (some call) }

/-- One step. -/
def step (s : RoundRobinConnection) : Label → Option RoundRobinConnection
  | .addConnection c => some { s with connections := s.connections ++ [c] }
  | .removeConnection c =>
      some { s with connections := s.connections.filter fun conn => conn.self.addr ≠ c.self.addr }
  | .getConnections task =>
      match s.calls task with
      -- the snapshot, under the lock of the list
      | none | some (.drawn ..) => some (s.put task (.listed s.connections))
      | _ => none
  | .len task =>
      match s.calls task with
      -- the lock is taken again, and the list may be another one by now
      | some (.listed connList) => some (s.put task (.counted connList s.connections.length))
      | _ => none
  | .fetchAdd task =>
      match s.calls task with
      | some (.counted connList n) =>
          some { s.put task (.drawn connList n s.index) with
            index := (s.index + 1) % 2 ^ 64
            index_lt := Nat.mod_lt _ (by decide) }
      | _ => none

/-- All calls that have run their loop have appended a rotation of their snapshot. -/
def AllRotate (overflowChecks : Bool) (s : RoundRobinConnection) : Prop :=
  ∀ task connList n index, s.calls task = some (.drawn connList n index) →
    Rotates overflowChecks connList n index

/-- A step that draws an index finds the length the task has read equal to that of its
snapshot. -/
def AgreesAt (overflowChecks : Bool) (s : RoundRobinConnection) : Label → Prop
  | .fetchAdd task =>
      ∀ connList n, s.calls task = some (.counted connList n) →
        Agrees overflowChecks connList n s.index
  | _ => True

section
variable {overflowChecks : Bool} {s t : RoundRobinConnection} {label : Label}

/-- One call more to look at. -/
theorem allRotate_put_iff {task : Nat} {call : GetConnections} (h : s.AllRotate overflowChecks)
    (hcalls : t.calls = Function.update s.calls task (some call)) :
    t.AllRotate overflowChecks ↔
      ∀ connList n index, call = .drawn connList n index → Rotates overflowChecks connList n index := by
  constructor
  · intro hall connList n index heq
    refine hall task connList n index ?_
    rw [hcalls, Function.update_self, heq]
  · intro hcall task' connList n index hdrawn
    rw [hcalls] at hdrawn
    by_cases htask : task' = task
    · subst htask
      rw [Function.update_self] at hdrawn
      exact hcall connList n index (Option.some.inj hdrawn)
    · rw [Function.update_of_ne htask] at hdrawn
      exact h task' connList n index hdrawn

/-- Where all is well so far, a step goes wrong exactly if it draws an index for a length that
is not the snapshot's. -/
theorem allRotate_step_iff (h : s.AllRotate overflowChecks) (hstep : s.step label = some t) :
    t.AllRotate overflowChecks ↔ s.AgreesAt overflowChecks label := by
  cases label with
  | addConnection c =>
    obtain rfl := Option.some.inj hstep
    exact iff_of_true h trivial
  | removeConnection c =>
    obtain rfl := Option.some.inj hstep
    exact iff_of_true h trivial
  | getConnections task =>
    simp only [step] at hstep
    split at hstep
    · obtain rfl := Option.some.inj hstep
      exact iff_of_true ((allRotate_put_iff h rfl).mpr (by simp)) trivial
    · obtain rfl := Option.some.inj hstep
      exact iff_of_true ((allRotate_put_iff h rfl).mpr (by simp)) trivial
    · cases hstep
  | len task =>
    simp only [step] at hstep
    split at hstep
    · obtain rfl := Option.some.inj hstep
      exact iff_of_true ((allRotate_put_iff h rfl).mpr (by simp)) trivial
    · cases hstep
  | fetchAdd task =>
    simp only [step] at hstep
    split at hstep
    · rename_i connList n hcall
      obtain rfl := Option.some.inj hstep
      rw [allRotate_put_iff h rfl]
      simp only [AgreesAt, hcall, Option.some.injEq, GetConnections.counted.injEq,
        GetConnections.drawn.injEq]
      constructor
      · intro hrotates connList' n' hsame
        obtain ⟨rfl, rfl⟩ := hsame
        exact agrees_of_rotates s.index_lt (hrotates _ _ _ ⟨rfl, rfl, rfl⟩)
      · intro hagrees connList' n' index' hsame
        obtain ⟨rfl, rfl, rfl⟩ := hsame
        exact rotates_of_agrees (hagrees _ _ ⟨rfl, rfl⟩)
    · cases hstep

end

/-- **Rotations of the whole snapshot.** Whatever the tasks do in between, all calls append a
rotation of their snapshot throughout a run exactly if each of its steps that draw an index
finds the length read for it equal to that of the snapshot, and the index not so close to the
largest `usize` that the loop counts past it. -/
theorem rotates_iff (overflowChecks : Bool) (connections : List Connection)
    (index : Fin (2 ^ 64)) (run : List Label) :
    Transition.Always step (fun _ _ t => t.AllRotate overflowChecks) (new connections index) run ↔
      Transition.Always step (fun s label _ => s.AgreesAt overflowChecks label)
        (new connections index) run := by
  have hstart : (new connections index).AllRotate overflowChecks :=
    fun _ _ _ _ hdrawn => absurd hdrawn (by simp [new])
  refine Transition.always_congr (I := AllRotate overflowChecks) ?_ ?_ hstart
  · intro s label t hs hagrees hstep
    exact (allRotate_step_iff hs hstep).mpr hagrees
  · intro s label t hs hstep
    exact allRotate_step_iff hs hstep

/-- A connection is added between the two looks at the list. -/
def addedBetween : List Label :=
  [.getConnections 0, .addConnection (.leaf ⟨2, "b:1", "b", "test.com"⟩), .len 0, .fetchAdd 0]

/-- The loop then runs one position past the end of the snapshot and panics. -/
theorem not_rotates_addedBetween :
    let start := new [.leaf ⟨1, "a:1", "a", "test.com"⟩] 0
    (∃ s, Transition.run step start addedBetween = some s ∧
      s.calls 0 = some (.drawn start.connections 2 0) ∧ appended true start.connections 2 0 = none) ∧
      ¬Transition.Always step (fun _ _ t => t.AllRotate true) start addedBetween := by
  refine ⟨⟨_, rfl, rfl, rfl⟩, ?_⟩
  intro h
  have hlast := (rotates_iff true _ 0 addedBetween).mp h _ rfl
  have hagrees := (((hlast.2 _ rfl).2 _ rfl).2 _ rfl).1 _ _ rfl
  exact absurd hagrees.1 (by decide)

end RoundRobinConnection

end RestDiameterBridge
