import Mathlib.Algebra.Order.BigOperators.Group.List
import Mathlib.Algebra.Order.Ring.Canonical
import Mathlib.Algebra.Order.Ring.Nat
import Mathlib.Data.List.Rotate

/-!
# RestDiameterBridge.Transport.Connection

Connections and the load-balancing containers over them (`src/transport/connection.rs`,
`roundrobin_connection.rs`, `failover_connect.rs`, `random_connection.rs`).

A `Connection` is a leaf (a peer connection) or a container over an ordered list of
connections. The shape is static here; what changes as a tree is used lives in
`Balancers`: the `AtomicUsize` index of each container and the random draws.

`getUnderlyingConnections` lists the leaves with an explicit work stack, popped from its
end; a request is attempted in that order. On failover containers nobody has sent
through it lists them from right to left (`getUnderlyingConnections_of_fresh`).
-/

namespace RestDiameterBridge

/-- The identity of a connection object: the allocation its `Arc` points to, and the
identity it reports. -/
structure Handle where
  addr : Nat
  id : String
  peerHost : String
  peerRealm : String
  deriving Repr, DecidableEq

/-- The load-balancing strategies. -/
inductive ContainerKind
  | roundRobin
  | failOver
  | random
  deriving Repr, DecidableEq

/-- A peer connection, or a container over connections. -/
inductive Connection
  | leaf (self : Handle)
  | container (kind : ContainerKind) (self : Handle) (connections : List Connection)
  deriving Repr

/-- The mutable state of the containers: the index each one keeps, by allocation, and
the random numbers still to be drawn. -/
structure Balancers where
  index : Nat → Nat
  draws : Nat → Nat

namespace Balancers

/-- `fetch_add(1)` on the index of a container: a wrapping `usize`. -/
def fetchAdd (s : Balancers) (addr : Nat) : Nat × Balancers :=
  (s.index addr,
    { s with index := Function.update s.index addr ((s.index addr + 1) % 2 ^ 64) })

/-- `random_range(0..n)`: the next draw, below `n`. -/
def randomRange (s : Balancers) (n : Nat) : Nat × Balancers :=
  (s.draws 0 % n, { s with draws := fun i => s.draws (i + 1) })

end Balancers

/-- The loop `for i in 0..n` over `list[(index + i) % n]`. The sum is one of `Nat`, which is that
of `usize` until an index is about to wrap around
(`RoundRobinConnection.appended_eq_rotation`). -/
def rotation {α : Type} (list : List α) (index : Nat) : List α :=
  (List.finRange list.length).map fun i : Fin list.length =>
    list.get ⟨(index + i) % list.length, Nat.mod_lt _ i.pos⟩

theorem rotation_eq_rotate {α : Type} (list : List α) (index : Nat) :
    rotation list index = list.rotate index := by
  refine List.ext_getElem (by simp [rotation]) fun i _ hi => ?_
  simp [rotation, List.getElem_rotate, Nat.add_comm]

theorem rotation_perm {α : Type} (list : List α) (index : Nat) :
    (rotation list index).Perm list := by
  rw [rotation_eq_rotate]
  exact List.rotate_perm list index

@[simp] theorem rotation_zero {α : Type} (list : List α) : rotation list 0 = list := by
  rw [rotation_eq_rotate, List.rotate_zero]

namespace Connection

/-- The connection object itself. -/
def self : Connection → Handle
  | leaf self => self
  | container _ self _ => self

/-- Is this a load-balancing container? -/
def isContainer : Connection → Bool
  | leaf _ => false
  | container .. => true

/-- The connections of a container in the order its strategy gives them now. A leaf has
none. -/
def getConnections (s : Balancers) : Connection → List Connection × Balancers
  | leaf _ => ([], s)
  | container .roundRobin self connections =>
      let (index, s) := s.fetchAdd self.addr
      (rotation connections index, s)
  | container .failOver self connections => (rotation connections (s.index self.addr), s)
  | container .random _ connections =>
      if 0 < connections.length then
        let (index, s) := s.randomRange connections.length
        (rotation connections index, s)
      else ([], s)

theorem getConnections_perm (s : Balancers) (kind : ContainerKind) (self : Handle)
    (connections : List Connection) :
    ((container kind self connections).getConnections s).1.Perm connections := by
  cases kind with
  | roundRobin => exact rotation_perm _ _
  | failOver => exact rotation_perm _ _
  | random =>
    cases connections with
    | nil => exact .refl _
    | cons c cs =>
      rw [getConnections, if_pos (by simp)]
      exact rotation_perm _ _

/-- Induction over a tree: a container may use what holds of its connections. -/
@[elab_as_elim] theorem treeInduction {motive : Connection → Prop} (c : Connection)
    (leaf : ∀ self, motive (leaf self))
    (container : ∀ kind self connections, (∀ c ∈ connections, motive c) →
      motive (container kind self connections)) : motive c := by
  induction hn : sizeOf c using Nat.strongRecOn generalizing c with
  | ind n ih =>
    cases c with
    | leaf self => exact leaf self
    | container kind self connections =>
      refine container kind self connections fun c hc => ih (sizeOf c) ?_ c rfl
      have := List.sizeOf_lt_of_mem hc
      simp only [Connection.container.sizeOf_spec] at hn
      omega

/-! ### The weight of a tree -/

mutual
/-- Bounds the work of one traversal: every pass over the list of a container is paid
for by each of its children. -/
def weight : Connection → Nat
  | leaf _ => 1
  | container _ _ connections => 4 + connections.length * (2 + weightSum connections)
/-- The weight of a list of trees. -/
def weightSum : List Connection → Nat
  | [] => 0
  | c :: cs => c.weight + weightSum cs
end

theorem weightSum_eq_sum (cs : List Connection) : weightSum cs = (cs.map weight).sum := by
  induction cs with
  | nil => rfl
  | cons c cs ih => rw [weightSum, ih, List.map_cons, List.sum_cons]

@[simp] theorem weightSum_append (cs ds : List Connection) :
    weightSum (cs ++ ds) = weightSum cs + weightSum ds := by
  simp only [weightSum_eq_sum, List.map_append, List.sum_append]

theorem weightSum_perm {cs ds : List Connection} (h : cs.Perm ds) :
    weightSum cs = weightSum ds := by
  simp only [weightSum_eq_sum]
  exact (h.map weight).sum_nat

theorem weight_pos (c : Connection) : 0 < c.weight := by
  cases c with
  | leaf _ => rw [weight]; omega
  | container _ _ _ => rw [weight]; omega

theorem weight_le_weightSum {c : Connection} {cs : List Connection} (h : c ∈ cs) :
    c.weight ≤ weightSum cs := by
  rw [weightSum_eq_sum]
  exact List.le_sum_of_mem (List.mem_map_of_mem h)

/-- Replacing a container by its children makes a list lighter. -/
theorem weightSum_lt_weight (kind : ContainerKind) (self : Handle) (cs : List Connection) :
    weightSum cs < (container kind self cs).weight := by
  rw [weight]
  cases cs with
  | nil => rw [weightSum]; omega
  | cons c cs =>
    have : 1 * (2 + weightSum (c :: cs)) ≤ (c :: cs).length * (2 + weightSum (c :: cs)) :=
      Nat.mul_le_mul_right _ (by simp)
    omega

theorem weightSum_getConnections_lt {c : Connection} (h : c.isContainer = true) (s : Balancers) :
    weightSum (c.getConnections s).1 < c.weight := by
  cases c with
  | leaf _ => cases h
  | container kind self cs =>
    rw [weightSum_perm (getConnections_perm s kind self cs)]
    exact weightSum_lt_weight kind self cs

end Connection

open Connection

/-! ### The underlying connections -/

/-- The loop of `get_underlying_connections`: pop the last connection to check, push the
connections of a container in its place, collect a leaf. -/
def checkConnections (s : Balancers) (checking connections : List Connection) :
    List Connection × Balancers :=
  match _h : checking.getLast? with
  | none => (connections, s)
  | some current =>
      if _hc : current.isContainer then
        let pushed := current.getConnections s
        checkConnections pushed.2 (checking.dropLast ++ pushed.1) connections
      else checkConnections s checking.dropLast (connections ++ [current])
termination_by weightSum checking
decreasing_by
  all_goals
    obtain ⟨front, rfl⟩ := List.getLast?_eq_some_iff.mp _h
    rw [List.dropLast_concat]
    simp only [weightSum_append, weightSum]
  · have := weightSum_getConnections_lt _hc s
    omega
  · have := weight_pos current
    omega

/-- The leaves under a connection, in the order a request is attempted on them. -/
def getUnderlyingConnections (s : Balancers) (connection : Connection) :
    List Connection × Balancers :=
  checkConnections s [connection] []

section
variable {s : Balancers} {checking connections : List Connection}

@[simp] theorem checkConnections_nil : checkConnections s [] connections = (connections, s) := by
  rw [checkConnections]
  rfl

theorem checkConnections_container {c : Connection} (hc : c.isContainer = true) :
    checkConnections s (checking ++ [c]) connections =
      checkConnections (c.getConnections s).2 (checking ++ (c.getConnections s).1)
        connections := by
  rw [checkConnections]
  split
  · simp_all
  · rename_i current h
    rw [List.getLast?_concat] at h
    obtain rfl := Option.some.inj h
    rw [dif_pos hc, List.dropLast_concat]

theorem checkConnections_leaf (l : Handle) :
    checkConnections s (checking ++ [leaf l]) connections =
      checkConnections s checking (connections ++ [leaf l]) := by
  rw [checkConnections]
  split
  · simp_all
  · rename_i current h
    rw [List.getLast?_concat] at h
    obtain rfl := Option.some.inj h
    rw [dif_neg (by simp [isContainer]), List.dropLast_concat]

end

/-! ### Unused failover trees -/

namespace Connection

mutual
/-- The leaves of a tree, left to right. -/
def leaves : Connection → List Connection
  | leaf self => [leaf self]
  | container _ _ connections => leavesList connections
/-- The leaves of a list of trees, left to right. -/
def leavesList : List Connection → List Connection
  | [] => []
  | c :: cs => c.leaves ++ leavesList cs
end

theorem leavesList_eq_flatMap (cs : List Connection) : leavesList cs = cs.flatMap leaves := by
  induction cs with
  | nil => rfl
  | cons c cs ih => rw [leavesList, ih, List.flatMap_cons]

@[simp] theorem leavesList_concat (cs : List Connection) (c : Connection) :
    leavesList (cs ++ [c]) = leavesList cs ++ c.leaves := by
  simp [leavesList_eq_flatMap]

/-- A tree of failover containers through which nothing was sent yet: every index is
still 0. -/
inductive FreshFailOver (s : Balancers) : Connection → Prop
  | leaf (self : Handle) : FreshFailOver s (leaf self)
  | container (self : Handle) (connections : List Connection) :
      s.index self.addr = 0 → (∀ c ∈ connections, FreshFailOver s c) →
      FreshFailOver s (container .failOver self connections)

end Connection

/-- Popping from the end turns the leaves around, at every level. -/
theorem checkConnections_of_fresh {s : Balancers} {c : Connection} (h : c.FreshFailOver s)
    (checking connections : List Connection) :
    checkConnections s (checking ++ [c]) connections =
      checkConnections s checking (connections ++ c.leaves.reverse) := by
  induction h generalizing checking connections with
  | leaf self => exact checkConnections_leaf self
  | container self children hindex _ ih =>
    rw [checkConnections_container rfl, getConnections, hindex, rotation_zero]
    induction children using List.reverseRecOn generalizing connections with
    | nil => simp [leaves, leavesList]
    | append_singleton cs c ihcs =>
      rw [← List.append_assoc, ih c (by simp),
        ihcs (fun d hd => ‹∀ d ∈ cs ++ [c], _› d (by simp [hd])) fun d hd => ih d (by simp [hd])]
      simp [leaves]

/-- The attempts on an unused failover tree start with its last leaf. -/
theorem getUnderlyingConnections_of_fresh {s : Balancers} {c : Connection}
    (h : c.FreshFailOver s) : getUnderlyingConnections s c = (c.leaves.reverse, s) := by
  have := checkConnections_of_fresh h [] []
  simpa [getUnderlyingConnections] using this

end RestDiameterBridge
